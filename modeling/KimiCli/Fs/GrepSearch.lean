import KimiCli.Js.Text
import KimiCli.Lib.ChunkedLines
import KimiCli.Lib.OrderedMap

/-!
# Searching the contents of files

`grepWithNode` goes through the lines of every file itself.  `grepWithRg` starts ripgrep and reads
the records that it prints, which come in chunks.  The search is not aborted by its timeout.
-/

namespace KimiCli.Grep

open ChunkedLines

structure FsGrepRequest where
  pattern : List Char
  regex : Bool
  caseSensitive : Bool
  includeGlobs : List (List Char)
  excludeGlobs : List (List Char)
  followGitignore : Bool
  maxFiles : ℕ
  maxMatchesPerFile : ℕ
  maxTotalMatches : ℕ
  contextLines : ℕ
  pattern_ne_nil : pattern ≠ []
  maxFiles_pos : 0 < maxFiles
  maxMatchesPerFile_pos : 0 < maxMatchesPerFile
  maxTotalMatches_pos : 0 < maxTotalMatches

structure FsGrepMatch where
  line : ℕ
  col : ℕ
  text : List Char
  before : List (List Char)
  after : List (List Char)
  deriving DecidableEq

structure FsGrepFileHit where
  path : List Char
  hits : List FsGrepMatch
  deriving DecidableEq

structure FsGrepResponse where
  files : List FsGrepFileHit
  filesScanned : ℕ
  truncated : Bool

/-- A file to be searched, in the order of the walk. -/
structure SearchedFile where
  path : List Char
  content : List Char
  deriving DecidableEq

/-! ## Literal patterns -/

/-- Whether `line` begins with the pattern. -/
def begins (same : Char → Char → Bool) : List Char → List Char → Bool
  | [], _ => true
  | p :: pattern, c :: line => same p c && begins same pattern line
  | _ :: _, [] => false

/-- What precedes the first place where the literal pattern occurs in a line. -/
def occurrence (same : Char → Char → Bool) (pattern : List Char) : List Char → Option (List Char)
  | [] => if begins same pattern [] then some [] else none
  | c :: line =>
    if begins same pattern (c :: line) then some []
    else (occurrence same pattern line).map (c :: ·)

/-- How the characters of the pattern are compared with those of a line, where `fold` maps the
characters that differ in case only to one. -/
def sameChar (fold : Char → Char) (req : FsGrepRequest) (p c : Char) : Bool :=
  if req.caseSensitive then p = c else fold p = fold c

variable (fold : Char → Char) (req : FsGrepRequest)

/-- `re.exec(line)` -/
def exec (line : List Char) : Option (List Char) := occurrence (sameChar fold req) req.pattern line

/-! ## Without ripgrep -/

/-- `content.split(/\r?\n/)` -/
def splitLines : List Char → List (List Char)
  | [] => [[]]
  | '\r' :: '\n' :: content => [] :: splitLines content
  | '\n' :: content => [] :: splitLines content
  | c :: content =>
    match splitLines content with
    | [] => [[c]]
    | line :: lines => (c :: line) :: lines

/-- The lines around line `i`. -/
def linesBefore (lines : List (List Char)) (i : ℕ) : List (List Char) :=
  (lines.take i).drop (i - req.contextLines)

def linesAfter (lines : List (List Char)) (i : ℕ) : List (List Char) :=
  (lines.drop (i + 1)).take req.contextLines

/-- The lines still to be searched come with their numbers.  Returned are the matches, the total,
and whether it has reached its limit. -/
def searchLines (lines : List (List Char)) :
    List (List Char × ℕ) → List FsGrepMatch → ℕ → List FsGrepMatch × ℕ × Bool
  | [], hits, totalMatches => (hits, totalMatches, false)
  | (line, i) :: todo, hits, totalMatches =>
    match exec fold req line with
    | none => searchLines lines todo hits totalMatches
    | some prefixChars =>
      if hits.length ≥ req.maxMatchesPerFile then (hits, totalMatches, false)
      else
        let hits := hits ++ [{
          line := i + 1
          col := utf16Length prefixChars + 1
          text := line
          before := linesBefore req lines i
          after := linesAfter req lines i }]
        if totalMatches + 1 ≥ req.maxTotalMatches then (hits, totalMatches + 1, true)
        else searchLines lines todo hits (totalMatches + 1)

/-- The loop over the files; `totalMatches` and `response` are those so far. -/
def searchFiles : List SearchedFile → ℕ → FsGrepResponse → FsGrepResponse
  | [], _, response => response
  | file :: files, totalMatches, response =>
    if response.filesScanned ≥ req.maxFiles then { response with truncated := true }
    else
      let lines := splitLines file.content
      let (hits, totalMatches, reached) := searchLines fold req lines lines.zipIdx [] totalMatches
      let response := {
        files := if hits.length > 0 then response.files ++ [⟨file.path, hits⟩] else response.files
        filesScanned := response.filesScanned + 1
        truncated := response.truncated || reached }
      if totalMatches ≥ req.maxTotalMatches then response
      else searchFiles files totalMatches response

/-- On the files that the walk finds. -/
def grepWithNode (files : List SearchedFile) : FsGrepResponse :=
  searchFiles fold req files 0 ⟨[], 0, false⟩

/-! ## With ripgrep -/

inductive RgType where
  | begin | «end» | «match» | context | summary
  deriving DecidableEq

/-- A text of ripgrep's, which is base64 where it is not UTF-8. -/
inductive RgField where
  | text (text : List Char)
  | bytes (bytes : List Char)
  deriving DecidableEq

structure RgJsonRecord where
  type : RgType
  path : Option RgField
  lines : Option RgField
  lineNumber : Option ℕ
  /-- The starts of `submatches`. -/
  submatches : Option (List ℕ)
  deriving DecidableEq

def rgArgs : List (List Char) :=
  ["--json".toList] ++
  (if req.contextLines > 0 then ["--context".toList, Nat.toDigits 10 req.contextLines] else []) ++
  (if req.caseSensitive then [] else ["--ignore-case".toList]) ++
  (if req.regex then [] else ["--fixed-strings".toList]) ++
  [if req.followGitignore then "--no-require-git".toList else "--no-ignore".toList] ++
  req.includeGlobs.flatMap (fun g => ["--glob".toList, g]) ++
  req.excludeGlobs.flatMap (fun g => ["--glob".toList, '!' :: g]) ++
  ["--max-count".toList, Nat.toDigits 10 req.maxMatchesPerFile] ++
  [req.pattern, ".".toList]

def stripTrailingNewline (s : List Char) : List Char :=
  if ['\r', '\n'] <:+ s then s.take (s.length - 2)
  else if ['\n'] <:+ s then s.take (s.length - 1)
  else s

/-- What is kept of a file between its `begin` and its `end`. -/
structure FileBuf where
  hits : List FsGrepMatch
  pending : List (List Char)

structure RgState where
  fileBuf : OrderedMap (List Char) FileBuf
  files : List FsGrepFileHit
  totalMatches : ℕ
  truncated : Bool
  filesScanned : ℕ

def RgState.initial : RgState := ⟨∅, [], 0, false, 0⟩

/-- `slice(-count)`, which is everything for `count = 0`. -/
def sliceEnd (count : ℕ) (items : List (List Char)) : List (List Char) :=
  if count = 0 then items else items.drop (items.length - count)

/-- The pending lines follow the last match. -/
def FileBuf.finish (buf : FileBuf) : List FsGrepMatch :=
  match buf.hits.getLast? with
  | none => []
  | some last =>
    if buf.pending.length > 0 then
      buf.hits.dropLast ++ [{ last with after := buf.pending.take req.contextLines }]
    else buf.hits

/-- The files so far with that of `buf`, if it has a match. -/
def pushFile (files : List FsGrepFileHit) (path : List Char) (buf : FileBuf) :
    List FsGrepFileHit :=
  if buf.hits.length > 0 then files ++ [⟨path, buf.finish req⟩] else files

def FileBuf.context (buf : FileBuf) (text : List Char) : FileBuf :=
  let pending := buf.pending ++ [text]
  { buf with pending := if pending.length > req.contextLines * 2 then pending.tail else pending }

def FileBuf.match (buf : FileBuf) (line col : ℕ) (text : List Char) : FileBuf where
  hits := buf.hits ++ [⟨line, col, text, sliceEnd req.contextLines buf.pending, []⟩]
  pending := []

section

variable (fromBase64 : List Char → List Char)

def rgText : Option RgField → List Char
  | none => []
  | some (.text text) => text
  | some (.bytes bytes) => fromBase64 bytes

def rgPath (field : Option RgField) : Option (List Char) :=
  field.map fun path =>
    match rgText fromBase64 (some path) with
    | '.' :: '/' :: rest => rest
    | raw => raw

/-- One record, and whether ripgrep is killed and the rest of the chunk is left. -/
def onRecord (state : RgState) (rec : RgJsonRecord) : RgState × Bool :=
  match rec.type with
  | .begin =>
    match rgPath fromBase64 rec.path with
    | none => (state, false)
    | some p =>
      if state.filesScanned ≥ req.maxFiles then ({ state with truncated := true }, true)
      else ({ state with
        fileBuf := state.fileBuf.set p ⟨[], []⟩, filesScanned := state.filesScanned + 1 }, false)
  | .context =>
    match (rgPath fromBase64 rec.path).bind fun p => (state.fileBuf.get p).map (p, ·) with
    | none => (state, false)
    | some (p, buf) =>
      let text := stripTrailingNewline (rgText fromBase64 rec.lines)
      ({ state with fileBuf := state.fileBuf.set p (buf.context req text) }, false)
  | .match =>
    if state.totalMatches ≥ req.maxTotalMatches then ({ state with truncated := true }, true)
    else
      match (rgPath fromBase64 rec.path).bind fun p => (state.fileBuf.get p).map (p, ·) with
      | none => (state, false)
      | some (p, buf) =>
        if buf.hits.length ≥ req.maxMatchesPerFile then (state, false)
        else
          let text := stripTrailingNewline (rgText fromBase64 rec.lines)
          let line := rec.lineNumber.getD 0
          let col := ((rec.submatches.getD []).head?.getD 0) + 1
          let state := { state with
            fileBuf := state.fileBuf.set p (buf.match req line col text)
            totalMatches := state.totalMatches + 1 }
          if state.totalMatches ≥ req.maxTotalMatches then
            ({ state with truncated := true }, true)
          else (state, false)
  | .end =>
    match (rgPath fromBase64 rec.path).bind fun p => (state.fileBuf.get p).map (p, ·) with
    | none => (state, false)
    | some (p, buf) =>
      ({ state with
        files := pushFile req state.files p buf, fileBuf := state.fileBuf.delete p }, false)
  | .summary => (state, false)

/-- One line of ripgrep's output, where `parseJson` is `JSON.parse` with `none` where it throws. -/
def onLine (parseJson : List Char → Option RgJsonRecord) (state : RgState) (line : List Char) :
    RgState × Bool :=
  if line.length = 0 then (state, false)
  else
    match parseJson line with
    | none => (state, false)
    | some rec => onRecord req fromBase64 state rec

/-- What is answered after ripgrep has closed. -/
def RgState.close (state : RgState) : FsGrepResponse where
  files := state.fileBuf.entries.foldl (fun files (p, buf) => pushFile req files p buf) state.files
  filesScanned := state.filesScanned
  truncated := state.truncated

/-- On the chunks in which the output of ripgrep arrives. -/
def grepWithRg (parseJson : List Char → Option RgJsonRecord) (chunks : List (List Char)) :
    FsGrepResponse :=
  (feedAll (onLine req fromBase64 parseJson) RgState.initial chunks).1.close req

end

end KimiCli.Grep
