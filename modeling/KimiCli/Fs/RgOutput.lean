import KimiCli.Fs.GrepSearch
import KimiCli.Js.Utf8

/-!
# What ripgrep prints of a file

Of a file with matches ripgrep prints `begin`, then a record for each of the first matching lines
and for the lines around them, in the order of the lines, then `end`.  The records of one file are
compared here with the matches that `grepWithNode` finds in it.
-/

namespace KimiCli.Grep

variable (fold : Char → Char) (req : FsGrepRequest)

/-! ## The lines of a file -/

/-- The lines with their line feeds. -/
def rgLines : List Char → List (List Char)
  | [] => []
  | '\n' :: content => ['\n'] :: rgLines content
  | c :: content =>
    match rgLines content with
    | [] => [[c]]
    | line :: lines => (c :: line) :: lines

/-- The line without its line feed, which is what ripgrep searches. -/
def lineContent (raw : List Char) : List Char :=
  if ['\n'] <:+ raw then raw.take (raw.length - 1) else raw

/-- The empty line after a last line feed, which only `splitLines` has. -/
def emptyTail (content : List Char) : List (List Char) :=
  if content = [] ∨ ['\n'] <:+ content then [[]] else []

section

variable {c : Char} {s content raw : List Char}

theorem suffix_cons_iff_of_ne {t : List Char} (ne : t ≠ c :: s) : t <:+ c :: s ↔ t <:+ s := by
  rw [List.suffix_cons_iff, or_iff_right ne]

theorem stripTrailingNewline_cons (some' : s ≠ []) (crlf : ¬ (c = '\r' ∧ s = ['\n'])) :
    stripTrailingNewline (c :: s) = c :: stripTrailingNewline s := by
  have two : ['\r', '\n'] <:+ c :: s ↔ ['\r', '\n'] <:+ s := by
    refine suffix_cons_iff_of_ne fun same => ?_
    cases same
    exact crlf ⟨rfl, rfl⟩
  have one : ['\n'] <:+ c :: s ↔ ['\n'] <:+ s := by
    refine suffix_cons_iff_of_ne fun same => ?_
    cases same
    exact some' rfl
  have pos : 0 < s.length := List.length_pos_of_ne_nil some'
  simp only [stripTrailingNewline, two, one, List.length_cons]
  split
  case isTrue ends =>
    have long : 2 ≤ s.length := ends.length_le
    rw [show s.length + 1 - 2 = s.length - 2 + 1 by omega, List.take_succ_cons]
  case isFalse =>
    split
    case isTrue => rw [show s.length + 1 - 1 = s.length - 1 + 1 by omega, List.take_succ_cons]
    case isFalse => rfl

theorem rgLines_ne_nil (some' : content ≠ []) : rgLines content ≠ [] := by
  rcases content with - | ⟨c, content⟩
  · exact absurd rfl some'
  · rw [rgLines.eq_def]
    split
    case h_1 same => cases same
    case h_2 => exact List.cons_ne_nil _ _
    case h_3 => split <;> exact List.cons_ne_nil _ _

theorem ne_nil_of_mem_rgLines (mem : raw ∈ rgLines content) : raw ≠ [] := by
  fun_induction rgLines content with
  | case1 => cases mem
  | case2 content ih =>
    rcases List.mem_cons.1 mem with rfl | mem
    · exact List.cons_ne_nil _ _
    · exact ih mem
  | case3 c content _ none ih =>
    rw [List.mem_singleton.1 mem]
    exact List.cons_ne_nil _ _
  | case4 c content _ line lines some' ih =>
    rcases List.mem_cons.1 mem with rfl | mem
    · exact List.cons_ne_nil _ _
    · exact ih (some' ▸ List.mem_cons_of_mem _ mem)

theorem emptyTail_cons (some' : content ≠ []) : emptyTail (c :: content) = emptyTail content := by
  have suffix : ['\n'] <:+ c :: content ↔ ['\n'] <:+ content := by
    refine suffix_cons_iff_of_ne fun same => ?_
    cases same
    exact some' rfl
  simp only [emptyTail, suffix, List.cons_ne_nil, false_or, some']

theorem emptyTail_lf : emptyTail ('\n' :: content) = emptyTail content := by
  rcases content with - | ⟨c, content⟩
  · rfl
  · exact emptyTail_cons (List.cons_ne_nil _ _)

theorem rgLines_cons {line : List Char} {lines : List (List Char)} (ne : c ≠ '\n')
    (rest : rgLines content = line :: lines) : rgLines (c :: content) = (c :: line) :: lines := by
  rw [rgLines, rest]
  exact ne

theorem eq_lf_of_rgLines {lines : List (List Char)} (first : rgLines content = ['\n'] :: lines) :
    ∃ rest, content = '\n' :: rest := by
  rcases content with - | ⟨c, content⟩
  · cases first
  · by_cases lf : c = '\n'
    · exact ⟨content, by rw [lf]⟩
    · rw [rgLines] at first
      · split at first
        · cases first
          exact absurd rfl lf
        · cases first
          exact absurd rfl lf
      · exact lf

/-- Both see the same lines, but for an empty one at the end. -/
theorem splitLines_eq (content : List Char) :
    splitLines content = (rgLines content).map stripTrailingNewline ++ emptyTail content := by
  fun_induction splitLines content with
  | case1 => rfl
  | case2 content ih =>
    have lf : rgLines ('\n' :: content) = ['\n'] :: rgLines content := by rw [rgLines]
    have first : '\r' ≠ '\n' := by decide
    rw [rgLines_cons first lf, emptyTail_cons (List.cons_ne_nil _ _), emptyTail_lf, ih]
    rfl
  | case3 content ih =>
    rw [rgLines, emptyTail_lf, ih]
    rfl
  | case4 c content _ _ none ih =>
    rw [none] at ih
    have both := List.append_eq_nil_iff.1 ih.symm
    rcases content with - | ⟨d, content⟩
    · cases none
    · exact absurd (List.map_eq_nil_iff.1 both.1) (rgLines_ne_nil (List.cons_ne_nil _ _))
  | case5 c content crlf lf line lines some' ih =>
    rcases content with - | ⟨d, content⟩
    · cases some'
      have ends : ¬ ['\n'] <:+ [c] := fun ends => by
        cases ends.eq_of_length rfl
        exact lf rfl
      have crlf : ¬ ['\r', '\n'] <:+ [c] := fun ends => by simpa using ends.length_le
      have single : rgLines [c] = [[c]] := by
        rw [rgLines, rgLines]
        exact fun same => lf same
      rw [single, List.map_singleton, stripTrailingNewline, if_neg crlf, if_neg ends, emptyTail,
        if_neg (by simp [ends]), List.append_nil]
    · obtain ⟨raw, raws, first⟩ := List.exists_cons_of_ne_nil
        (rgLines_ne_nil (List.cons_ne_nil d content))
      have ne : c ≠ '\n' := fun same => lf same
      rw [some', first, List.map_cons, List.cons_append] at ih
      cases ih
      rw [rgLines_cons ne first, emptyTail_cons (List.cons_ne_nil _ _), List.map_cons,
        stripTrailingNewline_cons, List.cons_append]
      · exact ne_nil_of_mem_rgLines (first ▸ List.mem_cons_self ..)
      · rintro ⟨rfl, rfl⟩
        obtain ⟨rest, same⟩ := eq_lf_of_rgLines first
        exact crlf rest rfl same

end

/-! ## The records of a file -/

/-- A line where the pattern is found, and what precedes it there. -/
structure Hit where
  index : ℕ
  text : List Char
  front : List Char
  deriving DecidableEq

def hits (content : List Char) : List Hit :=
  (splitLines content).zipIdx.filterMap fun (line, i) => (exec fold req line).map (⟨i, line, ·⟩)

/-- The lines where ripgrep finds the pattern, which may take a carriage return before the line
feed. -/
def rgHits (content : List Char) : List Hit :=
  (rgLines content).zipIdx.filterMap fun (raw, i) =>
    (exec fold req (lineContent raw)).map (⟨i, stripTrailingNewline raw, ·⟩)

/-- A line that ripgrep prints, with the byte where the match begins in it, if it does. -/
structure RgLine where
  raw : List Char
  index : ℕ
  start : Option ℕ

/-- The indices of the lines that are printed as matches. -/
def reported (content : List Char) : List ℕ :=
  ((rgLines content).zipIdx.filterMap fun (raw, i) =>
    (exec fold req (lineContent raw)).map fun _ => i).take req.maxMatchesPerFile

/-- How one line is printed: as a match, as a line near a match, or not. -/
def role (reported : List ℕ) (line : List Char × ℕ) : Option RgLine :=
  if line.2 ∈ reported then
    (exec fold req (lineContent line.1)).map fun front =>
      ⟨line.1, line.2, some (encodeChars front).length⟩
  else if reported.any fun i => i ≤ line.2 + req.contextLines && line.2 ≤ i + req.contextLines then
    some ⟨line.1, line.2, none⟩
  else none

def printedLines (content : List Char) : List RgLine :=
  (rgLines content).zipIdx.filterMap (role fold req (reported fold req content))

/-- The record of a line, where `further` gives the other matches in the line. -/
def RgLine.record (path : List Char) (further : List Char → List ℕ) (line : RgLine) :
    RgJsonRecord where
  type := if line.start.isSome then .match else .context
  path := some (.text ('.' :: '/' :: path))
  lines := some (.text line.raw)
  lineNumber := some (line.index + 1)
  submatches := some (line.start.toList ++ if line.start.isSome then further line.raw else [])

/-- What ripgrep prints of a file. -/
def fileRecords (further : List Char → List ℕ) (file : SearchedFile) : List RgJsonRecord :=
  let path := some (RgField.text ('.' :: '/' :: file.path))
  let lines := printedLines fold req file.content
  if lines.length = 0 then []
  else ⟨.begin, path, none, none, none⟩ ::
    (lines.map (RgLine.record file.path further) ++ [⟨.end, path, none, none, none⟩])

/-! ## Reading them -/

def FileBuf.read (buf : FileBuf) (line : RgLine) : FileBuf :=
  match line.start with
  | some start => buf.match req (line.index + 1) (start + 1) (stripTrailingNewline line.raw)
  | none => buf.context req (stripTrailingNewline line.raw)

/-- The lines up to the match number `n`. -/
def upTo : ℕ → List RgLine → List RgLine
  | _, [] => []
  | n, line :: lines =>
    if line.start.isSome then
      if n ≤ 1 then [line] else line :: upTo (n - 1) lines
    else line :: upTo n lines

/-- What is read of a file of which `n` matches are taken, the last of all if `last`. -/
def rgRead (n : ℕ) (last : Bool) (content : List Char) : List FsGrepMatch :=
  let lines := printedLines fold req content
  ((if last then upTo n lines else lines).foldl (FileBuf.read req) ⟨[], []⟩).finish req

/-- What `grepWithNode` finds in a file. -/
def nodeMatch (lines : List (List Char)) (hit : Hit) : FsGrepMatch where
  line := hit.index + 1
  col := utf16Length hit.front + 1
  text := hit.text
  before := linesBefore req lines hit.index
  after := linesAfter req lines hit.index

variable {fold} {req} {content : List Char}

theorem exec_nil : exec fold req [] = none := by
  rw [exec, occurrence, if_neg]
  intro starts
  rcases pattern : req.pattern with - | ⟨p, rest⟩
  · exact req.pattern_ne_nil pattern
  · rw [pattern, begins] at starts
    cases starts

theorem hits_eq : hits fold req content = (rgLines content).zipIdx.filterMap fun (raw, i) =>
    (exec fold req (stripTrailingNewline raw)).map (⟨i, stripTrailingNewline raw, ·⟩) := by
  have tail (k : ℕ) : ((emptyTail content).zipIdx k).filterMap (fun (line, i) =>
      (exec fold req line).map (Hit.mk i line ·)) = [] := by
    rw [emptyTail]
    split
    case isTrue =>
      simp only [List.zipIdx_cons, List.zipIdx_nil, List.filterMap_cons, exec_nil, Option.map_none,
        List.filterMap_nil]
    case isFalse => rfl
  rw [hits, splitLines_eq, List.zipIdx_append, List.filterMap_append, tail, List.append_nil,
    List.zipIdx_map, List.filterMap_map]
  rfl

theorem reported_eq : reported fold req content =
    ((rgHits fold req content).take req.maxMatchesPerFile).map Hit.index := by
  rw [reported, rgHits, List.map_take, List.map_filterMap]
  refine congrArg _ (List.filterMap_congr fun line _ => ?_)
  rw [Option.map_map]
  rfl

/-! ### The printed lines around the first match -/

variable {first : ℕ} {lines : List (List Char)} {hit : Hit} {later : List Hit}

/-- The text of a printed line. -/
def RgLine.text (line : RgLine) : List Char := stripTrailingNewline line.raw

theorem filterMap_before (k : ℕ) :
    ((lines.zipIdx k).filterMap fun line =>
      if first ≤ line.2 + req.contextLines then some (RgLine.mk line.1 line.2 none)
      else none).map RgLine.text =
    (lines.drop (first - req.contextLines - k)).map stripTrailingNewline := by
  induction lines generalizing k with
  | nil => simp
  | cons line lines ih =>
    rw [List.zipIdx_cons, List.filterMap_cons]
    by_cases near : first ≤ k + req.contextLines
    · have none : first - req.contextLines - k = 0 := by omega
      have none' : first - req.contextLines - (k + 1) = 0 := by omega
      simp only [if_pos near, List.map_cons, none, List.drop_zero]
      rw [ih, none', List.drop_zero]
      rfl
    · have some' : first - req.contextLines - k = first - req.contextLines - (k + 1) + 1 := by omega
      simp only [if_neg near, some', List.drop_succ_cons]
      exact ih (k + 1)

theorem filterMap_after (k : ℕ) :
    ((lines.zipIdx k).filterMap fun line =>
      if line.2 ≤ first + req.contextLines then some (RgLine.mk line.1 line.2 none)
      else none).map RgLine.text =
    (lines.take (first + req.contextLines + 1 - k)).map stripTrailingNewline := by
  induction lines generalizing k with
  | nil => simp
  | cons line lines ih =>
    rw [List.zipIdx_cons, List.filterMap_cons]
    by_cases near : k ≤ first + req.contextLines
    · have some' : first + req.contextLines + 1 - k =
          first + req.contextLines + 1 - (k + 1) + 1 := by omega
      simp only [if_pos near, List.map_cons, some', List.take_succ_cons]
      rw [ih]
      rfl
    · have none : first + req.contextLines + 1 - k = 0 := by omega
      have none' : first + req.contextLines + 1 - (k + 1) = 0 := by omega
      simp only [if_neg near, none, List.take_zero, List.map_nil]
      rw [ih, none', List.take_zero, List.map_nil]

theorem rgHits_cons (found : rgHits fold req content = hit :: later) :
    ∃ above raw below, rgLines content = above ++ raw :: below ∧
      hit.index = above.length ∧ hit.text = stripTrailingNewline raw ∧
      exec fold req (lineContent raw) = some hit.front ∧
      (∀ line ∈ above, exec fold req (lineContent line) = none) ∧
      later = (below.zipIdx (above.length + 1)).filterMap fun (raw, i) =>
        (exec fold req (lineContent raw)).map (⟨i, stripTrailingNewline raw, ·⟩) := by
  rw [rgHits, List.filterMap_eq_cons_iff] at found
  obtain ⟨front, line, rest, numbered, none, here, tail⟩ := found
  obtain ⟨above, others, whole, rfl, at'⟩ := List.zipIdx_eq_append_iff.1 numbered
  obtain ⟨raw, below, rfl, rfl, rfl⟩ := List.zipIdx_eq_cons_iff.1 at'.symm
  simp only [Option.map_eq_some_iff, Nat.zero_add] at here tail
  obtain ⟨found, exec', rfl⟩ := here
  refine ⟨above, raw, below, whole, rfl, rfl, exec', fun line mem => ?_, tail.symm⟩
  obtain ⟨i, at'⟩ := List.mem_iff_getElem?.1 mem
  exact Option.map_eq_none_iff.1 (none (line, i) (List.mk_mem_zipIdx_iff_getElem?.2 at'))

theorem filterMap_mem_take {α β γ : Type*} (g : α → Option β) (f : α → ℕ → β → γ) (l : List α)
    (k m : ℕ) :
    ((l.zipIdx k).filterMap fun x =>
      if x.2 ∈ ((l.zipIdx k).filterMap fun y => (g y.1).map fun _ => y.2).take m then
        (g x.1).map (f x.1 x.2)
      else none) =
    ((l.zipIdx k).filterMap fun x => (g x.1).map (f x.1 x.2)).take m := by
  induction l generalizing k m with
  | nil => simp
  | cons a l ih =>
    rcases Option.eq_none_or_eq_some (g a) with found | ⟨b, found⟩
    · simp only [List.zipIdx_cons, List.filterMap_cons, found, Option.map_none, ite_self]
      exact ih (k + 1) m
    · cases m with
      | zero => simp
      | succ m =>
        simp only [List.zipIdx_cons, List.filterMap_cons, found, Option.map_some,
          List.take_succ_cons, List.mem_cons, true_or, if_true]
        rw [← ih (k + 1) m]
        refine congrArg (List.cons _) (List.filterMap_congr fun x mem => ?_)
        have later : x.2 ≠ k := by
          have := List.le_snd_of_mem_zipIdx mem
          omega
        simp only [later, false_or]

/-- Line, column and text of the printed matches. -/
def matchCores (lines : List RgLine) : List (ℕ × ℕ × List Char) :=
  lines.filterMap fun line => line.start.map fun start => (line.index + 1, start + 1, line.text)

def Hit.rgCore (hit : Hit) : ℕ × ℕ × List Char :=
  (hit.index + 1, (encodeChars hit.front).length + 1, hit.text)

theorem matchCores_printedLines :
    matchCores (printedLines fold req content) =
      ((rgHits fold req content).take req.maxMatchesPerFile).map Hit.rgCore := by
  rw [matchCores, printedLines, List.filterMap_filterMap, List.map_take, rgHits,
    List.map_filterMap]
  have taken := filterMap_mem_take (fun raw => exec fold req (lineContent raw))
    (fun raw i front => Hit.rgCore ⟨i, stripTrailingNewline raw, front⟩) (rgLines content) 0
    req.maxMatchesPerFile
  refine Eq.trans (List.filterMap_congr fun line _ => ?_) (taken.trans ?_)
  · rw [role, ← reported]
    split
    case isTrue =>
      cases exec fold req (lineContent line.1) <;> rfl
    case isFalse =>
      split <;> rfl
  · refine congrArg _ (List.filterMap_congr fun line _ => ?_)
    rw [Option.map_map]
    rfl

end KimiCli.Grep
