import KimiCli.Js.Json
import KimiCli.Js.Utf8

/-!
# Reading `wire.jsonl`

`FileSystemAgentRecordPersistence.read` (`agent/records/persistence.ts`) after its `flush()`: the
file arrives in chunks of bytes, cut anywhere; complete lines are parsed as they come, and the rest
of the text when the stream ends.  `JSON.parse` is a parameter, which gives the record or the
message of the error it throws.
-/

namespace KimiCli

/-- An entry of the log, an object with these members. -/
structure AgentRecord where
  members : List (String × Json)

namespace AgentRecord

def toJson (record : AgentRecord) : Json := .object record.members

/-- `JSON.stringify(record)`. -/
def stringify (record : AgentRecord) : String := record.toJson.stringify

end AgentRecord

def parseRecordLine (parse : String → Except String AgentRecord) (line : List Char)
    (lineNumber : ℕ) (filePath : String) (allowTruncated : Bool) :
    Except String (Option AgentRecord) :=
  if line.length = 0 then .ok none
  else
    match parse (String.ofList line) with
    | .ok record => .ok (some record)
    | .error parseError =>
      if allowTruncated then .ok none
      else .error s!"wire.jsonl: corrupted line {lineNumber} in {filePath}: {parseError}"

/-- The lines of a text that end with a line break, and what follows the last one. -/
def splitLines : List Char → List (List Char) × List Char
  | [] => ([], [])
  | c :: cs =>
    if c = '\n' then ([] :: (splitLines cs).1, (splitLines cs).2)
    else
      match splitLines cs with
      | ([], rest) => ([], c :: rest)
      | (line :: lines, rest) => ((c :: line) :: lines, rest)

/-- What `read` has made of the lines so far. -/
structure LineReader where
  lineNumber : ℕ := 0
  yielded : List AgentRecord := []
  thrown : Option String := none

/-- The local variables of `read`. -/
structure WireReader where
  line : List Char := []
  decoder : Utf8Decoder := {}
  lines : LineReader := {}

section

variable (parse : String → Except String AgentRecord) (filePath : String)

/-- The outcome of `parseRecordLine` for the next line. -/
def LineReader.take (s : LineReader) (line : List Char) (allowTruncated : Bool) : LineReader :=
  let s := { s with lineNumber := s.lineNumber + 1 }
  match parseRecordLine parse line s.lineNumber filePath allowTruncated with
  | .ok (some record) => { s with yielded := s.yielded ++ [record] }
  | .ok none => s
  | .error error => { s with thrown := some error }

/-- `rawLine.endsWith('\r') ? rawLine.slice(0, -1) : rawLine`. -/
def withoutReturn (rawLine : List Char) : List Char :=
  if rawLine.getLast? = some '\r' then rawLine.dropLast else rawLine

/-- One turn of the inner loop, which an error ends. -/
def LineReader.takeLine (s : LineReader) (rawLine : List Char) : LineReader :=
  if s.thrown.isSome then s else s.take parse filePath (withoutReturn rawLine) false

namespace WireReader

/-- A chunk of the stream. -/
def readChunk (s : WireReader) (chunk : Bytes) : WireReader :=
  if s.lines.thrown.isSome then s
  else
    let (decoder, text) := s.decoder.write chunk
    let (lines, rest) := splitLines (s.line ++ text)
    { line := rest, decoder, lines := lines.foldl (·.takeLine parse filePath ·) s.lines }

/-- The end of the stream, where the decoder gives out an unfinished character. -/
def readEnd (s : WireReader) : LineReader :=
  if s.lines.thrown.isSome then s.lines
  else
    let line := s.line ++ s.decoder.finish
    if line.length > 0 then s.lines.take parse filePath line true else s.lines

/-- The records that `read()` yields from the chunks of the file, and the error it throws then. -/
def read (chunks : List Bytes) : List AgentRecord × Option String :=
  let lines := (chunks.foldl (readChunk parse filePath) {}).readEnd parse filePath
  (lines.yielded, lines.thrown)

end WireReader

end

/-! ## Lines -/

theorem splitLines_append (as bs : List Char) : splitLines (as ++ bs) =
    ((splitLines as).1 ++ (splitLines ((splitLines as).2 ++ bs)).1,
      (splitLines ((splitLines as).2 ++ bs)).2) := by
  induction as with
  | nil => rfl
  | cons c as ih =>
    rw [List.cons_append, splitLines, splitLines]
    by_cases newline : c = '\n'
    · rw [if_pos newline, if_pos newline, ih]
      rfl
    · rw [if_neg newline, if_neg newline, ih]
      rcases splitLines as with ⟨_ | ⟨line, lines⟩, rest⟩
      · rw [List.cons_append, splitLines, if_neg newline]
        rfl
      · rfl

theorem splitLines_of_not_mem {cs : List Char} (unbroken : '\n' ∉ cs) :
    splitLines cs = ([], cs) := by
  induction cs with
  | nil => rfl
  | cons c cs ih =>
    obtain ⟨other, rest⟩ := not_or.1 (mt List.mem_cons.2 unbroken)
    rw [splitLines, if_neg (Ne.symm other), ih rest]

theorem splitLines_line {cs : List Char} (unbroken : '\n' ∉ cs) (ds : List Char) :
    splitLines (cs ++ '\n' :: ds) = (cs :: (splitLines ds).1, (splitLines ds).2) := by
  induction cs with
  | nil => rfl
  | cons c cs ih =>
    obtain ⟨other, rest⟩ := not_or.1 (mt List.mem_cons.2 unbroken)
    rw [List.cons_append, splitLines, if_neg (Ne.symm other), ih rest]

theorem not_mem_splitLines (cs : List Char) : '\n' ∉ (splitLines cs).2 := by
  induction cs with
  | nil => simp [splitLines]
  | cons c cs ih =>
    rw [splitLines]
    split
    · exact ih
    · next other =>
      rcases h : splitLines cs with ⟨_ | ⟨line, lines⟩, rest⟩
      · rw [h] at ih
        simp only [List.mem_cons, not_or]
        exact ⟨Ne.symm other, ih⟩
      · rw [h] at ih
        exact ih

/-! ## Chunks -/

variable {parse : String → Except String AgentRecord} {filePath : String}

theorem LineReader.foldl_of_thrown {s : LineReader} (failed : s.thrown.isSome = true)
    (lines : List (List Char)) : lines.foldl (·.takeLine parse filePath ·) s = s := by
  induction lines with
  | nil => rfl
  | cons line lines ih => rw [List.foldl_cons, takeLine, if_pos failed, ih]

namespace WireReader

variable {s : WireReader}

theorem foldl_of_thrown (failed : s.lines.thrown.isSome = true) (chunks : List Bytes) :
    chunks.foldl (readChunk parse filePath) s = s := by
  induction chunks with
  | nil => rfl
  | cons chunk chunks ih => rw [List.foldl_cons, readChunk, if_pos failed, ih]

theorem readChunk_eq (running : s.lines.thrown.isSome = false) (chunk : Bytes) :
    s.readChunk parse filePath chunk =
      { line := (splitLines (s.line ++ (s.decoder.write chunk).2)).2
        decoder := (s.decoder.write chunk).1
        lines := (splitLines (s.line ++ (s.decoder.write chunk).2)).1.foldl
          (·.takeLine parse filePath ·) s.lines } := by
  rw [readChunk, if_neg (by simp [running])]

theorem lines_readChunk_append (running : s.lines.thrown.isSome = false) (as bs : Bytes) :
    (s.readChunk parse filePath (as ++ bs)).lines =
      (splitLines ((s.readChunk parse filePath as).line ++
        ((s.readChunk parse filePath as).decoder.write bs).2)).1.foldl (·.takeLine parse filePath ·)
          (s.readChunk parse filePath as).lines := by
  simp only [readChunk_eq running]
  rw [Utf8Decoder.write_append, ← List.append_assoc, splitLines_append, List.foldl_append]

theorem readChunk_append (running : s.lines.thrown.isSome = false) (as bs : Bytes)
    (goes : (s.readChunk parse filePath as).lines.thrown.isSome = false) :
    (s.readChunk parse filePath as).readChunk parse filePath bs =
      s.readChunk parse filePath (as ++ bs) := by
  rw [readChunk_eq goes, ← lines_readChunk_append running]
  simp only [readChunk_eq running]
  rw [Utf8Decoder.write_append, ← List.append_assoc,
    splitLines_append (s.line ++ (s.decoder.write as).2)]

theorem foldl_readChunk (running : s.lines.thrown.isSome = false) (unbroken : '\n' ∉ s.line)
    (chunks : List Bytes) :
    chunks.foldl (readChunk parse filePath) s = s.readChunk parse filePath chunks.flatten ∨
      (chunks.foldl (readChunk parse filePath) s).lines.thrown.isSome = true ∧
        (chunks.foldl (readChunk parse filePath) s).lines =
          (s.readChunk parse filePath chunks.flatten).lines := by
  induction chunks generalizing s with
  | nil =>
    left
    rw [List.flatten_nil, readChunk_eq running, Utf8Decoder.write_nil, List.append_nil,
      splitLines_of_not_mem unbroken]
    rfl
  | cons chunk chunks ih =>
    rw [List.foldl_cons, List.flatten_cons]
    cases goes : (s.readChunk parse filePath chunk).lines.thrown.isSome with
    | true =>
      rw [foldl_of_thrown goes, lines_readChunk_append running, LineReader.foldl_of_thrown goes]
      exact .inr ⟨goes, rfl⟩
    | false =>
      rw [← readChunk_append running chunk chunks.flatten goes]
      refine ih goes ?_
      rw [readChunk_eq running]
      exact not_mem_splitLines _

/-- `read()` sees the text of the file only. -/
theorem read_eq (chunks : List Bytes) : read parse filePath chunks =
    read parse filePath [chunks.flatten] := by
  have single : ([chunks.flatten].foldl (readChunk parse filePath) {} : WireReader) =
      readChunk parse filePath {} chunks.flatten := rfl
  unfold read
  rw [single]
  obtain same | ⟨failed, same⟩ :
      chunks.foldl (readChunk parse filePath) {} = readChunk parse filePath {} chunks.flatten ∨
        (chunks.foldl (readChunk parse filePath) {}).lines.thrown.isSome = true ∧
          (chunks.foldl (readChunk parse filePath) {}).lines =
            (readChunk parse filePath {} chunks.flatten).lines :=
    foldl_readChunk rfl (by simp) chunks
  · rw [same]
  · have failed' := same ▸ failed
    rw [readEnd, readEnd, if_pos failed, if_pos failed', same]

end WireReader

end KimiCli
