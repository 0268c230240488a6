import KimiCli.Js.JsonScan
import KimiCli.Records.Read
import KimiCli.Records.WriteOrder

/-!
# The record log after a crash

A crash leaves any part of what was to be written.  `read()` tolerates a torn last line, but
`append` goes on behind it: the log survives exactly if the file is empty or ends with a line break,
or if nothing is appended any more.
-/

namespace KimiCli

/-- The lines of an agent's log. -/
def wireFormat (offload : Option (AgentRecord → AgentRecord)) : WireFormat AgentRecord where
  offload
  stringify := AgentRecord.stringify

/-- What the log relies on `JSON.parse` for: it gives back the records that were written, and it
takes no text that leaves a bracket or a quote open, or that goes on behind its outermost
bracket. -/
structure ParsesRecords (parse : String → Except String AgentRecord)
    (records : List AgentRecord) : Prop where
  roundTrip : ∀ record ∈ records, parse record.stringify = .ok record
  complete : ∀ text record, parse text = .ok record →
    (Scan.run (.value 0) text.toList).isComplete = true

/-- The records whose text is complete in the first `length` bytes of the log. -/
def survivors (length : ℕ) : List AgentRecord → List AgentRecord
  | [] => []
  | record :: records =>
    let text := encodeUtf8 record.stringify
    if text.length ≤ length then record :: survivors (length - (text.length + 1)) records else []

/-- The text of a log. -/
def logText (records : List AgentRecord) : List Char :=
  records.flatMap fun record => record.toJson.render ++ ['\n']

theorem lines_wireFormat (offload : Option (AgentRecord → AgentRecord))
    (records : List AgentRecord) : (wireFormat offload).lines records =
      encodeChars (logText (records.map (wireFormat offload).writable)) := by
  induction records with
  | nil => rfl
  | cons record records ih =>
    rw [WireFormat.lines, List.flatMap_cons, ← WireFormat.lines, ih, WireFormat.line]
    simp [logText, encodeUtf8, wireFormat, AgentRecord.stringify, Json.stringify]

theorem splitLines_logText (records : List AgentRecord) :
    splitLines (logText records) = (records.map (·.toJson.render), []) := by
  induction records with
  | nil => rfl
  | cons record records ih =>
    have unbroken := Scan.newline_not_mem_render record.toJson
    rw [logText, List.flatMap_cons, List.append_assoc, List.singleton_append,
      splitLines_line unbroken, ← logText, ih]
    rfl

/-! ## Reading complete lines -/

section

variable {parse : String → Except String AgentRecord} {filePath : String}
  {records : List AgentRecord} {record : AgentRecord} {s : LineReader}

theorem render_ne_nil (record : AgentRecord) : record.toJson.render ≠ [] := by
  simp [AgentRecord.toJson, Json.render]

theorem withoutReturn_render (cs : List Char) (record : AgentRecord) :
    withoutReturn (cs ++ record.toJson.render) = cs ++ record.toJson.render := by
  unfold withoutReturn
  rw [if_neg]
  simp [AgentRecord.toJson, Json.render, List.getLast?_append, List.getLast?_cons]

theorem LineReader.take_record (parses : parse record.stringify = .ok record)
    (allowTruncated : Bool) : s.take parse filePath record.toJson.render allowTruncated =
      { s with lineNumber := s.lineNumber + 1, yielded := s.yielded ++ [record] } := by
  have some : record.toJson.render.length ≠ 0 := by
    rw [Ne, List.length_eq_zero_iff]
    exact render_ne_nil record
  have parsed : parse (String.ofList record.toJson.render) = .ok record := parses
  rw [take, parseRecordLine, if_neg some, parsed]

theorem LineReader.takeLine_records
    (parses : ∀ record ∈ records, parse record.stringify = .ok record)
    (running : s.thrown = none) :
    (records.map (·.toJson.render)).foldl (·.takeLine parse filePath ·) s =
      { lineNumber := s.lineNumber + records.length, yielded := s.yielded ++ records } := by
  induction records generalizing s with
  | nil => simp [← running]
  | cons record records ih =>
    have line := withoutReturn_render [] record
    rw [List.nil_append] at line
    rw [List.map_cons, List.foldl_cons, takeLine, if_neg (by simp [running]), line,
      take_record (parses record (List.mem_cons_self ..))]
    have rest := ih (s := { s with
        lineNumber := s.lineNumber + 1
        yielded := s.yielded ++ [record] })
      (fun record mem => parses record (List.mem_cons_of_mem _ mem)) running
    refine rest.trans ?_
    simp [Nat.add_assoc, Nat.add_comm 1]

theorem WireReader.readChunk_log (filePath : String)
    (parses : ∀ record ∈ records, parse record.stringify = .ok record) :
    WireReader.readChunk parse filePath {} (encodeChars (logText records)) =
      { lines := { lineNumber := records.length, yielded := records } } := by
  rw [readChunk_eq rfl, Utf8Decoder.write_encodeChars]
  rw [List.nil_append, splitLines_logText, LineReader.takeLine_records parses rfl]
  simp

theorem WireReader.read_log (parses : ∀ record ∈ records, parse record.stringify = .ok record)
    (tail : Bytes) : WireReader.read parse filePath [encodeChars (logText records) ++ tail] =
      let lines := (WireReader.readChunk parse filePath
        { lines := { lineNumber := records.length, yielded := records } } tail).readEnd parse
          filePath
      (lines.yielded, lines.thrown) := by
  have log := readChunk_log filePath parses
  unfold read
  rw [List.foldl_cons, List.foldl_nil, ← readChunk_append rfl _ _ (by rw [log]; rfl), log]

/-! ## Reading a torn line -/

theorem LineReader.take_incomplete (filePath : String) (s : LineReader)
    (parser : ParsesRecords parse records) {line : List Char} (nonempty : line ≠ [])
    (incomplete : (Scan.run (.value 0) line).isComplete = false) :
    s.take parse filePath line true = { s with lineNumber := s.lineNumber + 1 } ∧
      (s.take parse filePath line false).thrown.isSome = true := by
  have length : line.length ≠ 0 := by rwa [Ne, List.length_eq_zero_iff]
  rw [take, take, parseRecordLine, parseRecordLine, if_neg length, if_neg length]
  cases parsed : parse (String.ofList line) with
  | ok =>
    have complete := parser.complete _ _ parsed
    rw [String.toList_ofList, incomplete] at complete
    cases complete
  | error => exact ⟨rfl, rfl⟩

/-- What the decoder has of a record whose bytes are cut at `part`, and what it still holds back. -/
structure Torn (record : AgentRecord) (whole : List Char) (d : Utf8Decoder) : Prop where
  nonempty : whole ≠ []
  unbroken : '\n' ∉ whole ++ d.finish
  lower : 0x80 ≤ d.lower

theorem newline_not_mem_finish (d : Utf8Decoder) : '\n' ∉ d.finish := by
  unfold Utf8Decoder.finish
  split
  · simp
  · decide

theorem open_replacement {u : Scan} (d : Utf8Decoder) (h : u.isOpen = true) :
    (u.run d.finish).isOpen = true := by
  unfold Utf8Decoder.finish
  split
  · exact h
  · cases u with
    | value => exact h
    | text => exact h
    | escape => exact h
    | closed | broken => cases h

theorem encodeChars_render (record : AgentRecord) :
    ∃ more, record.toJson.render = '{' :: more ∧
      encodeChars record.toJson.render = 123 :: encodeChars more := ⟨_, rfl, rfl⟩

theorem torn_write {part missing : Bytes} (nonempty : part ≠ [])
    (cut : encodeChars record.toJson.render = part ++ missing) :
    ∃ d whole, Utf8Decoder.write {} part = (d, whole) ∧ Torn record whole d ∧
      (missing ≠ [] ∧ ((Scan.value 0).run (whole ++ d.finish)).isOpen = true ∨
        missing = [] ∧ d = {} ∧ whole = record.toJson.render) := by
  obtain ⟨whole, rest, eq, d, written, stands⟩ := Utf8Decoder.write_cut _ cut
  have some : whole ≠ [] := by
    obtain ⟨more, _, bytes⟩ := encodeChars_render record
    rw [bytes] at cut
    rcases part with _ | ⟨byte, part⟩
    · exact absurd rfl nonempty
    · obtain ⟨rfl, _⟩ := List.cons.inj cut
      rw [Utf8Decoder.write_cons, Utf8Decoder.push_ascii {} (by decide) (by decide)] at written
      rw [← (Prod.mk.inj written).2]
      simp [Utf8Decoder.finish]
  have unbroken : '\n' ∉ whole ++ d.finish := by
    intro mem
    rcases List.mem_append.1 mem with mem | mem
    · exact Scan.newline_not_mem_render record.toJson (eq ▸ List.mem_append_left _ mem)
    · exact newline_not_mem_finish d mem
  have lower : 0x80 ≤ d.lower := by
    rcases stands with ⟨_, rfl⟩ | ⟨_, inside⟩
    · decide
    · exact inside.lower
  refine ⟨d, whole, written, ⟨some, unbroken, lower⟩, ?_⟩
  by_cases all : missing = []
  · refine .inr ⟨all, ?_⟩
    rw [all, List.append_nil] at cut
    rw [← cut, Utf8Decoder.write_encodeChars] at written
    exact ⟨(Prod.mk.inj written).1.symm, (Prod.mk.inj written).2.symm⟩
  · refine .inl ⟨all, ?_⟩
    have more : rest ≠ [] := by
      rintro rfl
      rcases stands with ⟨bytes, _⟩ | ⟨more, _⟩
      · rw [eq, List.append_nil, bytes] at cut
        exact all (List.append_cancel_left (cut.symm.trans (List.append_nil _).symm))
      · exact more rfl
    rw [Scan.run_append]
    exact open_replacement d (Scan.open_of_part eq some more)

/-- At the end of the file a torn record is passed over, and one that only misses its line break is
read. -/
theorem WireReader.readEnd_torn (filePath : String) (parser : ParsesRecords parse records)
    (running : s.thrown = none)
    {part missing : Bytes} (nonempty : part ≠ [])
    (cut : encodeChars record.toJson.render = part ++ missing) :
    (missing ≠ [] →
      (WireReader.readChunk parse filePath { lines := s } part).readEnd parse filePath =
        { s with lineNumber := s.lineNumber + 1 }) ∧
    (missing = [] → parse record.stringify = .ok record →
      (WireReader.readChunk parse filePath { lines := s } part).readEnd parse filePath =
        { s with lineNumber := s.lineNumber + 1, yielded := s.yielded ++ [record] }) := by
  obtain ⟨d, whole, written, torn, stands⟩ := torn_write nonempty cut
  have unbroken : '\n' ∉ whole := fun mem => torn.unbroken (List.mem_append_left _ mem)
  have line : whole ++ d.finish ≠ [] := by simp [torn.nonempty]
  have length : (whole ++ d.finish).length > 0 := List.length_pos_iff.2 line
  have read : (WireReader.readChunk parse filePath { lines := s } part).readEnd parse filePath =
      s.take parse filePath (whole ++ d.finish) true := by
    rw [readChunk_eq (by simp [running]), written]
    rw [List.nil_append, splitLines_of_not_mem unbroken, readEnd, List.foldl_nil,
      if_neg (by simp [running]), if_pos length]
  rw [read]
  rcases stands with ⟨more, opened⟩ | ⟨none, rfl, rfl⟩
  · refine ⟨fun _ => ?_, fun none => absurd none more⟩
    exact (LineReader.take_incomplete filePath s parser line (Scan.not_complete_of_open opened)).1
  · refine ⟨fun more => absurd none more, fun _ parses => ?_⟩
    exact (congrArg (fun line => s.take parse filePath line true) (List.append_nil _)).trans
      (LineReader.take_record parses true)

theorem WireReader.readChunk_appended (filePath : String) (parser : ParsesRecords parse records)
    (running : s.thrown = none) {part missing : Bytes} (nonempty : part ≠ [])
    (cut : encodeChars record.toJson.render = part ++ missing) (next : AgentRecord)
    (appended : List AgentRecord) :
    (WireReader.readChunk parse filePath { lines := s }
      (part ++ encodeChars (logText (next :: appended)))).lines.thrown.isSome = true := by
  obtain ⟨d, whole, written, torn, stands⟩ := torn_write nonempty cut
  obtain ⟨more, render, bytes⟩ := encodeChars_render next
  have text : logText (next :: appended) = next.toJson.render ++ '\n' :: logText appended := by
    rw [logText, List.flatMap_cons, List.append_assoc, List.singleton_append]
    rfl
  have after : d.write (encodeChars (logText (next :: appended))) =
      ({}, d.finish ++ logText (next :: appended)) := by
    rw [text, render, List.cons_append, encodeChars_cons, encodeChar_of_ascii (by decide),
      List.singleton_append, Utf8Decoder.write_cons,
      Utf8Decoder.push_ascii d (by decide) torn.lower,
      Utf8Decoder.write_encodeChars, List.append_assoc]
    rfl
  have line : '\n' ∉ whole ++ d.finish ++ next.toJson.render := by
    intro mem
    rcases List.mem_append.1 mem with mem | mem
    · exact torn.unbroken mem
    · exact Scan.newline_not_mem_render _ mem
  have incomplete :
      ((Scan.value 0).run (whole ++ d.finish ++ next.toJson.render)).isComplete = false := by
    rw [Scan.run_append]
    refine Scan.not_complete_of_object _ ?_
    rcases stands with ⟨_, opened⟩ | ⟨_, rfl, rfl⟩
    · exact .inl opened
    · exact .inr ((congrArg _ (List.append_nil _)).trans (Scan.run_object record.members))
  have failed := (LineReader.take_incomplete filePath s parser
    (by simp [torn.nonempty]) incomplete).2
  rw [readChunk_eq (by simp [running]), Utf8Decoder.write_append, written]
  dsimp only
  rw [after, List.nil_append, text, ← List.append_assoc, ← List.append_assoc, splitLines_line line,
    List.foldl_cons, LineReader.takeLine, if_neg (by simp [running]), withoutReturn_render]
  rw [LineReader.foldl_of_thrown failed]
  exact failed

/-! ## What a crash leaves -/

theorem length_text (record : AgentRecord) :
    (encodeUtf8 record.stringify).length = (encodeChars record.toJson.render).length := by
  rw [encodeUtf8, AgentRecord.stringify, Json.stringify, String.toList_ofList]

theorem survivors_zero (records : List AgentRecord) : survivors 0 records = [] := by
  cases records with
  | nil => rfl
  | cons record =>
    obtain ⟨_, _, bytes⟩ := encodeChars_render record
    rw [survivors, if_neg]
    rw [length_text, bytes]
    simp

theorem survivors_cons (record : AgentRecord) (records : List AgentRecord) (more : ℕ) :
    survivors ((encodeChars record.toJson.render).length + 1 + more) (record :: records) =
      record :: survivors more records := by
  rw [survivors, length_text, if_pos (by omega), Nat.add_sub_cancel_left]

theorem cut_log (records : List AgentRecord) {p q : Bytes}
    (cut : encodeChars (logText records) = p ++ q) :
    ∃ kept rest part, records = kept ++ rest ∧ p = encodeChars (logText kept) ++ part ∧
      (part = [] ∧ survivors p.length records = kept ∨
        ∃ record rest' missing, rest = record :: rest' ∧ part ≠ [] ∧
          encodeChars record.toJson.render = part ++ missing ∧
          survivors p.length records = if missing = [] then kept ++ [record] else kept) := by
  induction records generalizing p with
  | nil =>
    rw [logText, List.flatMap_nil, encodeChars_nil] at cut
    obtain ⟨rfl, rfl⟩ := List.append_eq_nil_iff.1 cut.symm
    exact ⟨[], [], [], rfl, rfl, .inl ⟨rfl, rfl⟩⟩
  | cons record records ih =>
    have whole (ws : List AgentRecord) : encodeChars (logText (record :: ws)) =
        encodeChars record.toJson.render ++ [10] ++ encodeChars (logText ws) := by
      rw [logText, List.flatMap_cons, ← logText, encodeChars_append, encodeChars_append]
      rfl
    rw [whole] at cut
    rcases List.append_eq_append_iff.1 cut with ⟨p', rfl, inner⟩ | ⟨missing, eq, _⟩
    · obtain ⟨kept, rest, part, rfl, rfl, stands⟩ := ih inner
      refine ⟨record :: kept, rest, part, rfl, by rw [whole]; simp only [List.append_assoc], ?_⟩
      rw [List.length_append, List.length_append, List.length_singleton, survivors_cons]
      rcases stands with ⟨none, eq⟩ | ⟨next, rest', missing, more, some, torn, eq⟩
      · exact .inl ⟨none, congrArg _ eq⟩
      · refine .inr ⟨next, rest', missing, more, some, torn, ?_⟩
        rw [eq]
        split <;> rfl
    · by_cases empty : p = []
      · subst empty
        exact ⟨[], record :: records, [], rfl, rfl, .inl ⟨rfl, survivors_zero _⟩⟩
      · rcases List.eq_nil_or_concat missing with rfl | ⟨missing, newline, rfl⟩
        · rw [List.append_nil] at eq
          subst eq
          refine ⟨[record], records, [], rfl, by rw [whole]; simp [logText], .inl ⟨rfl, ?_⟩⟩
          rw [List.length_append, List.length_singleton, ← Nat.add_zero (_ + 1), survivors_cons,
            survivors_zero]
        · rw [List.concat_eq_append, ← List.append_assoc] at eq
          obtain ⟨torn, _⟩ := List.append_inj' eq rfl
          refine ⟨[], record :: records, p, rfl, rfl,
            .inr ⟨record, records, missing, rfl, empty, torn, ?_⟩⟩
          have length := congrArg List.length torn
          rw [List.length_append] at length
          rw [survivors, length_text]
          by_cases none : missing = []
          · rw [none, List.length_nil] at length
            rw [if_pos (by omega), if_pos none, Nat.sub_eq_zero_of_le (by omega), survivors_zero]
            rfl
          · have := List.length_pos_iff.2 none
            rw [if_neg (by omega), if_neg none]

theorem newline_not_mem_encodeChars {cs : List Char} (unbroken : '\n' ∉ cs) :
    10 ∉ encodeChars cs := by
  intro mem
  obtain ⟨c, inside, byte⟩ := List.mem_flatMap.1 mem
  have value : c.toNat = 10 := by
    unfold encodeChar at byte
    dsimp only at byte
    split_ifs at byte <;> simp only [List.mem_cons, List.not_mem_nil, or_false] at byte <;> omega
  have newline : c = '\n' := by
    rw [← Char.ofNat_toNat c, value]
  exact unbroken (newline ▸ inside)

/-- Where the bytes of a log may be cut so that records can be appended. -/
def EndsLine (p : Bytes) : Prop := ∀ byte, p.getLast? = some byte → byte = 10

theorem endsLine_log (records : List AgentRecord) : EndsLine (encodeChars (logText records)) := by
  intro byte last
  rcases List.eq_nil_or_concat records with rfl | ⟨records, record, rfl⟩
  · cases last
  · rw [List.concat_eq_append, logText, List.flatMap_append, ← logText, encodeChars_append,
      List.flatMap_singleton, encodeChars_append, ← List.append_assoc,
      show encodeChars ['\n'] = [10] from rfl, List.getLast?_concat] at last
    exact (Option.some.inj last).symm

theorem not_endsLine_of_torn (as : Bytes) {part missing : Bytes} (nonempty : part ≠ [])
    (cut : encodeChars record.toJson.render = part ++ missing) : ¬ EndsLine (as ++ part) := by
  intro ends
  obtain ⟨part, byte, rfl⟩ := (List.eq_nil_or_concat part).resolve_left nonempty
  rw [List.concat_eq_append] at cut ends
  have := ends byte (by rw [← List.append_assoc, List.getLast?_concat])
  subst this
  exact newline_not_mem_encodeChars (Scan.newline_not_mem_render record.toJson) (by simp [cut])

theorem read_complete (parses : ∀ record ∈ records, parse record.stringify = .ok record) :
    WireReader.read parse filePath [encodeChars (logText records)] = (records, none) := by
  rw [← List.append_nil (encodeChars _), WireReader.read_log parses]
  rw [WireReader.readChunk_eq rfl]
  rfl

/-- The log over any part of it and records appended behind that part. -/
theorem read_recovered {appended : List AgentRecord}
    (parser : ParsesRecords parse (records ++ appended)) {p q : Bytes}
    (cut : encodeChars (logText records) = p ++ q) :
    WireReader.read parse filePath [p ++ encodeChars (logText appended)] =
        (survivors p.length records ++ appended, none) ↔ EndsLine p ∨ appended = [] := by
  obtain ⟨kept, rest, part, rfl, rfl, stands⟩ := cut_log records cut
  rcases stands with ⟨rfl, eq⟩ | ⟨record, rest', missing, rfl, nonempty, torn, eq⟩
  · rw [eq, List.append_nil, ← encodeChars_append, logText, logText, ← List.flatMap_append,
      ← logText, read_complete fun record mem => parser.roundTrip record (by grind)]
    exact iff_of_true rfl (.inl (endsLine_log kept))
  · have parses : ∀ record ∈ kept, parse record.stringify = .ok record := fun record mem =>
      parser.roundTrip record (by simp [mem])
    have torn' := not_endsLine_of_torn (encodeChars (logText kept)) nonempty torn
    rw [eq, List.append_assoc, WireReader.read_log parses]
    rcases appended with _ | ⟨next, appended⟩
    · refine iff_of_true ?_ (.inr rfl)
      obtain ⟨short, complete⟩ := WireReader.readEnd_torn filePath
        (s := { lineNumber := kept.length, yielded := kept }) parser rfl nonempty torn
      rw [logText, List.flatMap_nil, encodeChars_nil, List.append_nil, List.append_nil]
      by_cases all : missing = []
      · rw [complete all (parser.roundTrip record (by simp)), if_pos all]
      · rw [short all, if_neg all]
    · refine iff_of_false (fun same => ?_) (by simp [torn'])
      have failed := WireReader.readChunk_appended filePath
        (s := { lineNumber := kept.length, yielded := kept }) parser rfl nonempty torn next appended
      have none := (Prod.mk.inj same).2
      rw [WireReader.readEnd, if_pos failed] at none
      rw [none] at failed
      cases failed

end

/-! ## The log across a restart -/

open FileSystemAgentRecordPersistence

/-- The records that are appended. -/
def appendedIn {R E : Type} (events : List (PersistenceEvent R E)) : List R :=
  events.filterMap fun event =>
    match event with
    | .append input => some input
    | _ => none

def PersistenceEvent.isRewrite {R E : Type} : PersistenceEvent R E → Bool
  | .rewrite _ => true
  | _ => false

theorem contentsAfter_of_append {R E : Type} {fmt : WireFormat R} (contents : Bytes)
    {events : List (PersistenceEvent R E)} (appends : ∀ event ∈ events, event.isRewrite = false) :
    contentsAfter fmt contents events = contents ++ fmt.lines (appendedIn events) := by
  induction events generalizing contents with
  | nil => simp [contentsAfter, appendedIn]
  | cons event events ih =>
    have rest := fun contents => ih contents fun event mem =>
      appends event (List.mem_cons_of_mem _ mem)
    have first := appends event (List.mem_cons_self ..)
    cases event with
    | rewrite => cases first
    | append => exact (rest _).trans (List.append_assoc ..)
    | _ => exact rest contents

/-- Let the log hold any part of the lines of `records`, and let further records be appended to it
and flushed.  What is read then is the records that are complete in that part and the appended
ones, without an error, exactly if the part ends with a line break or is empty, or nothing has been
appended. -/
theorem read_after_crash_iff {E : Type} (offload : Option (AgentRecord → AgentRecord))
    {parse : String → Except String AgentRecord} (filePath : String) {records : List AgentRecord}
    {p : Bytes} {events : List (PersistenceEvent AgentRecord E)}
    {t : FileSystemAgentRecordPersistence AgentRecord E} {chunks : List Bytes}
    (parser : ParsesRecords parse
      ((records ++ appendedIn events).map (wireFormat offload).writable))
    (crash : p <+: (wireFormat offload).lines records)
    (run : FlushedRun (wireFormat offload) (some p) events t)
    (appends : ∀ event ∈ events, event.isRewrite = false) (stream : chunks.flatten = t.contents) :
    WireReader.read parse filePath chunks =
        (survivors p.length (records.map (wireFormat offload).writable) ++
          (appendedIn events).map (wireFormat offload).writable, none) ↔
      EndsLine p ∨ appendedIn events = [] := by
  obtain ⟨q, cut⟩ := crash
  rw [lines_wireFormat] at cut
  have contents : chunks.flatten =
      p ++ encodeChars (logText ((appendedIn events).map (wireFormat offload).writable)) := by
    rw [stream, contents_of_flushed run, contentsAfter_of_append _ appends, lines_wireFormat]
    rfl
  rw [WireReader.read_eq, contents]
  rw [List.map_append] at parser
  rw [read_recovered parser cut.symm, List.map_eq_nil_iff]

/-- A small record. -/
def prompt : AgentRecord := ⟨[("type", .string "turn.prompt")]⟩

/-- `JSON.parse` on the lines below. -/
def parsePrompt (text : String) : Except String AgentRecord :=
  if text.toList = prompt.toJson.render then .ok prompt else .error "SyntaxError"

theorem parsePrompt_parses : ParsesRecords parsePrompt [prompt, prompt] where
  roundTrip record mem := by
    obtain rfl : record = prompt := by simpa using mem
    simp [parsePrompt, AgentRecord.stringify, Json.stringify]
  complete text record parsed := by
    unfold parsePrompt at parsed
    split at parsed
    case isTrue eq =>
      rw [eq, AgentRecord.toJson, Scan.run_object]
      rfl
    case isFalse => cases parsed

/-- One record is appended, written and flushed. -/
def appendPrompt : List (PersistenceEvent AgentRecord String) :=
  .append prompt :: List.replicate 9 (.drain 0 none 0) ++ [.flush]

/-- Behind a complete line the log goes on. -/
theorem read_whole_log :
    ∃ t, FlushedRun (wireFormat none) (some ((wireFormat none).line prompt))
        appendPrompt t ∧
      WireReader.read parsePrompt "wire.jsonl" [t.contents] = ([prompt, prompt], none) := by
  obtain ⟨t, run⟩ : ∃ t, FlushedRun (wireFormat none) (some ((wireFormat none).line prompt))
      appendPrompt t := FlushedRun.of_exec (by decide)
  have crash : (wireFormat none).line prompt <+: (wireFormat none).lines [prompt] :=
    ⟨[], by simp [WireFormat.lines]⟩
  have ends : EndsLine ((wireFormat none).line prompt) := by
    intro byte last
    rw [show ((wireFormat none).line prompt).getLast? = some 10 by decide] at last
    exact (Option.some.inj last).symm
  have parser : ParsesRecords parsePrompt
      (([prompt] ++ appendedIn appendPrompt).map (wireFormat none).writable) :=
    parsePrompt_parses
  have stream : [t.contents].flatten = t.contents := by simp
  have recovered := read_after_crash_iff none "wire.jsonl" parser crash run (by decide) stream
  exact ⟨t, run, recovered.2 (.inl ends)⟩

/-- Behind a torn line it does not: the next restart cannot read it. -/
theorem read_torn_log :
    ∃ t, FlushedRun (wireFormat none) (some (((wireFormat none).line prompt).take 5))
        appendPrompt t ∧
      (WireReader.read parsePrompt "wire.jsonl" [t.contents]).2.isSome = true := by
  obtain ⟨t, run⟩ : ∃ t, FlushedRun (wireFormat none)
      (some (((wireFormat none).line prompt).take 5)) appendPrompt t :=
    FlushedRun.of_exec (by decide)
  refine ⟨t, run, ?_⟩
  rw [contents_of_flushed run]
  decide

end KimiCli
