import KimiCli.Gateway.Journal
import KimiCli.Records.Recovery

/-!
# The bytes of a session event journal

`services/gateway/sessionEventJournal.ts` down to its file: the text of a line, what
`parseJournalLine` and `readLines` make of the bytes, and a machine that opens the journal, appends
to it, flushes it, closes it and crashes while `appendFile` is writing.  `JSON.parse` is a
parameter.  The value type of the envelopes is `Json`.
-/

namespace KimiCli

namespace NumberToken

theorem toDigits_isNumberChar (n : ℕ) : ∀ c ∈ Nat.toDigits 10 n, isNumberChar c = true :=
  fun c mem => by
    simp [isNumberChar, Nat.isDigit_of_mem_toDigits (b := 10) (by decide) (by decide) mem]

/-- How a natural number is printed. -/
def ofNat (n : ℕ) : NumberToken := ⟨Nat.toDigits 10 n, toDigits_isNumberChar n⟩

/-- The integer that a token without a sign, a fraction or an exponent stands for. -/
def toNat? (token : NumberToken) : Option ℕ :=
  if token.chars ≠ [] ∧ token.chars.all Char.isDigit then some (Nat.ofDigitChars 10 token.chars 0)
  else none

theorem toNat?_ofNat (n : ℕ) : (ofNat n).toNat? = some n := by
  have digits : (ofNat n).chars.all Char.isDigit = true := by
    refine List.all_eq_true.2 fun c mem => ?_
    exact Nat.isDigit_of_mem_toDigits (b := 10) (by decide) (by decide) mem
  rw [toNat?, if_pos ⟨Nat.toDigits_ne_nil, digits⟩]
  exact congrArg some Nat.ofDigitChars_ten_toDigits

end NumberToken

def JOURNAL_VERSION : ℕ := 1

namespace JournalLine

/-- The members of a line, with the `created_at` of a header. -/
def members (createdAt : NumberToken) : JournalLine Json → List (String × Json)
  | .header epoch =>
    [("kind", .string "journal_header"), ("version", .number (.ofNat JOURNAL_VERSION)),
      ("epoch", .string epoch), ("created_at", .number createdAt)]
  | .event seq envelope =>
    [("kind", .string "event"), ("seq", .number (.ofNat seq)), ("envelope", envelope)]

/-- What is written for a line, an object like those of a record log. -/
def record (createdAt : NumberToken) (line : JournalLine Json) : AgentRecord :=
  ⟨line.members createdAt⟩

end JournalLine

section

variable (parse : String → Option Json)

def parseJournalLine (raw : List Char) : Option (JournalLine Json) :=
  let trimmed := withoutReturn raw
  if trimmed.length = 0 then none
  else
    match parse (String.ofList trimmed) with
    | none => none
    | some value =>
      match value.property "kind" with
      | some (.string kind) =>
        if kind = "journal_header" then
          match value.property "epoch" with
          | some (.string epoch) => if epoch.length = 0 then none else some (.header epoch)
          | _ => none
        else if kind = "event" then
          match value.property "seq", value.property "envelope" with
          | some (.number token), some envelope =>
            match token.toNat? with
            | some seq => if seq = 0 ∨ !envelope.isObject then none else some (.event seq envelope)
            | none => none
          | _, _ => none
        else none
      | _ => none

/-- The local variables of `readLines`, with the lines it has yielded. -/
structure LineStream where
  buffered : List Char := []
  decoder : Utf8Decoder := {}
  yielded : List (List Char) := []

/-- A chunk of the stream. -/
def LineStream.push (s : LineStream) (chunk : Bytes) : LineStream :=
  let (decoder, text) := s.decoder.write chunk
  let (lines, rest) := splitLines (s.buffered ++ text)
  { buffered := rest, decoder, yielded := s.yielded ++ lines }

/-- The lines of a file that arrives in chunks. -/
def readLines (chunks : List Bytes) : List (List Char) :=
  let s := chunks.foldl LineStream.push {}
  let buffered := s.buffered ++ s.decoder.finish
  if buffered.length > 0 then s.yielded ++ [buffered] else s.yielded

/-- The lines that `parseJournalLine` accepts. -/
def journalLines (chunks : List Bytes) : List (JournalLine Json) :=
  (readLines chunks).filterMap (parseJournalLine parse)

end

/-! ## The machine -/

/-- A journal and its file. -/
structure JournalStore where
  file : Bytes := []
  journal : Option (SessionEventJournal Json) := none
  /-- The `created_at` of the header that the open journal may write. -/
  createdAt : NumberToken := .ofNat 0
  /-- The records of all the lines handed to `appendFile`. -/
  written : List AgentRecord := []
  /-- The events whose lines have reached the file complete, with their epochs. -/
  stored : List (Epoch × JournalEntry Json) := []

inductive JournalEvent
  /-- The file is read in chunks; `ulid` is the one of a new epoch. -/
  | open (chunks : List Bytes) (ulid : String) (createdAt : NumberToken)
  /-- `nextSeq()` and `append()` with the members of the envelope built for that number. -/
  | append (envelope : List (String × Json))
  /-- The loop of `flush()` starts another flush. -/
  | flush
  /-- `appendFile` has succeeded. -/
  | written
  /-- `appendFile` has failed after `n` bytes. -/
  | failed (n : ℕ)
  /-- The `finally` handler of a flush runs. -/
  | finallyFlush
  | close
  /-- The process dies when `n` bytes of the running `appendFile` are in the file. -/
  | crash (n : ℕ)

namespace JournalStore

open SessionEventJournal

/-- The event of a line. -/
def entry? : JournalLine Json → Option (JournalEntry Json)
  | .header _ => none
  | .event seq envelope => some ⟨seq, envelope⟩

/-- The bytes that `appendFile` writes for a batch of lines. -/
def batch (s : JournalStore) (lines : List (JournalLine Json)) : Bytes :=
  encodeChars (logText (lines.map (·.record s.createdAt)))

/-- How many lines are complete in the first `n` bytes of a batch. -/
def complete (s : JournalStore) (lines : List (JournalLine Json)) (n : ℕ) : ℕ :=
  (survivors ((s.batch lines).take n).length (lines.map (·.record s.createdAt))).length

/-- The first `n` bytes of a batch reach the file. -/
def land (s : JournalStore) (epoch : Epoch) (lines : List (JournalLine Json)) (n : ℕ) :
    JournalStore :=
  { s with
    file := s.file ++ (s.batch lines).take n
    written := s.written ++ lines.map (·.record s.createdAt)
    stored := s.stored ++ ((lines.take (s.complete lines n)).filterMap entry?).map (epoch, ·) }

def step (parse : String → Option Json) (s : JournalStore) : JournalEvent → Option JournalStore
  | .open chunks ulid createdAt =>
    if s.journal.isNone ∧ chunks.flatten = s.file then
      some { s with journal := some (.open (journalLines parse chunks) ("ep_" ++ ulid)), createdAt }
    else none
  | .append envelope =>
    s.journal.map fun j =>
      let (j, seq) := j.nextSeq
      { s with journal := some (j.append seq (.object envelope)) }
  | .flush =>
    match s.journal with
    | some j =>
      if j.flushPromise.isNone ∧ j.pendingLines ≠ [] then
        some { s with journal := some j.flushOnce }
      else none
    | none => none
  | .written =>
    match s.journal with
    | some j =>
      match j.flushPromise with
      | some (.writing lines) =>
        some { s.land j.epoch lines (s.batch lines).length with
          journal := some { j with flushPromise := some .settled } }
      | _ => none
    | none => none
  | .failed n =>
    match s.journal with
    | some j =>
      match j.flushPromise with
      | some (.writing lines) =>
        some { s.land j.epoch lines n with
          journal := some { j with flushPromise := some .settled } }
      | _ => none
    | none => none
  | .finallyFlush =>
    match s.journal with
    | some j =>
      match j.flushPromise with
      | some .settled => some { s with journal := some { j with flushPromise := none } }
      | _ => none
    | none => none
  | .close =>
    match s.journal with
    | some j => if j.flushed then some { s with journal := none } else none
    | none => none
  | .crash n =>
    match s.journal with
    | some j => some { s.land j.epoch j.writing n with journal := none }
    | none => none

/-- The entries that the open journal has not yet written. -/
def queued (j : SessionEventJournal Json) : List (JournalEntry Json) :=
  (j.writing ++ j.pendingLines).filterMap entry?

/-- The events given a number, less those that a crash has kept from reaching the file. -/
def live (s : JournalStore) : List (Epoch × JournalEntry Json) :=
  s.stored ++ match s.journal with
    | some j => (queued j).map (j.epoch, ·)
    | none => []

/-- `readSince` behind its `flush()`, when `n` bytes of the next batch have reached the file. -/
def readSince (parse : String → Option Json) (fromSeqExclusive limit : ℕ) (chunks : List Bytes) :
    List (JournalEntry Json) :=
  JournalLine.since fromSeqExclusive limit (journalLines parse chunks)

/-- When a step is safe.  Nothing is appended behind a line that a crash has torn, and no write
fails. -/
def Whole (s : JournalStore) : JournalEvent → Prop
  | .append _ => EndsLine s.file
  | .failed _ => False
  | _ => True

end JournalStore

/-- What the journal relies on `JSON.parse` for: it gives back the lines that were written, and it
takes no text that leaves a bracket or a quote open. -/
structure ParsesLines (parse : String → Option Json) (records : List AgentRecord) : Prop where
  roundTrip : ∀ record ∈ records, parse record.stringify = some record.toJson
  complete : ∀ text value, parse text = some value →
    (Scan.run (.value 0) text.toList).isComplete = true

/-! ## Reading lines -/

theorem foldl_push (s : LineStream) (unbroken : '\n' ∉ s.buffered) (chunks : List Bytes) :
    chunks.foldl LineStream.push s = s.push chunks.flatten := by
  induction chunks generalizing s with
  | nil =>
    simp [LineStream.push, splitLines_of_not_mem unbroken]
  | cons chunk chunks ih =>
    rw [List.foldl_cons, ih _ (not_mem_splitLines _), List.flatten_cons]
    simp only [LineStream.push]
    rw [Utf8Decoder.write_append, ← List.append_assoc,
      splitLines_append (s.buffered ++ (s.decoder.write chunk).2), List.append_assoc]

/-- How the file is cut into chunks does not matter. -/
theorem readLines_eq (chunks : List Bytes) : readLines chunks = readLines [chunks.flatten] := by
  rw [readLines, readLines, foldl_push {} (by simp), foldl_push {} (by simp)]
  simp

theorem readLines_log (records : List AgentRecord) {part : Bytes} {d : Utf8Decoder}
    {whole : List Char} (written : Utf8Decoder.write {} part = (d, whole))
    (unbroken : '\n' ∉ whole) : readLines [encodeChars (logText records) ++ part] =
      records.map (·.toJson.render) ++
        if whole ++ d.finish = [] then [] else [whole ++ d.finish] := by
  have split : splitLines (logText records ++ whole) =
      (records.map (·.toJson.render), whole) := by
    rw [splitLines_append, splitLines_logText, List.nil_append, splitLines_of_not_mem unbroken,
      List.append_nil]
  have pushed : LineStream.push {} (encodeChars (logText records) ++ part) =
      { buffered := whole, decoder := d, yielded := records.map (·.toJson.render) } := by
    simp only [LineStream.push]
    rw [Utf8Decoder.write_append, Utf8Decoder.write_encodeChars]
    rw [written, List.nil_append, split]
    rfl
  rw [readLines, List.foldl_cons, List.foldl_nil, pushed]
  by_cases none : whole ++ d.finish = []
  · simp [none]
  · rw [if_pos (List.length_pos_iff.2 none), if_neg none]

/-! ## What the lines say -/

/-- What is true of every line that is written. -/
def JournalLine.Sound : JournalLine Json → Prop
  | .header epoch => epoch ≠ ""
  | .event seq envelope => 0 < seq ∧ envelope.isObject = true

section

variable {parse : String → Option Json} {records : List AgentRecord} {file part missing : Bytes}

/-- What is read where a record has been written. -/
def parseRecord (parse : String → Option Json) (record : AgentRecord) :
    Option (JournalLine Json) := parseJournalLine parse record.toJson.render

theorem parse_record {line : JournalLine Json} (sound : line.Sound) (createdAt : NumberToken)
    (reads : parse (line.record createdAt).stringify = some (line.record createdAt).toJson) :
    parseRecord parse (line.record createdAt) = some line := by
  have whole : withoutReturn (line.record createdAt).toJson.render =
      (line.record createdAt).toJson.render := withoutReturn_render [] _
  have length : (line.record createdAt).toJson.render.length ≠ 0 := by
    rw [Ne, List.length_eq_zero_iff]
    exact render_ne_nil _
  have reads : parse (String.ofList (line.record createdAt).toJson.render) =
      some (line.record createdAt).toJson := reads
  unfold parseRecord parseJournalLine
  rw [whole, if_neg length, reads]
  cases line with
  | header epoch =>
    have nonempty : epoch.length ≠ 0 := fun none => sound (String.length_eq_zero_iff.1 none)
    change (if epoch.length = 0 then none else some (JournalLine.header epoch)) = _
    rw [if_neg nonempty]
  | event seq envelope =>
    change (match (NumberToken.ofNat seq).toNat? with
      | some seq => if seq = 0 ∨ !envelope.isObject then none else some (.event seq envelope)
      | none => none) = some (JournalLine.event seq envelope)
    rw [NumberToken.toNat?_ofNat]
    simp [Nat.ne_of_gt sound.1, sound.2]

theorem open_withoutReturn {raw : List Char} (opened : ((Scan.value 0).run raw).isOpen = true) :
    ((Scan.value 0).run (withoutReturn raw)).isOpen = true := by
  unfold withoutReturn
  split
  case isFalse => exact opened
  case isTrue last =>
    have before (v : Scan) (after : (v.step '\r').isOpen = true) : v.isOpen = true := by
      cases v with
      | value | text | escape => exact after
      | closed | broken => cases after
    obtain ⟨front, rfl⟩ := List.getLast?_eq_some_iff.1 last
    rw [Scan.run_append] at opened
    rw [List.dropLast_concat]
    exact before _ opened

theorem parse_incomplete (parser : ParsesLines parse records) {raw : List Char}
    (opened : ((Scan.value 0).run raw).isOpen = true) : parseJournalLine parse raw = none := by
  unfold parseJournalLine
  dsimp only
  split
  · rfl
  · rcases parsed : parse (String.ofList (withoutReturn raw)) with - | value
    · rfl
    · have complete := parser.complete _ _ parsed
      rw [String.toList_ofList, Scan.not_complete_of_open (open_withoutReturn opened)] at complete
      cases complete

theorem ParsesLines.mono {records' : List AgentRecord} (parser : ParsesLines parse records')
    (sub : ∀ record ∈ records, record ∈ records') :
    ParsesLines parse records :=
  ⟨fun record mem => parser.roundTrip record (sub record mem), parser.complete⟩

/-- The file consists of whole lines and a part of one more, all of them records from `written`. -/
def Content (written : List AgentRecord) (file : Bytes) : Prop :=
  ∃ kept part, file = encodeChars (logText kept) ++ part ∧ (∀ record ∈ kept, record ∈ written) ∧
    (part = [] ∨ ∃ record ∈ written, ∃ missing, part ≠ [] ∧
      encodeChars record.toJson.render = part ++ missing)

theorem journalLines_content (parser : ParsesLines parse records) (kept : List AgentRecord) :
    journalLines parse [encodeChars (logText kept)] =
        kept.filterMap (parseRecord parse) ∧
    ∀ (record : AgentRecord) (part missing : Bytes), part ≠ [] →
      encodeChars record.toJson.render = part ++ missing →
      journalLines parse [encodeChars (logText kept) ++ part] =
        (kept ++ if missing = [] then [record] else []).filterMap (parseRecord parse) := by
  constructor
  · have whole : readLines [encodeChars (logText kept) ++ []] =
        kept.map (·.toJson.render) ++ if [] = [] then [] else [[]] :=
      readLines_log kept (Utf8Decoder.write_nil {}) (by simp)
    rw [List.append_nil, if_pos rfl, List.append_nil] at whole
    rw [journalLines, whole, List.filterMap_map]
    rfl
  · intro record part missing nonempty cut
    obtain ⟨d, whole, written, torn, stands⟩ := torn_write nonempty cut
    have unbroken : '\n' ∉ whole := fun mem => torn.unbroken (List.mem_append_left _ mem)
    have line : whole ++ d.finish ≠ [] := by simp [torn.nonempty]
    rw [journalLines, readLines_log kept written unbroken, if_neg line, List.filterMap_append,
      List.filterMap_map, List.filterMap_append]
    refine congrArg (List.filterMap (parseRecord parse) kept ++ ·) ?_
    rcases stands with ⟨more, opened⟩ | ⟨none, rfl, rfl⟩
    · rw [if_neg more, List.filterMap_cons_none (parse_incomplete parser opened)]
      rfl
    · rw [if_pos none]
      exact congrArg (fun raw => [raw].filterMap (parseJournalLine parse)) (List.append_nil _)

theorem survivors_all (records : List AgentRecord) :
    survivors (encodeChars (logText records)).length records = records := by
  induction records with
  | nil => rfl
  | cons record records ih =>
    have length : (encodeChars (logText (record :: records))).length =
        (encodeChars record.toJson.render).length + 1 +
          (encodeChars (logText records)).length := by
      rw [logText, List.flatMap_cons, ← logText, encodeChars_append, encodeChars_append,
        List.length_append, List.length_append]
      rfl
    rw [length, survivors_cons, ih]

theorem land_content (parser : ParsesLines parse records) {written : List AgentRecord}
    (content : Content written file) (ends : EndsLine file) {lines : List (JournalLine Json)}
    {createdAt : NumberToken}
    (reads : ∀ line ∈ lines, parseRecord parse (line.record createdAt) = some line) {p q : Bytes}
    (cut : encodeChars (logText (lines.map (·.record createdAt))) = p ++ q) :
    Content (written ++ lines.map (·.record createdAt)) (file ++ p) ∧
      journalLines parse [file ++ p] = journalLines parse [file] ++
        lines.take (survivors p.length (lines.map (·.record createdAt))).length := by
  obtain ⟨kept, part, rfl, known, whole⟩ := content
  obtain rfl : part = [] := by
    rcases whole with none | ⟨record, -, missing, nonempty, torn⟩
    · exact none
    · exact absurd ends (not_endsLine_of_torn _ nonempty torn)
  rw [List.append_nil]
  obtain ⟨kept', rest, part, all, rfl, stands⟩ := cut_log _ cut
  have merged : encodeChars (logText kept) ++ (encodeChars (logText kept') ++ part) =
      encodeChars (logText (kept ++ kept')) ++ part := by
    simp [logText]
  have mem (record : AgentRecord) (inside : record ∈ kept ++ kept') :
      record ∈ written ++ lines.map (·.record createdAt) := by
    rcases List.mem_append.1 inside with old | new
    · exact List.mem_append_left _ (known record old)
    · exact List.mem_append_right _ (all ▸ List.mem_append_left _ new)
  have parsed (n : ℕ) : ((lines.take n).map (·.record createdAt)).filterMap (parseRecord parse) =
      lines.take n := by
    rw [List.filterMap_map]
    refine (List.filterMap_congr fun line inside => ?_).trans List.filterMap_some
    exact reads line (List.mem_of_mem_take inside)
  have taken (first more : List AgentRecord)
      (eq : lines.map (·.record createdAt) = first ++ more) :
      first.filterMap (parseRecord parse) =
        lines.take first.length := by
    rw [← parsed, List.map_take, eq, List.take_left]
  obtain ⟨complete, torn⟩ := journalLines_content parser (kept ++ kept')
  rw [merged, (journalLines_content parser kept).1]
  rcases stands with ⟨rfl, same⟩ | ⟨record, rest', missing, rfl, nonempty, cut', same⟩
  · refine ⟨⟨kept ++ kept', [], rfl, mem, .inl rfl⟩, ?_⟩
    rw [List.append_nil, complete, same, List.filterMap_append, taken kept' rest all]
  · refine ⟨⟨kept ++ kept', part, rfl, mem, .inr ⟨record, ?_, missing, nonempty, cut'⟩⟩, ?_⟩
    · exact List.mem_append_right _ (all ▸ List.mem_append_right _ (List.mem_cons_self ..))
    · rw [torn record part missing nonempty cut', same, List.append_assoc, List.filterMap_append]
      refine congrArg (List.filterMap (parseRecord parse) kept ++ ·) ?_
      split
      case isTrue => exact taken _ rest' (by rw [all]; simp)
      case isFalse =>
        rw [List.append_nil]
        exact taken kept' _ all

end

/-! ## Invariants -/

namespace JournalStore

open SessionEventJournal

variable {parse : String → Option Json} {s t : JournalStore} {j : SessionEventJournal Json}
  {epoch : Epoch} {entries : List (JournalEntry Json)} {lines : List (JournalLine Json)}

/-- Events as the journal numbers them. -/
structure Genuine (epoch : Epoch) (entries : List (JournalEntry Json)) : Prop where
  epoch : epoch ≠ ""
  numbered : Numbered entries
  envelopes : ∀ entry ∈ entries, entry.envelope.isObject = true

structure Inv (parse : String → Option Json) (s : JournalStore) : Prop where
  content : Content s.written s.file
  closed : s.journal = none → ∃ epoch entries, Genuine epoch entries ∧
    (journalLines parse [s.file] = [] ∧ entries = [] ∨
      journalLines parse [s.file] = fileLines epoch entries) ∧
    s.stored = entries.map (epoch, ·)
  opened : ∀ j, s.journal = some j → ∃ entries, Genuine j.epoch entries ∧
    Holds (journalLines parse [s.file]) entries j ∧
    s.stored = ((journalLines parse [s.file]).filterMap entry?).map (j.epoch, ·) ∧
    (¬ EndsLine s.file → j.flushPromise = none ∧ j.pendingLines = [])

theorem entries_fileLines (epoch : Epoch) (entries : List (JournalEntry Json)) :
    (fileLines epoch entries).filterMap entry? = entries := by
  rw [fileLines, List.filterMap_cons_none rfl, List.filterMap_map]
  exact List.filterMap_some

theorem since_eq (c limit : ℕ) (lines : List (JournalLine Json)) :
    JournalLine.since c limit lines =
      ((lines.filterMap entry?).filter fun e => c < e.seq).take limit := by
  refine congrArg (List.take limit) ?_
  induction lines with
  | nil => rfl
  | cons line lines ih =>
    cases line with
    | header => exact ih
    | event seq envelope =>
      rw [List.filterMap_cons_some (show entry? (.event seq envelope) = some _ from rfl)]
      by_cases old : seq ≤ c
      · rw [List.filterMap_cons_none (by simp [JournalLine.after, old]), ih,
          List.filter_cons_of_neg (by simpa using old)]
      · rw [List.filterMap_cons_some (by simp [JournalLine.after, old]; rfl), ih,
          List.filter_cons_of_pos (by simpa using old)]

theorem prefix_fileLines (pre : lines <+: fileLines epoch entries) :
    lines = [] ∨ ∃ k, lines = fileLines epoch (entries.take k) := by
  rcases lines with - | ⟨line, lines⟩
  · exact .inl rfl
  · obtain ⟨rfl, rest⟩ := List.cons_prefix_cons.1 pre
    refine .inr ⟨lines.length, ?_⟩
    rw [fileLines, List.map_take, ← List.prefix_iff_eq_take.1 rest]

theorem Genuine.take (genuine : Genuine epoch entries) (k : ℕ) :
    Genuine epoch (entries.take k) where
  epoch := genuine.epoch
  numbered := genuine.numbered.take k
  envelopes entry mem := genuine.envelopes entry (List.mem_of_mem_take mem)

theorem Genuine.sound (genuine : Genuine epoch entries) :
    ∀ line ∈ fileLines epoch entries, line.Sound := by
  intro line mem
  rcases List.mem_cons.1 mem with rfl | mem
  · exact genuine.epoch
  · obtain ⟨entry, inside, rfl⟩ := List.mem_map.1 mem
    obtain ⟨i, at_i⟩ := List.getElem?_of_mem inside
    have position := genuine.numbered i entry at_i
    exact ⟨by omega, genuine.envelopes entry inside⟩

theorem known_initial (holds : Holds lines entries j) :
    lines ++ j.writing ++ j.pendingLines <+: fileLines j.epoch entries ∧
      (lines ++ j.writing ++ j.pendingLines).filterMap entry? = entries := by
  cases header : j.headerPending with
  | true =>
    obtain ⟨rfl, none, pending, rfl⟩ := holds.fresh header
    rw [writing_of_none none, pending]
    exact ⟨List.nil_prefix, rfl⟩
  | false =>
    rw [holds.lines header]
    exact ⟨List.prefix_rfl, entries_fileLines _ _⟩

theorem complete_all (s : JournalStore) (lines : List (JournalLine Json)) :
    s.complete lines (s.batch lines).length = lines.length := by
  rw [complete, List.take_length, batch, survivors_all, List.length_map]

theorem landed (inv : Inv parse s) (journal : s.journal = some j) (n : ℕ)
    (parser : ParsesLines parse (s.land j.epoch j.writing n).written) :
    Content (s.land j.epoch j.writing n).written (s.land j.epoch j.writing n).file ∧
    journalLines parse [(s.land j.epoch j.writing n).file] =
      journalLines parse [s.file] ++ j.writing.take (s.complete j.writing n) ∧
    (s.land j.epoch j.writing n).stored =
      ((journalLines parse [(s.land j.epoch j.writing n).file]).filterMap entry?).map
        (j.epoch, ·) := by
  obtain ⟨entries, genuine, holds, stored, idle⟩ := inv.opened j journal
  have grown : Content (s.land j.epoch j.writing n).written (s.land j.epoch j.writing n).file ∧
      journalLines parse [(s.land j.epoch j.writing n).file] =
        journalLines parse [s.file] ++ j.writing.take (s.complete j.writing n) := by
    by_cases ends : EndsLine s.file
    · refine land_content parser inv.content ends (fun line mem => ?_)
        (List.take_append_drop n _).symm
      refine parse_record (genuine.sound line ?_) _ (parser.roundTrip _ ?_)
      · exact (known_initial holds).1.subset
          (List.mem_append_left _ (List.mem_append_right _ mem))
      · exact List.mem_append_right _ (List.mem_map_of_mem mem)
    · have none := writing_of_none (idle ends).1
      have same : (s.land j.epoch j.writing n).file = s.file := by
        simp [land, none, batch, logText]
      have same' : (s.land j.epoch j.writing n).written = s.written := by
        simp [land, none]
      rw [same, same', none]
      exact ⟨inv.content, by simp⟩
  refine ⟨grown.1, grown.2, ?_⟩
  rw [grown.2, List.filterMap_append, List.map_append, ← stored]
  rfl

theorem journalLines_eq (chunks : List Bytes) :
    journalLines parse chunks = journalLines parse [chunks.flatten] := by
  rw [journalLines, readLines_eq]
  rfl

theorem opened_inv (inv : Inv parse s) (closed : s.journal = none) {chunks : List Bytes}
    (stream : chunks.flatten = s.file) (ulid : String) (createdAt : NumberToken) :
    Inv parse { s with
      journal := some (.open (journalLines parse chunks) ("ep_" ++ ulid)), createdAt } where
  content := inv.content
  closed no := nomatch no
  opened j eq := by
    cases eq
    obtain ⟨epoch, entries, genuine, disk, stored⟩ := inv.closed closed
    rw [journalLines_eq, stream]
    have holds := holds_open genuine.numbered (disk.imp_right fun eq => ⟨epoch, eq⟩)
      ("ep_" ++ ulid)
    have idle : ∀ lines : List (JournalLine Json),
        (SessionEventJournal.open lines ("ep_" ++ ulid)).flushPromise = none ∧
          (SessionEventJournal.open lines ("ep_" ++ ulid)).pendingLines = [] := by
      intro lines
      unfold SessionEventJournal.open
      split <;> exact ⟨rfl, rfl⟩
    refine ⟨entries, ?_, holds, ?_, fun _ => idle _⟩
    · rcases disk with ⟨none, rfl⟩ | lines
      · refine ⟨?_, genuine.numbered, genuine.envelopes⟩
        rw [none]
        change "ep_" ++ ulid ≠ ""
        intro empty
        have length := congrArg String.length empty
        rw [String.length_append] at length
        exact absurd (Nat.add_eq_zero_iff.1 length).1 (by decide)
      · rw [lines, SessionEventJournal.open, fileLines, recover_lines genuine.numbered]
        exact genuine
    · rcases disk with ⟨none, rfl⟩ | lines
      · rw [stored, none]
        rfl
      · rw [lines, entries_fileLines, stored, SessionEventJournal.open, fileLines,
          recover_lines genuine.numbered]

theorem crashed_inv (inv : Inv parse s) (journal : s.journal = some j) (n : ℕ)
    (parser : ParsesLines parse (s.land j.epoch j.writing n).written) :
    Inv parse { s.land j.epoch j.writing n with journal := none } := by
  obtain ⟨content, lines, stored⟩ := landed inv journal n parser
  obtain ⟨entries, genuine, holds, -⟩ := inv.opened j journal
  refine ⟨content, fun _ => ?_, (fun j eq => nomatch eq)⟩
  have pre : journalLines parse [(s.land j.epoch j.writing n).file] <+:
      fileLines j.epoch entries := by
    refine List.IsPrefix.trans ?_ (known_initial holds).1
    rw [lines, List.append_assoc]
    refine (List.prefix_append_right_inj _).2 ?_
    exact (List.take_prefix _ _).trans (List.prefix_append _ _)
  rcases prefix_fileLines pre with none | ⟨k, eq⟩
  · exact ⟨j.epoch, [], ⟨genuine.epoch, .nil, fun entry mem => nomatch mem⟩, .inl ⟨none, rfl⟩,
      by rw [stored, none]; rfl⟩
  · exact ⟨j.epoch, entries.take k, genuine.take k, .inr eq,
      by rw [stored, eq, entries_fileLines]⟩

theorem endsLine_append {as bs : Bytes} (first : EndsLine as) (second : EndsLine bs) :
    EndsLine (as ++ bs) := by
  intro byte last
  rw [List.getLast?_append] at last
  rcases Option.or_eq_some_iff.1 last with last | ⟨-, last⟩
  · exact second byte last
  · exact first byte last

theorem step_inv (inv : Inv parse s) {event : JournalEvent} (whole : Whole s event)
    (next : step parse s event = some t) (parser : ParsesLines parse t.written) :
    Inv parse t := by
  cases event with
  | «open» chunks ulid createdAt =>
    simp only [step] at next
    split at next
    case isFalse => cases next
    case isTrue enabled =>
      cases next
      exact opened_inv inv (Option.isNone_iff_eq_none.1 enabled.1) enabled.2 ulid createdAt
  | append envelope =>
    obtain ⟨j, journal, rfl⟩ := Option.map_eq_some_iff.1 next
    obtain ⟨entries, genuine, holds, stored, -⟩ := inv.opened j journal
    refine ⟨inv.content, (fun no => by cases no), fun j' eq => ?_⟩
    obtain rfl := Option.some.inj eq
    have epoch : (j.nextSeq.1.append j.nextSeq.2 (.object envelope)).epoch = j.epoch := by
      rw [SessionEventJournal.append, scheduleFlush]
      split <;> rfl
    have seq : j.nextSeq.2 = entries.length + 1 := congrArg Nat.succ holds.seq
    refine ⟨entries ++ [⟨j.nextSeq.2, .object envelope⟩], ⟨?_, ?_, fun entry mem => ?_⟩,
      holds.append _, ?_, fun torn => absurd whole torn⟩
    · exact epoch ▸ genuine.epoch
    · rw [seq]
      exact genuine.numbered.concat _
    · rcases List.mem_append.1 mem with old | new
      · exact genuine.envelopes entry old
      · obtain rfl := List.mem_singleton.1 new
        rfl
    · exact stored.trans (by rw [← epoch])
  | flush =>
    simp only [step] at next
    split at next
    case h_2 => cases next
    case h_1 j journal =>
      split at next
      case isFalse => cases next
      case isTrue enabled =>
        cases next
        obtain ⟨entries, genuine, holds, stored, idle⟩ := inv.opened j journal
        refine ⟨inv.content, (fun no => by cases no), fun j' eq => ?_⟩
        cases eq
        exact ⟨entries, genuine, holds.flushOnce (Option.isNone_iff_eq_none.1 enabled.1), stored,
          fun torn => absurd (idle torn).2 enabled.2⟩
  | written =>
    simp only [step] at next
    split at next
    case h_2 => cases next
    case h_1 j journal =>
      split at next
      case h_2 => cases next
      case h_1 lines writing =>
        cases next
        have batch : j.writing = lines := by rw [SessionEventJournal.writing, writing]
        obtain ⟨entries, genuine, holds, -, idle⟩ := inv.opened j journal
        subst batch
        obtain ⟨content, known, stored⟩ := landed inv journal _ parser
        rw [complete_all, List.take_length] at known
        refine ⟨content, (fun no => by cases no), fun j' eq => ?_⟩
        cases eq
        refine ⟨entries, genuine, ?_, stored, fun torn => ?_⟩
        · have written := holds.written writing
          rw [← known] at written
          exact written
        · rw [land, List.take_length] at torn
          refine absurd (endsLine_append ?_ (endsLine_log _)) torn
          by_contra before
          exact absurd (writing.symm.trans (idle before).1) (by simp)
  | failed => exact whole.elim
  | finallyFlush =>
    simp only [step] at next
    split at next
    case h_2 => cases next
    case h_1 j journal =>
      split at next
      case h_2 => cases next
      case h_1 settled =>
        cases next
        obtain ⟨entries, genuine, holds, stored, idle⟩ := inv.opened j journal
        refine ⟨inv.content, (fun no => by cases no), fun j' eq => ?_⟩
        cases eq
        exact ⟨entries, genuine, holds.finallyFlush settled, stored, fun torn =>
          absurd (settled.symm.trans (idle torn).1) (by simp)⟩
  | close =>
    simp only [step] at next
    split at next
    case h_2 => cases next
    case h_1 j journal =>
      split at next
      case isFalse => cases next
      case isTrue flushed =>
        cases next
        obtain ⟨entries, genuine, holds, stored, -⟩ := inv.opened j journal
        refine ⟨inv.content, fun _ => ⟨j.epoch, entries, genuine, ?_, ?_⟩, fun j eq => by cases eq⟩
        · exact holds.file_eq flushed
        · rcases holds.file_eq flushed with ⟨none, rfl⟩ | eq
          · rw [stored, none]
            rfl
          · rw [stored, eq, entries_fileLines]
  | crash n =>
    simp only [step] at next
    split at next
    case h_2 => cases next
    case h_1 j journal =>
      cases next
      exact crashed_inv inv journal n parser

/-! ## Runs -/

theorem land_grows (s : JournalStore) (epoch : Epoch) (lines : List (JournalLine Json)) (n : ℕ) :
    s.written <+: (s.land epoch lines n).written ∧ s.stored <+: (s.land epoch lines n).stored :=
  ⟨List.prefix_append _ _, List.prefix_append _ _⟩

theorem step_grows {event : JournalEvent} (next : step parse s event = some t) :
    s.written <+: t.written ∧ s.stored <+: t.stored := by
  have same : s.written <+: s.written ∧ s.stored <+: s.stored :=
    ⟨List.prefix_rfl, List.prefix_rfl⟩
  cases event with
  | append =>
    obtain ⟨j, -, rfl⟩ := Option.map_eq_some_iff.1 next
    exact same
  | «open» | flush | finallyFlush | close =>
    simp only [step] at next
    split at next <;> try split at next
    all_goals first | (obtain rfl := Option.some.inj next; exact same) | cases next
  | written | failed | crash =>
    simp only [step] at next
    split at next <;> try split at next
    all_goals first
      | (obtain rfl := Option.some.inj next; exact land_grows _ _ _ _)
      | cases next

/-- A run in which every step is `Whole`. -/
abbrev WholeRun (parse : String → Option Json) (s₀ : JournalStore) (events : List JournalEvent)
    (s : JournalStore) : Prop :=
  Transition.Run (step parse) Whole s₀ events s

theorem run_grows {s₀ : JournalStore} {events : List JournalEvent}
    (run : WholeRun parse s₀ events s) : s₀.written <+: s.written ∧ s₀.stored <+: s.stored := by
  induction run with
  | nil => exact ⟨List.prefix_rfl, List.prefix_rfl⟩
  | snoc _ _ next ih =>
    exact ⟨ih.1.trans (step_grows next).1, ih.2.trans (step_grows next).2⟩

theorem inv_of_run {events : List JournalEvent} (run : WholeRun parse {} events s)
    (parser : ParsesLines parse s.written) : Inv parse s := by
  revert parser
  refine Transition.Run.invariant (fun s => ParsesLines parse s.written → Inv parse s) run
    (fun _ => ?_) fun s event t ih whole next parser => ?_
  · exact {
      content := ⟨[], [], rfl, (fun record mem => nomatch mem), .inl rfl⟩
      closed := fun _ => ⟨"ep_", [], ⟨by decide, .nil, fun entry mem => nomatch mem⟩,
        .inl ⟨rfl, rfl⟩, rfl⟩
      opened := fun j eq => nomatch eq }
  · exact step_inv (ih (parser.mono (step_grows next).1.subset)) whole next parser

/-- A pair of an epoch and a number, given to an event that is in the file complete or not yet
written, is never given again; what is in the file stays there; and a reader of the open journal
gets the events of its epoch that are there complete, in their order, and no others. -/
theorem numbers_once {events later : List JournalEvent} (first : WholeRun parse {} events s)
    (rest : WholeRun parse s later t) (parser : ParsesLines parse t.written) :
    (t.live.map fun event => (event.1, event.2.seq)).Nodup ∧ s.stored <+: t.stored ∧
    ∀ j, t.journal = some j → ∀ (n c limit : ℕ) (chunks : List Bytes),
      chunks.flatten = (t.land j.epoch j.writing n).file →
      ParsesLines parse (t.land j.epoch j.writing n).written →
      readSince parse c limit chunks =
        (((t.land j.epoch j.writing n).stored.filter fun event =>
          event.1 = j.epoch ∧ c < event.2.seq).map (·.2)).take limit := by
  have inv := inv_of_run (first.trans rest) parser
  have keys (epoch : Epoch) (entries : List (JournalEntry Json)) (numbered : Numbered entries) :
      ((entries.map fun entry => (epoch, entry)).map
        fun event => (event.1, event.2.seq)).Nodup := by
    rw [List.map_map]
    refine List.pairwise_map.2 (List.pairwise_iff_getElem.2 fun i k _ _ before same => ?_)
    have position_i := numbered i _ (List.getElem?_eq_getElem (by omega))
    have position_k := numbered k _ (List.getElem?_eq_getElem (by omega))
    have equal : entries[i].seq = entries[k].seq := (Prod.mk.inj same).2
    omega
  refine ⟨?_, (run_grows rest).2, fun j journal n c limit chunks stream reads => ?_⟩
  · cases journal : t.journal with
    | none =>
      obtain ⟨epoch, entries, genuine, -, stored⟩ := inv.closed journal
      simp only [live, journal]
      rw [stored, List.append_nil]
      exact keys epoch entries genuine.numbered
    | some j =>
      obtain ⟨entries, genuine, holds, stored, -⟩ := inv.opened j journal
      have all := (known_initial holds).2
      rw [List.append_assoc, List.filterMap_append] at all
      simp only [live, journal]
      rw [stored, queued, ← List.map_append, all]
      exact keys j.epoch entries genuine.numbered
  · obtain ⟨-, -, stored⟩ := landed inv journal n reads
    rw [readSince, journalLines_eq, stream, since_eq, stored]
    refine congrArg (List.take limit) ?_
    rw [List.filter_map, List.map_map]
    refine Eq.trans ?_ (List.map_id _).symm
    exact List.filter_congr fun entry _ => by simp

/-! ## A torn journal -/

/-- `JSON.parse` on the lines of a journal whose lines are all different. -/
def parseTable (records : List AgentRecord) (text : String) : Option Json :=
  (records.find? fun record => record.toJson.render = text.toList).map (·.toJson)

theorem parseTable_parses {records : List AgentRecord}
    (distinct : (records.map (·.toJson.render)).Nodup) :
    ParsesLines (parseTable records) records where
  roundTrip record mem := by
    have text : record.stringify.toList = record.toJson.render := String.toList_ofList
    rw [parseTable, text]
    induction records with
    | nil => cases mem
    | cons first records ih =>
      rw [List.map_cons, List.nodup_cons] at distinct
      rcases List.mem_cons.1 mem with rfl | mem
      · rw [List.find?_cons_of_pos (by simp)]
        rfl
      · have other : first.toJson.render ≠ record.toJson.render := fun same =>
          distinct.1 (same ▸ List.mem_map_of_mem mem)
        rw [List.find?_cons_of_neg (by simpa using other)]
        exact ih distinct.2 mem
  complete text value parsed := by
    obtain ⟨record, found, -⟩ := Option.map_eq_some_iff.1 parsed
    have same := List.find?_some found
    rw [← of_decide_eq_true same, AgentRecord.toJson, Scan.run_object]
    rfl

theorem parseTable_none {records : List AgentRecord} {text : List Char}
    (unknown : ∀ record ∈ records, record.toJson.render ≠ text) :
    parseTable records (String.ofList text) = none := by
  rw [parseTable, String.toList_ofList, List.find?_eq_none.2 (by simpa using unknown),
    Option.map_none]

/-- The lines of an event, or of the header. -/
def sampleRecords : List AgentRecord :=
  [JournalLine.record (.ofNat 0) (.header "ep_1"),
    JournalLine.record (.ofNat 0) (.event 1 (.object [("type", .string "a")])),
    JournalLine.record (.ofNat 0) (.event 1 (.object [("type", .string "b")])),
    JournalLine.record (.ofNat 0) (.event 2 (.object [("type", .string "b")]))]

theorem sampleRecords_parses : ParsesLines (parseTable sampleRecords) sampleRecords :=
  parseTable_parses (by decide +kernel)

/-- The header and the first event. -/
def wholeBytes : Bytes := encodeChars (logText (sampleRecords.take 2))

/-- An event is appended and flushed. -/
def wholeJournal : List JournalEvent :=
  [.open [] "1" (.ofNat 0), .append [("type", .string "a")], .written, .finallyFlush]

/-- The server dies and is started again, and a second event is appended and flushed. -/
def reopenedJournal : List JournalEvent :=
  [.crash 0, .open [wholeBytes] "2" (.ofNat 0), .append [("type", .string "b")], .written,
    .finallyFlush]

/-- All but the last two bytes of `wholeBytes`. -/
def tornBytes : Bytes := wholeBytes.dropLast.dropLast

/-- A crash tears the line of the first event; the journal is opened again, and another event is
appended and flushed. -/
def tornJournal : List JournalEvent :=
  [.open [] "1" (.ofNat 0), .append [("type", .string "a")], .crash tornBytes.length,
    .open [tornBytes] "2" (.ofNat 0), .append [("type", .string "b")], .written, .finallyFlush]

/-- The journal is closed and opened again, and an event is appended. -/
def gluedJournal : List JournalEvent :=
  [.close,
    .open [tornBytes ++ encodeChars (logText (sampleRecords.drop 2).dropLast)] "3" (.ofNat 0),
    .append [("type", .string "c")]]

instance (p : Bytes) : Decidable (EndsLine p) :=
  inferInstanceAs (Decidable (∀ byte ∈ p.getLast?, byte = 10))

instance (s : JournalStore) (event : JournalEvent) : Decidable (Whole s event) :=
  match event with
  | .append _ => inferInstanceAs (Decidable (EndsLine s.file))
  | .failed _ => inferInstanceAs (Decidable False)
  | .open _ _ _ | .flush | .written | .finallyFlush | .close | .crash _ =>
    inferInstanceAs (Decidable True)

set_option maxRecDepth 100000 in
/-- Both events are numbered and read. -/
theorem wholeJournal_once : ∃ s t : JournalStore,
    WholeRun (parseTable sampleRecords) {} wholeJournal s ∧
    WholeRun (parseTable sampleRecords) s reopenedJournal t ∧
    (t.live.map fun event => (event.1, event.2.seq)).Nodup ∧ t.stored.length = 2 ∧
    ∃ j, t.journal = some j ∧
      readSince (parseTable sampleRecords) 0 10 [(t.land j.epoch j.writing 0).file] =
        (((t.land j.epoch j.writing 0).stored.filter fun event =>
          event.1 = j.epoch ∧ 0 < event.2.seq).map (·.2)).take 10 := by
  have reached : ((Transition.exec (Transition.guarded (step (parseTable sampleRecords)) Whole) {}
      wholeJournal).bind fun s => (Transition.exec (Transition.guarded
        (step (parseTable sampleRecords)) Whole) s reopenedJournal).map fun t =>
          (t.stored.length, t.journal.map (·.writing.length))) = some (2, some 0) := by
    decide +kernel
  have records : ((Transition.exec (Transition.guarded (step (parseTable sampleRecords)) Whole) {}
      wholeJournal).bind fun s => (Transition.exec (Transition.guarded
        (step (parseTable sampleRecords)) Whole) s reopenedJournal).map fun t => t.written) =
          some (sampleRecords.take 2 ++ sampleRecords.drop 3) := by
    rfl
  obtain ⟨s, first, rest⟩ := Option.bind_eq_some_iff.1 reached
  obtain ⟨t, second, eq⟩ := Option.map_eq_some_iff.1 rest
  rw [first, Option.bind_some, second, Option.map_some, Option.some.injEq] at records
  obtain ⟨stored, opened⟩ := Prod.mk.inj eq
  obtain ⟨j, journal, idle⟩ := Option.map_eq_some_iff.1 opened
  have parser : ParsesLines (parseTable sampleRecords) t.written :=
    sampleRecords_parses.mono fun record mem => by
      rw [records] at mem
      rcases List.mem_append.1 mem with mem | mem
      · exact List.mem_of_mem_take mem
      · exact List.mem_of_mem_drop mem
  have none : j.writing = [] := List.length_eq_zero_iff.1 idle
  obtain ⟨nodup, -, read⟩ := numbers_once (.of_exec first) (.of_exec second) parser
  refine ⟨s, t, .of_exec first, .of_exec second, nodup, stored, j, journal,
    read j journal 0 0 10 _ (by simp) ?_⟩
  simpa [land, none] using parser

theorem exec_append (parse : String → Option Json) (s : JournalStore)
    (lines : List (JournalLine Json)) (envelope : List (String × Json))
    {j : SessionEventJournal Json} (journal : s.journal = some j)
    (idle : j.flushPromise = none ∧ j.pendingLines = [])
    (batched : lines = (if j.headerPending then [.header j.epoch] else []) ++
      [.event (j.seq + 1) (.object envelope)]) :
    Transition.exec (step parse) s [.append envelope, .written, .finallyFlush] = some
      { s with
        file := s.file ++ s.batch lines
        written := s.written ++ lines.map (·.record s.createdAt)
        stored := s.stored ++ (lines.filterMap entry?).map (j.epoch, ·)
        journal := some { j with seq := j.seq + 1, headerPending := false } } := by
  obtain ⟨file, journal', createdAt, written, stored⟩ := s
  obtain rfl : journal' = some j := journal
  obtain ⟨epoch, seq, pendingLines, headerPending, flushPromise⟩ := j
  obtain ⟨rfl, rfl⟩ : flushPromise = none ∧ pendingLines = [] := idle
  subst batched
  simp only [Transition.exec, step, Option.map_some, Option.bind_some, nextSeq,
    SessionEventJournal.append, scheduleFlush, Option.isSome_none, Bool.false_eq_true, if_false,
    flushOnce, List.nil_append, List.length_append, List.length_singleton, Nat.add_eq_zero_iff,
    one_ne_zero, and_false, land, complete_all, List.take_length]
  rfl

theorem journalLines_torn {file : Bytes} {line : List Char}
    (lines : readLines [file] =
      [(JournalLine.record (.ofNat 0) (.header "ep_1")).toJson.render, line])
    (unknown : ∀ record ∈ sampleRecords, record.toJson.render ≠ withoutReturn line) :
    journalLines (parseTable sampleRecords) [file] = [.header "ep_1"] := by
  have sound : (JournalLine.header "ep_1" : JournalLine Json).Sound := (by decide : "ep_1" ≠ "")
  have header : parseJournalLine (parseTable sampleRecords)
      (JournalLine.record (.ofNat 0) (.header "ep_1")).toJson.render = some (.header "ep_1") :=
    parse_record sound (.ofNat 0) (sampleRecords_parses.roundTrip _ (List.mem_cons_self ..))
  have nothing : parseJournalLine (parseTable sampleRecords) line = none := by
    rw [parseJournalLine, parseTable_none unknown]
    exact ite_self _
  rw [journalLines, lines, List.filterMap_cons_some header, List.filterMap_cons_none nothing]
  rfl

/-- After the crash, when the journal has been opened again. -/
def tornStore : JournalStore where
  file := tornBytes
  journal := some { epoch := "ep_1", seq := 0, headerPending := false }
  written := sampleRecords.take 2

/-- The torn line. -/
def tornLine : List Char := (sampleRecords[1].toJson.render).dropLast

theorem tornBytes_prefix : tornBytes = wholeBytes.take tornBytes.length :=
  List.prefix_iff_eq_take.1 ((List.dropLast_prefix _).trans (List.dropLast_prefix _))

theorem survivors_torn :
    survivors tornBytes.length (sampleRecords.take 2) = sampleRecords.take 1 := by
  have whole : (encodeChars sampleRecords[0].toJson.render).length ≤ tornBytes.length := by
    decide +kernel
  have torn : ¬(encodeChars sampleRecords[1].toJson.render).length ≤
      tornBytes.length - ((encodeChars sampleRecords[0].toJson.render).length + 1) := by
    decide +kernel
  change survivors tornBytes.length [sampleRecords[0], sampleRecords[1]] = _
  rw [survivors, length_text, if_pos whole, survivors, length_text, if_neg torn]
  rfl

/-- The header and the first event. -/
def firstLines : List (JournalLine Json) :=
  [.header "ep_1", .event 1 (.object [("type", .string "a")])]

/-- While they are being written. -/
def writingStore : JournalStore where
  journal := some
    { epoch := "ep_1", seq := 1, headerPending := false
      flushPromise := some (.writing firstLines) }

theorem torn_crash (parse : String → Option Json) :
    step parse writingStore (.crash tornBytes.length) =
      some { file := tornBytes, written := sampleRecords.take 2 } := by
  have batched : batch writingStore firstLines = wholeBytes := rfl
  have complete : complete writingStore firstLines tornBytes.length = 1 := by
    rw [JournalStore.complete, batched, ← tornBytes_prefix]
    exact congrArg List.length survivors_torn
  change some { land writingStore "ep_1" firstLines tornBytes.length with journal := none } = _
  rw [land, complete, batched, ← tornBytes_prefix]
  rfl

theorem readLines_torn :
    readLines [tornBytes] = [sampleRecords[0].toJson.render, tornLine] ∧
      readLines [tornBytes ++ encodeChars (logText [sampleRecords[2]])] =
        [sampleRecords[0].toJson.render, tornLine ++ sampleRecords[2].toJson.render] := by
  decide +kernel

theorem tornLine_unknown : ∀ line ∈ [tornLine, tornLine ++ sampleRecords[2].toJson.render],
    ∀ record ∈ sampleRecords, record.toJson.render ≠ withoutReturn line := by
  decide +kernel

theorem torn_opened : step (parseTable sampleRecords)
    { file := tornBytes, written := sampleRecords.take 2 } (.open [tornBytes] "2" (.ofNat 0)) =
      some tornStore := by
  rw [step, if_pos ⟨rfl, by simp⟩, journalLines_torn readLines_torn.1
    (tornLine_unknown _ (List.mem_cons_self ..))]
  rfl

/-- What the first run leaves. -/
def reusedStore : JournalStore where
  file := tornBytes ++ encodeChars (logText [sampleRecords[2]])
  journal := some { epoch := "ep_1", seq := 1, headerPending := false }
  written := sampleRecords.take 3
  stored := [("ep_1", ⟨1, .object [("type", .string "b")]⟩)]

theorem tornJournal_run :
    Transition.exec (step (parseTable sampleRecords)) {} tornJournal = some reusedStore := by
  have appended := exec_append (parseTable sampleRecords) tornStore
    [.event 1 (.object [("type", .string "b")])] [("type", .string "b")] rfl
    ⟨rfl, rfl⟩ rfl
  have batched : batch tornStore [.event 1 (.object [("type", .string "b")])] =
      encodeChars (logText [sampleRecords[2]]) := rfl
  have opened : step (parseTable sampleRecords) {} (.open [] "1" (.ofNat 0)) =
      some { journal := some { epoch := "ep_1", seq := 0, headerPending := true } } := rfl
  have writing : step (parseTable sampleRecords)
      { journal := some { epoch := "ep_1", seq := 0, headerPending := true } }
      (.append [("type", .string "a")]) = some writingStore := rfl
  rw [tornJournal, Transition.exec, opened, Option.bind_some, Transition.exec, writing,
    Option.bind_some, Transition.exec, torn_crash, Option.bind_some, Transition.exec, torn_opened,
    Option.bind_some, appended]
  rfl

theorem reused_unread :
    journalLines (parseTable sampleRecords) [reusedStore.file] = [.header "ep_1"] :=
  journalLines_torn readLines_torn.2 (tornLine_unknown _ (by simp))

/-- After the second run, when the third event has been appended. -/
def gluedStore : JournalStore :=
  { reusedStore with
    journal := some
      { epoch := "ep_1", seq := 1, headerPending := false
        flushPromise := some (.writing [.event 1 (.object [("type", .string "c")])]) } }

theorem gluedJournal_run :
    Transition.exec (step (parseTable sampleRecords)) reusedStore gluedJournal =
      some gluedStore := by
  have opened : step (parseTable sampleRecords) { reusedStore with journal := none }
      (.open [reusedStore.file] "3" (.ofNat 0)) =
        some { reusedStore with
          journal := some { epoch := "ep_1", seq := 0, headerPending := false } } := by
    rw [step, if_pos ⟨rfl, by simp⟩, reused_unread]
    rfl
  have closed : step (parseTable sampleRecords) reusedStore .close =
      some { reusedStore with journal := none } := rfl
  have appended : step (parseTable sampleRecords)
      { reusedStore with journal := some { epoch := "ep_1", seq := 0, headerPending := false } }
      (.append [("type", .string "c")]) = some gluedStore := rfl
  have file : tornBytes ++ encodeChars (logText (sampleRecords.drop 2).dropLast) =
      reusedStore.file := rfl
  rw [gluedJournal, file, Transition.exec, closed, Option.bind_some, Transition.exec, opened,
    Option.bind_some, Transition.exec, appended, Option.bind_some, Transition.exec]

/-- The second event is complete in the file and flushed, but not read, and its number is given
again. -/
theorem tornJournal_reuses : ∃ s t : JournalStore,
    Transition.exec (step (parseTable sampleRecords)) {} tornJournal = some s ∧
    ParsesLines (parseTable sampleRecords) s.written ∧
    s.stored.map (fun event => (event.1, event.2.seq)) = [("ep_1", 1)] ∧
    s.journal.map (fun j => (j.epoch, j.flushed)) = some ("ep_1", true) ∧
    readSince (parseTable sampleRecords) 0 10 [s.file] = [] ∧
    Transition.exec (step (parseTable sampleRecords)) s gluedJournal = some t ∧
    t.live.map (fun event => (event.1, event.2.seq)) = [("ep_1", 1), ("ep_1", 1)] := by
  refine ⟨reusedStore, gluedStore, tornJournal_run, ?_, rfl, rfl, ?_, gluedJournal_run, rfl⟩
  · exact sampleRecords_parses.mono fun record mem => List.mem_of_mem_take mem
  · rw [readSince, reused_unread]
    rfl

end JournalStore

end KimiCli
