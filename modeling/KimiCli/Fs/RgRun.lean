import KimiCli.Fs.GrepShares

/-!
# Reading the output of ripgrep

Where the reader stops in the records of all files, and why the records that it gets after that
leave the answer as it is.
-/

namespace KimiCli.Grep

open BudgetShares ChunkedLines

variable (fold : Char → Char) (req : FsGrepRequest) (further : List Char → List ℕ)

def endRecord (path : List Char) : RgJsonRecord :=
  ⟨.end, some (.text ('.' :: '/' :: path)), none, none, none⟩

/-- What ripgrep prints when it reports on these files. -/
def rgRecords (answered : List SearchedFile) : List RgJsonRecord :=
  answered.flatMap (fileRecords fold req further) ++ [⟨.summary, none, none, none, none⟩]

/-- What is printed after the match number `n`. -/
def beyond (n : ℕ) (lines : List RgLine) : List RgLine := lines.drop (upTo n lines).length

variable {fold} {req} {further} {fromBase64 : List Char → List Char} {path : List Char}
  {buf : FileBuf} {lines : List RgLine} {rest : List RgJsonRecord} {state : RgState}
  {file : SearchedFile} {order : List SearchedFile} {files : List FsGrepFileHit} {total scanned : ℕ}
  {truncated : Bool}

/-! ## One record -/

theorem entries_set_empty (buf : FileBuf) :
    ((∅ : OrderedMap (List Char) FileBuf).set path buf).entries = [(path, buf)] :=
  OrderedMap.entries_set_of_not_mem List.not_mem_nil

theorem set_set_empty (buf buf' : FileBuf) :
    ((∅ : OrderedMap (List Char) FileBuf).set path buf).set path buf' =
      (∅ : OrderedMap (List Char) FileBuf).set path buf' := by
  refine OrderedMap.ext ?_
  have inside : path ∈ ((∅ : OrderedMap (List Char) FileBuf).set path buf).keys :=
    OrderedMap.mem_keys.2 ⟨buf, OrderedMap.get_set_self _ _ _⟩
  rw [OrderedMap.set, dif_pos inside]
  simp only [entries_set_empty, List.map_singleton, if_true]

theorem delete_set_empty (buf : FileBuf) :
    ((∅ : OrderedMap (List Char) FileBuf).set path buf).delete path = ∅ := by
  refine OrderedMap.ext ?_
  simp only [OrderedMap.delete, entries_set_empty]
  exact List.filter_cons_of_neg (by simp)

variable (path buf) in
/-- While one file is read. -/
def reading (files : List FsGrepFileHit) (total : ℕ) (truncated : Bool) (scanned : ℕ) : RgState :=
  ⟨(∅ : OrderedMap _ _).set path buf, files, total, truncated, scanned⟩

theorem onRecord_context {line : RgLine} (quiet : line.start = none) :
    onRecord req fromBase64 (reading path buf files total truncated scanned)
        (line.record path further) =
      (reading path (buf.read req line) files total truncated scanned, false) := by
  rw [onRecord, RgLine.record, quiet]
  simp only [Option.isSome_none, Bool.false_eq_true, if_false, rgPath, Option.map_some, rgText,
    Option.bind_some, reading, OrderedMap.get_set_self]
  rw [set_set_empty, FileBuf.read, quiet]

theorem onRecord_match {line : RgLine} {start : ℕ} (match' : line.start = some start)
    (room : total < req.maxTotalMatches) (few : buf.hits.length < req.maxMatchesPerFile) :
    onRecord req fromBase64 (reading path buf files total truncated scanned)
        (line.record path further) =
      if total + 1 ≥ req.maxTotalMatches then
        (reading path (buf.read req line) files (total + 1) true scanned, true)
      else (reading path (buf.read req line) files (total + 1) truncated scanned, false) := by
  rw [onRecord, RgLine.record, match']
  simp only [Option.isSome_some, if_true, rgPath, Option.map_some, rgText, Option.bind_some,
    reading, OrderedMap.get_set_self, if_neg (Nat.not_le_of_lt room),
    if_neg (Nat.not_le_of_lt few), Option.getD_some]
  rw [set_set_empty, FileBuf.read, match']
  rfl

theorem untilStop_cons_of_go {σ ι : Type*} {handle : σ → ι → σ × Bool} {state next : σ} {item : ι}
    {items : List ι} (go : handle state item = (next, false)) :
    untilStop handle state (item :: items) = untilStop handle next items := by
  rw [untilStop, go, if_neg Bool.false_ne_true]

theorem untilStop_cons_of_stop {σ ι : Type*} {handle : σ → ι → σ × Bool} {state next : σ} {item : ι}
    {items : List ι} (stop : handle state item = (next, true)) :
    untilStop handle state (item :: items) = (next, items) := by
  rw [untilStop, stop, if_pos rfl]

/-! ## One file -/

theorem upTo_cons_match {line : RgLine} (match' : line.start.isSome) (n : ℕ) :
    upTo (n + 2) (line :: lines) = line :: upTo (n + 1) lines := by
  rw [upTo, if_pos match', if_neg (by omega)]
  rfl

theorem length_hits_read (line : RgLine) : (buf.read req line).hits.length =
    buf.hits.length + (matchCores [line]).length := by
  have cores : (([line].foldl (FileBuf.read req) buf).hits.map FsGrepMatch.core).length = _ :=
    congrArg List.length foldl_read_core
  rwa [List.length_append, List.length_map, List.length_map] at cores

theorem untilStop_lines (room : total < req.maxTotalMatches)
    (few : buf.hits.length + (matchCores lines).length ≤ req.maxMatchesPerFile) :
    untilStop (onRecord req fromBase64) (reading path buf files total truncated scanned)
        (lines.map (RgLine.record path further) ++ rest) =
      if req.maxTotalMatches - total ≤ (matchCores lines).length then
        (reading path ((upTo (req.maxTotalMatches - total) lines).foldl (FileBuf.read req) buf)
            files req.maxTotalMatches true scanned,
          (beyond (req.maxTotalMatches - total) lines).map (RgLine.record path further) ++ rest)
      else
        untilStop (onRecord req fromBase64)
          (reading path (lines.foldl (FileBuf.read req) buf) files
            (total + (matchCores lines).length) truncated scanned) rest := by
  induction lines generalizing buf total truncated with
  | nil =>
    rw [if_neg]
    · rfl
    · rw [matchCores, List.filterMap_nil, List.length_nil]
      omega
  | cons line lines ih =>
    have one : (buf.read req line).hits.length = _ := length_hits_read line
    rw [List.map_cons, List.cons_append]
    cases start : line.start with
    | none =>
      rw [matchCores_context start] at few one ⊢
      rw [untilStop_cons_of_go (onRecord_context start), ih room (by rw [one]; exact few), beyond,
        beyond, upTo, start, Option.isSome_none, if_neg Bool.false_ne_true, List.length_cons,
        List.drop_succ_cons]
      rfl
    | some =>
      rw [matchCores_match start, List.length_cons] at few one ⊢
      have step : onRecord req fromBase64 (reading path buf files total truncated scanned)
        (line.record path further) = _ := onRecord_match start room (by omega)
      by_cases last : total + 1 ≥ req.maxTotalMatches
      · have left : req.maxTotalMatches - total = 1 := by omega
        have full : total + 1 = req.maxTotalMatches := by omega
        rw [if_pos last, full] at step
        rw [untilStop_cons_of_stop step, if_pos (by omega), left, beyond, upTo,
          if_pos (by rw [start]; rfl), if_pos le_rfl]
        rfl
      · obtain ⟨n, left⟩ : ∃ n, req.maxTotalMatches - total = n + 2 :=
          ⟨req.maxTotalMatches - total - 2, by omega⟩
        have left' : req.maxTotalMatches - (total + 1) = n + 1 := by omega
        have match' : line.start.isSome := by rw [start]; rfl
        rw [if_neg last] at step
        rw [untilStop_cons_of_go step, ih (Nat.lt_of_not_le last) (by
          rw [one, Nat.add_assoc, Nat.add_comm _ (matchCores lines).length]
          exact few)]
        simp only [left, left', beyond, upTo_cons_match match']
        rw [List.length_cons, List.drop_succ_cons, Nat.add_assoc, Nat.add_comm 1]
        exact if_congr (Nat.succ_le_succ_iff).symm rfl rfl

theorem length_matchCores :
    (matchCores (printedLines fold req file.content)).length = rgWeight fold req file := by
  rw [matchCores_printedLines, List.length_map, List.length_take, Nat.min_comm]
  rfl

theorem printedLines_eq_nil (none : rgWeight fold req file = 0) :
    printedLines fold req file.content = [] := by
  have quiet : reported fold req file.content = [] := by
    refine List.eq_nil_of_length_eq_zero ?_
    rw [reported_eq, List.length_map, List.length_take, Nat.min_comm]
    exact none
  rw [printedLines, quiet, List.filterMap_eq_nil_iff]
  intro line _
  rw [role, if_neg List.not_mem_nil, List.any_nil, if_neg Bool.false_ne_true]

theorem fileRecords_of_none (none : rgWeight fold req file = 0) :
    fileRecords fold req further file = [] := by
  rw [fileRecords, printedLines_eq_nil none]
  rfl

theorem fileRecords_of_some (some' : 0 < rgWeight fold req file) :
    fileRecords fold req further file =
      ⟨.begin, some (.text ('.' :: '/' :: file.path)), none, none, none⟩ ::
        ((printedLines fold req file.content).map (RgLine.record file.path further) ++
          [endRecord file.path]) := by
  rw [fileRecords]
  refine if_neg fun none => ?_
  rw [← length_matchCores, List.eq_nil_of_length_eq_zero none] at some'
  exact lt_irrefl 0 some'

theorem onRecord_begin (room : scanned < req.maxFiles) :
    onRecord req fromBase64 ⟨∅, files, total, truncated, scanned⟩
        ⟨.begin, some (.text ('.' :: '/' :: path)), none, none, none⟩ =
      (reading path ⟨[], []⟩ files total truncated (scanned + 1), false) :=
  if_neg (Nat.not_le_of_lt room)

theorem onRecord_begin_over (past : ¬ scanned < req.maxFiles) :
    onRecord req fromBase64 ⟨∅, files, total, truncated, scanned⟩
        ⟨.begin, some (.text ('.' :: '/' :: path)), none, none, none⟩ =
      (⟨∅, files, total, true, scanned⟩, true) :=
  if_pos (Nat.le_of_not_lt past)

theorem onRecord_end :
    onRecord req fromBase64 (reading path buf files total truncated scanned) (endRecord path) =
      (⟨∅, pushFile req files path buf, total, truncated, scanned⟩, false) := by
  rw [onRecord, endRecord]
  simp only [rgPath, Option.map_some, rgText, Option.bind_some, reading, OrderedMap.get_set_self]
  rw [delete_set_empty]

theorem untilStop_file (room : total < req.maxTotalMatches) (few : scanned < req.maxFiles)
    (some' : 0 < rgWeight fold req file) :
    untilStop (onRecord req fromBase64) ⟨∅, files, total, truncated, scanned⟩
        (fileRecords fold req further file ++ rest) =
      if req.maxTotalMatches - total ≤ rgWeight fold req file then
        (reading file.path ((upTo (req.maxTotalMatches - total)
            (printedLines fold req file.content)).foldl (FileBuf.read req) ⟨[], []⟩) files
            req.maxTotalMatches true (scanned + 1),
          (beyond (req.maxTotalMatches - total) (printedLines fold req file.content)).map
            (RgLine.record file.path further) ++ endRecord file.path :: rest)
      else
        untilStop (onRecord req fromBase64)
          ⟨∅, files ++ [rgFile fold req ⟨file, rgWeight fold req file, false⟩],
            total + rgWeight fold req file, truncated, scanned + 1⟩ rest := by
  have fits : (FileBuf.mk [] []).hits.length +
      (matchCores (printedLines fold req file.content)).length ≤ req.maxMatchesPerFile := by
    rw [length_matchCores, List.length_nil, Nat.zero_add]
    exact Nat.min_le_right _ _
  rw [fileRecords_of_some some', List.cons_append, List.append_assoc, List.singleton_append,
    untilStop_cons_of_go (onRecord_begin few), untilStop_lines room fits, length_matchCores]
  refine if_congr Iff.rfl rfl ?_
  rw [untilStop_cons_of_go onRecord_end, pushFile, if_pos]
  · rfl
  · rw [← List.length_map FsGrepMatch.core, foldl_read_core, List.map_nil, List.nil_append,
      length_matchCores]
    exact some'

/-! ## All files -/

variable (fold) (req) in
/-- The files of which ripgrep's matches are looked at. -/
def readFiles (scanned : ℕ) (order : List SearchedFile) : List SearchedFile :=
  (order.filter fun file => 0 < rgWeight fold req file).take (req.maxFiles - scanned)

variable (fold) (req) (further) in
/-- Where the reader is when it is told to stop, or at the end. -/
inductive Outcome (files : List FsGrepFileHit) (total : ℕ) (truncated : Bool) (scanned : ℕ)
    (order : List SearchedFile) : RgState × List RgJsonRecord → Prop
  | limit (before : List (Share SearchedFile)) (last : SearchedFile) (n scanned' : ℕ)
      (above below : List SearchedFile) (found : List FsGrepFileHit)
      (whole : order = above ++ last :: below)
      (full : req.maxTotalMatches - total ≤
        ((readFiles fold req scanned order).map (rgWeight fold req)).sum)
      (taken : shares (rgWeight fold req) (req.maxTotalMatches - total)
        (readFiles fold req scanned order) = before ++ [⟨last, n, true⟩])
      (pushed : found = files ++ before.map (rgFile fold req)) :
      Outcome files total truncated scanned order
        (reading last.path ((upTo n (printedLines fold req last.content)).foldl
          (FileBuf.read req) ⟨[], []⟩) found req.maxTotalMatches true scanned',
        (beyond n (printedLines fold req last.content)).map (RgLine.record last.path further) ++
          endRecord last.path :: rgRecords fold req further below)
  | tooMany (total' : ℕ) (found : List FsGrepFileHit) (rest : List RgJsonRecord)
      (room : total' < req.maxTotalMatches)
      (more : ((readFiles fold req scanned order).map (rgWeight fold req)).sum <
        req.maxTotalMatches - total)
      (past : req.maxFiles - scanned <
        (order.filter fun file => 0 < rgWeight fold req file).length)
      (pushed : found = files ++ (shares (rgWeight fold req) (req.maxTotalMatches - total)
        (readFiles fold req scanned order)).map (rgFile fold req)) :
      Outcome files total truncated scanned order (⟨∅, found, total', true, req.maxFiles⟩, rest)
  | done (total' scanned' : ℕ) (found : List FsGrepFileHit)
      (more : ((readFiles fold req scanned order).map (rgWeight fold req)).sum <
        req.maxTotalMatches - total)
      (few : (order.filter fun file => 0 < rgWeight fold req file).length ≤
        req.maxFiles - scanned)
      (pushed : found = files ++ (shares (rgWeight fold req) (req.maxTotalMatches - total)
        (readFiles fold req scanned order)).map (rgFile fold req)) :
      Outcome files total truncated scanned order (⟨∅, found, total', truncated, scanned'⟩, [])

theorem Outcome.cons_of_none (none : rgWeight fold req file = 0)
    {result : RgState × List RgJsonRecord}
    (outcome : Outcome fold req further files total truncated scanned order result) :
    Outcome fold req further files total truncated scanned (file :: order) result := by
  have same : (file :: order).filter (fun file => 0 < rgWeight fold req file) =
      order.filter fun file => 0 < rgWeight fold req file :=
    List.filter_cons_of_neg (by rw [none]; exact Bool.false_ne_true)
  have files' : readFiles fold req scanned (file :: order) = readFiles fold req scanned order :=
    congrArg (List.take (req.maxFiles - scanned)) same
  cases outcome with
  | limit before last n scanned' above below found whole full taken pushed =>
    rw [← files'] at full taken
    exact .limit before last n scanned' (file :: above) below found (by rw [whole]; rfl) full taken
      pushed
  | tooMany total' found rest room more past pushed =>
    rw [← files'] at more pushed
    rw [← same] at past
    exact .tooMany total' found rest room more past pushed
  | done total' scanned' found more few pushed =>
    rw [← files'] at more pushed
    rw [← same] at few
    exact .done total' scanned' found more few pushed

theorem filter_cons_of_some (some' : 0 < rgWeight fold req file) :
    (file :: order).filter (fun file => 0 < rgWeight fold req file) =
      file :: order.filter fun file => 0 < rgWeight fold req file :=
  List.filter_cons_of_pos (decide_eq_true some')

theorem readFiles_of_some (few : scanned < req.maxFiles) (some' : 0 < rgWeight fold req file) :
    readFiles fold req scanned (file :: order) =
      file :: readFiles fold req (scanned + 1) order := by
  rw [readFiles, filter_cons_of_some some',
    show req.maxFiles - scanned = req.maxFiles - (scanned + 1) + 1 by omega, List.take_succ_cons]
  rfl

theorem Outcome.cons_of_some (few : scanned < req.maxFiles) (some' : 0 < rgWeight fold req file)
    (left : rgWeight fold req file < req.maxTotalMatches - total)
    {result : RgState × List RgJsonRecord}
    (outcome : Outcome fold req further
      (files ++ [rgFile fold req ⟨file, rgWeight fold req file, false⟩])
      (total + rgWeight fold req file) truncated (scanned + 1) order result) :
    Outcome fold req further files total truncated scanned (file :: order) result := by
  have files' : readFiles fold req scanned (file :: order) = _ := readFiles_of_some few some'
  have shares' : shares (rgWeight fold req) (req.maxTotalMatches - total)
      (readFiles fold req scanned (file :: order)) =
        ⟨file, rgWeight fold req file, false⟩ ::
          shares (rgWeight fold req) (req.maxTotalMatches - (total + rgWeight fold req file))
            (readFiles fold req (scanned + 1) order) := by
    rw [files', shares_cons_of_lt some' left, Nat.sub_sub]
  have sum : ((readFiles fold req scanned (file :: order)).map (rgWeight fold req)).sum =
      rgWeight fold req file +
        ((readFiles fold req (scanned + 1) order).map (rgWeight fold req)).sum := by
    rw [files', List.map_cons, List.sum_cons]
  have count : ((file :: order).filter fun file => 0 < rgWeight fold req file).length =
      (order.filter fun file => 0 < rgWeight fold req file).length + 1 := by
    rw [filter_cons_of_some some', List.length_cons]
  cases outcome with
  | limit before last n scanned' above below found whole full taken pushed =>
    refine .limit (⟨file, rgWeight fold req file, false⟩ :: before) last n scanned'
      (file :: above) below found (by rw [whole]; rfl) ?_ ?_ ?_
    · omega
    · rw [shares', taken, List.cons_append]
    · rw [pushed, List.append_assoc, List.singleton_append, ← List.map_cons]
  | tooMany total' found rest room more past pushed =>
    refine .tooMany total' found rest room (by omega) (by omega) ?_
    rw [pushed, List.append_assoc, List.singleton_append, ← List.map_cons, ← shares']
  | done total' scanned' found more few' pushed =>
    refine .done total' scanned' found (by omega) (by omega) ?_
    rw [pushed, List.append_assoc, List.singleton_append, ← List.map_cons, ← shares']

theorem untilStop_outcome (room : total < req.maxTotalMatches) (few : scanned ≤ req.maxFiles) :
    Outcome fold req further files total truncated scanned order
      (untilStop (onRecord req fromBase64) ⟨∅, files, total, truncated, scanned⟩
        (rgRecords fold req further order)) := by
  induction order generalizing files total scanned with
  | nil =>
    have none : readFiles fold req scanned [] = [] := List.take_nil
    refine .done total scanned files ?_ (Nat.zero_le _) ?_
    · rw [none]
      exact Nat.sub_pos_of_lt room
    · rw [none, shares_nil, List.map_nil, List.append_nil]
  | cons file order ih =>
    have records : rgRecords fold req further (file :: order) =
        fileRecords fold req further file ++ rgRecords fold req further order := by
      rw [rgRecords, List.flatMap_cons, List.append_assoc]
      rfl
    rw [records]
    rcases Nat.eq_zero_or_pos (rgWeight fold req file) with none | some'
    · rw [fileRecords_of_none none, List.nil_append]
      exact (ih room few).cons_of_none none
    · by_cases open' : scanned < req.maxFiles
      · rw [untilStop_file room open' some']
        split
        case isTrue full =>
          have files' : readFiles fold req scanned (file :: order) = _ :=
            readFiles_of_some open' some'
          refine .limit [] file (req.maxTotalMatches - total) (scanned + 1) [] order files rfl ?_ ?_
            (List.append_nil _).symm
          · rw [files', List.map_cons, List.sum_cons]
            omega
          · rw [files', shares_cons_of_le (Nat.sub_pos_of_lt room) full, List.nil_append]
        case isFalse left =>
          exact (ih (by omega) open').cons_of_some open' some' (Nat.lt_of_not_le left)
      · obtain rfl : scanned = req.maxFiles := by omega
        have none : readFiles fold req req.maxFiles (file :: order) = [] := by
          rw [readFiles, Nat.sub_self, List.take_zero]
        rw [fileRecords_of_some some', List.cons_append,
          untilStop_cons_of_stop (onRecord_begin_over open')]
        refine .tooMany total files _ room ?_ ?_ ?_
        · rw [none]
          exact Nat.sub_pos_of_lt room
        · rw [filter_cons_of_some some', List.length_cons]
          omega
        · rw [none, shares_nil, List.map_nil, List.append_nil]

/-! ## After the stop -/

section

variable {m : OrderedMap (List Char) FileBuf} {p q : List Char} {last : FileBuf}

/-- The buffers with matches. -/
def live (m : OrderedMap (List Char) FileBuf) : List (List Char × FileBuf) :=
  m.entries.filter fun entry => 0 < entry.2.hits.length

theorem mem_live (some' : 0 < buf.hits.length) : (p, buf) ∈ live m ↔ m.get p = some buf := by
  rw [live, List.mem_filter, OrderedMap.mem_entries, and_iff_left (decide_eq_true some')]

theorem close_files : (state.close req).files =
    state.files ++ (live state.fileBuf).map fun entry => ⟨entry.1, entry.2.finish req⟩ := by
  have folded (entries : List (List Char × FileBuf)) (files : List FsGrepFileHit) :
      entries.foldl (fun files entry => pushFile req files entry.1 entry.2) files =
        files ++ (entries.filter fun entry => 0 < entry.2.hits.length).map fun entry =>
          ⟨entry.1, entry.2.finish req⟩ := by
    induction entries generalizing files with
    | nil => exact (List.append_nil _).symm
    | cons entry entries ih =>
      obtain ⟨p, buf⟩ := entry
      rw [List.foldl_cons, ih]
      simp only [pushFile]
      by_cases some' : 0 < buf.hits.length
      · rw [if_pos some', List.filter_cons_of_pos, List.map_cons, List.append_assoc]
        · rfl
        · exact decide_eq_true some'
      · rw [if_neg some', List.filter_cons_of_neg]
        rw [decide_eq_true_eq]
        exact some'
  exact folded state.fileBuf.entries state.files

theorem live_set (quiet : ∀ old, m.get p = some old → old.hits = []) (quiet' : buf.hits = []) :
    live (m.set p buf) = live m := by
  have none (buf : FileBuf) (none : buf.hits = []) : ¬ 0 < buf.hits.length := by
    rw [none]
    exact lt_irrefl 0
  have replaced (entries : List (List Char × FileBuf))
      (quiet : ∀ old, (p, old) ∈ entries → old.hits = []) :
      (entries.map fun entry => if entry.1 = p then (p, buf) else entry).filter
        (fun entry => 0 < entry.2.hits.length) =
      entries.filter fun entry => 0 < entry.2.hits.length := by
    induction entries with
    | nil => rfl
    | cons entry entries ih =>
      have rest := ih fun old mem => quiet old (List.mem_cons_of_mem _ mem)
      obtain ⟨k, old⟩ := entry
      rw [List.map_cons]
      by_cases same : k = p
      · subst same
        rw [if_pos rfl, List.filter_cons_of_neg, List.filter_cons_of_neg, rest]
        · rw [decide_eq_true_eq]
          exact none old (quiet old (List.mem_cons_self ..))
        · rw [decide_eq_true_eq]
          exact none buf quiet'
      · rw [if_neg same, List.filter_cons, List.filter_cons, rest]
  rw [OrderedMap.set]
  split
  case isTrue => exact replaced m.entries fun old mem => quiet old (OrderedMap.mem_entries.1 mem)
  case isFalse =>
    rw [live, List.filter_append, List.filter_cons_of_neg, List.filter_nil, List.append_nil]
    · rfl
    · rw [decide_eq_true_eq]
      exact none buf quiet'

theorem live_delete : live (m.delete p) = (live m).filter fun entry => entry.1 ≠ p := by
  rw [live, live, OrderedMap.delete, List.filter_filter, List.filter_filter]
  exact List.filter_congr fun entry _ => Bool.and_comm _ _

/-- No more matches are taken, and the last file's are in its buffer or pushed. -/
structure Settled (req : FsGrepRequest) (q : List Char) (last : FileBuf)
    (files : List FsGrepFileHit) (state : RgState) : Prop where
  full : req.maxTotalMatches ≤ state.totalMatches
  truncated : state.truncated = true
  stage : live state.fileBuf = [(q, last)] ∧ state.files = files ∨
    live state.fileBuf = [] ∧ state.files = files ++ [⟨q, last.finish req⟩]

theorem Settled.close (settled : Settled req q last files state) :
    (state.close req).files = files ++ [⟨q, last.finish req⟩] := by
  rw [close_files]
  rcases settled.stage with ⟨one, same⟩ | ⟨none, same⟩
  · rw [one, same]
    rfl
  · rw [none, same, List.map_nil, List.append_nil]

theorem Settled.quiet (settled : Settled req q last files state) (other : p ≠ q)
    (found : state.fileBuf.get p = some buf) : buf.hits = [] := by
  by_contra some'
  have mem := (mem_live (List.length_pos_of_ne_nil some')).2 found
  rcases settled.stage with ⟨one, -⟩ | ⟨none, -⟩
  · rw [one, List.mem_singleton] at mem
    exact other (congrArg Prod.fst mem)
  · rw [none] at mem
    cases mem

/-- Further records leave it so, except that lines around a match of the last file would be read. -/
theorem Settled.onRecord {record : RgJsonRecord} (settled : Settled req q last files state)
    (other : record.type = .context ∨ record.type = .begin →
      rgPath fromBase64 record.path ≠ some q) :
    Settled req q last files (onRecord req fromBase64 state record).1 := by
  obtain ⟨full, truncated, stage⟩ := id settled
  rw [Grep.onRecord]
  split
  case h_1 type =>
    split
    case h_1 => exact settled
    case h_2 p path =>
      have ne : p ≠ q := fun same => other (.inr type) (by rw [path, same])
      split
      case isTrue => exact ⟨full, rfl, stage⟩
      case isFalse =>
        refine ⟨full, truncated, ?_⟩
        rwa [live_set (fun old found => settled.quiet ne found) rfl]
  case h_2 type =>
    split
    case h_1 => exact settled
    case h_2 p buf found =>
      obtain ⟨p', path, found⟩ := Option.bind_eq_some_iff.1 found
      obtain ⟨buf', found, same⟩ := Option.map_eq_some_iff.1 found
      cases same
      have ne : p ≠ q := fun same => other (.inl type) (by rw [path, same])
      have kept (text : List Char) :
          live (state.fileBuf.set p (buf.context req text)) = live state.fileBuf :=
        live_set (fun old found => settled.quiet ne found) (settled.quiet ne found : buf.hits = [])
      refine ⟨full, truncated, ?_⟩
      simp only [kept]
      exact stage
  case h_3 =>
    rw [if_pos full]
    exact ⟨full, rfl, stage⟩
  case h_4 =>
    split
    case h_1 => exact settled
    case h_2 p buf found =>
      obtain ⟨p', path, found⟩ := Option.bind_eq_some_iff.1 found
      obtain ⟨buf', found, same⟩ := Option.map_eq_some_iff.1 found
      cases same
      refine ⟨full, truncated, ?_⟩
      simp only [live_delete, pushFile]
      by_cases some' : 0 < buf.hits.length
      · have mem := (mem_live some').2 found
        rw [if_pos some']
        rcases stage with ⟨one, same⟩ | ⟨none, -⟩
        · rw [one, List.mem_singleton] at mem
          cases mem
          refine .inr ⟨?_, by rw [same]⟩
          rw [one]
          exact List.filter_cons_of_neg (by simp)
        · rw [none] at mem
          cases mem
      · rw [if_neg some']
        have kept :
            (live state.fileBuf).filter (fun entry => entry.1 ≠ p) = live state.fileBuf := by
          refine List.filter_eq_self.2 fun entry mem => decide_eq_true fun same => some' ?_
          obtain ⟨inside, pos⟩ := List.mem_filter.1 mem
          obtain ⟨k, old⟩ := entry
          cases same
          cases Option.some.inj (found.symm.trans (OrderedMap.mem_entries.1 inside))
          exact of_decide_eq_true pos
        rwa [kept]
  case h_5 => exact settled

end

end KimiCli.Grep
