import KimiCli.Fs.RgOutput

/-!
# One file in both searches

The matches that are read from ripgrep's records of a file, and when they are those that
`grepWithNode` finds in it.
-/

namespace KimiCli.Grep

variable {fold : Char → Char} {req : FsGrepRequest} {content : List Char} {hit : Hit}
  {later : List Hit} {buf : FileBuf} {lines : List RgLine} {n : ℕ} {last : Bool}

/-! ## The records around the first match -/

theorem index_of_mem_later {below : List (List Char)} {k : ℕ} {other : Hit}
    (mem : other ∈ (below.zipIdx k).filterMap fun (raw, i) =>
      (exec fold req (lineContent raw)).map (⟨i, stripTrailingNewline raw, ·⟩)) :
    k ≤ other.index := by
  rw [List.mem_filterMap] at mem
  obtain ⟨line, mem, same⟩ := mem
  obtain ⟨front, -, rfl⟩ := Option.map_eq_some_iff.1 same
  exact List.le_snd_of_mem_zipIdx mem

/-- Before the first match ripgrep prints the lines that `grepWithNode` takes; after it the same
lines, when there is no other match, except for an empty one at the end of the file. -/
theorem printedLines_cons (found : rgHits fold req content = hit :: later) :
    ∃ above raw below,
      printedLines fold req content =
        above ++ ⟨raw, hit.index, some (encodeChars hit.front).length⟩ :: below ∧
      stripTrailingNewline raw = hit.text ∧
      (∀ line ∈ above, line.start = none) ∧
      above.map RgLine.text = linesBefore req (splitLines content) hit.index ∧
      (∀ line ∈ below, hit.index < line.index ∧ line.index < (rgLines content).length) ∧
      (later.take (req.maxMatchesPerFile - 1) = [] → (∀ line ∈ below, line.start = none) ∧
        below.map RgLine.text =
          linesAfter req ((rgLines content).map stripTrailingNewline) hit.index) := by
  obtain ⟨above, raw, below, whole, index, text, here, -, tail⟩ := rgHits_cons found
  have reports : reported fold req content = _ := reported_eq
  obtain ⟨m, limit⟩ := Nat.exists_eq_succ_of_ne_zero req.maxMatchesPerFile_pos.ne'
  rw [found, limit, Nat.succ_eq_add_one, List.take_succ_cons, List.map_cons, index] at reports
  have late (i : ℕ) (mem : i ∈ (later.take m).map Hit.index) : above.length < i := by
    obtain ⟨other, inside, rfl⟩ := List.mem_map.1 mem
    rw [tail] at inside
    exact index_of_mem_later (List.mem_of_mem_take inside)
  have before (line : List Char × ℕ) (mem : line ∈ above.zipIdx) :
      role fold req (reported fold req content) line =
        if above.length ≤ line.2 + req.contextLines then some (RgLine.mk line.1 line.2 none)
        else none := by
    have small : line.2 < above.length := by
      have := List.snd_lt_of_mem_zipIdx mem
      omega
    have absent : line.2 ∉ reported fold req content := by
      rw [reports, List.mem_cons, not_or]
      exact ⟨small.ne, fun mem => absurd (late _ mem) (by omega)⟩
    rw [role, if_neg absent, reports]
    refine if_congr ?_ rfl rfl
    rw [List.any_eq_true]
    constructor
    · rintro ⟨i, mem, near⟩
      rw [Bool.and_eq_true, decide_eq_true_eq, decide_eq_true_eq] at near
      rcases List.mem_cons.1 mem with rfl | mem
      · exact near.1
      · have := late i mem
        omega
    · intro near
      refine ⟨above.length, List.mem_cons_self .., ?_⟩
      rw [Bool.and_eq_true, decide_eq_true_eq, decide_eq_true_eq]
      omega
  have at' : role fold req (reported fold req content) (raw, above.length) =
      some ⟨raw, above.length, some (encodeChars hit.front).length⟩ := by
    rw [role, if_pos (by rw [reports]; exact List.mem_cons_self ..), here]
    rfl
  have printed : printedLines fold req content =
      (above.zipIdx.filterMap fun line =>
        if above.length ≤ line.2 + req.contextLines then some (RgLine.mk line.1 line.2 none)
        else none) ++
      ⟨raw, above.length, some (encodeChars hit.front).length⟩ ::
        (below.zipIdx (above.length + 1)).filterMap
          (role fold req (reported fold req content)) := by
    rw [printedLines, whole, List.zipIdx_append, List.filterMap_append, List.zipIdx_cons,
      Nat.zero_add, List.filterMap_cons, at', List.filterMap_congr before]
  have quiet (lines : List (List Char)) (k : ℕ) (p : List Char × ℕ → Prop) [DecidablePred p]
      (line : RgLine) (mem : line ∈ (lines.zipIdx k).filterMap fun line =>
        if p line then some (RgLine.mk line.1 line.2 none) else none) : line.start = none := by
    obtain ⟨numbered, -, same⟩ := List.mem_filterMap.1 mem
    split at same
    · cases same
      rfl
    · cases same
  refine ⟨_, raw, _, index ▸ printed, text.symm, quiet _ _ _, ?_, ?_, ?_⟩
  · rw [filterMap_before, linesBefore, splitLines_eq, whole, index, Nat.sub_zero, List.map_append,
      List.append_assoc, List.take_left' (List.length_map _), List.map_drop]
  · intro line mem
    obtain ⟨numbered, inside, same⟩ := List.mem_filterMap.1 mem
    have at' : line.index = numbered.2 := by
      rw [role] at same
      split at same
      · obtain ⟨front, -, rfl⟩ := Option.map_eq_some_iff.1 same
        rfl
      · split at same <;> cases same
        rfl
    have low := List.le_snd_of_mem_zipIdx inside
    have high := List.snd_lt_of_mem_zipIdx inside
    rw [at', index, whole, List.length_append, List.length_cons]
    omega
  · intro alone
    rw [limit, Nat.succ_eq_add_one, Nat.add_sub_cancel] at alone
    rw [alone, List.map_nil] at reports
    have after (line : List Char × ℕ) (mem : line ∈ below.zipIdx (above.length + 1)) :
        role fold req (reported fold req content) line =
          if line.2 ≤ above.length + req.contextLines then some (RgLine.mk line.1 line.2 none)
          else none := by
      have large : above.length + 1 ≤ line.2 := List.le_snd_of_mem_zipIdx mem
      rw [role, reports, if_neg (by rw [List.mem_singleton]; omega)]
      refine if_congr ?_ rfl rfl
      rw [List.any_cons, List.any_nil, Bool.or_false, Bool.and_eq_true, decide_eq_true_eq,
        decide_eq_true_eq]
      omega
    rw [index, List.filterMap_congr after]
    refine ⟨quiet _ _ _, ?_⟩
    have split : above.map stripTrailingNewline ++ stripTrailingNewline raw ::
        below.map stripTrailingNewline =
        (above.map stripTrailingNewline ++ [stripTrailingNewline raw]) ++
          below.map stripTrailingNewline := by
      rw [List.append_assoc, List.singleton_append]
    rw [filterMap_after, linesAfter, whole, List.map_append, List.map_cons, split,
      List.drop_left' (by simp), List.map_take]
    exact congrArg (List.take · _) (by omega)

/-! ## Reading records -/

def FsGrepMatch.core (found : FsGrepMatch) : ℕ × ℕ × List Char :=
  (found.line, found.col, found.text)

variable {line : RgLine}

theorem matchCores_context (quiet : line.start = none) :
    matchCores (line :: lines) = matchCores lines := by
  rw [matchCores, List.filterMap_cons, quiet]
  rfl

theorem matchCores_match {start : ℕ} (at' : line.start = some start) :
    matchCores (line :: lines) =
      (line.index + 1, start + 1, line.text) :: matchCores lines := by
  rw [matchCores, List.filterMap_cons, at']
  rfl

theorem foldl_read_core :
    (lines.foldl (FileBuf.read req) buf).hits.map FsGrepMatch.core =
      buf.hits.map FsGrepMatch.core ++ matchCores lines := by
  induction lines generalizing buf with
  | nil => exact (List.append_nil _).symm
  | cons line lines ih =>
    rw [List.foldl_cons, ih, FileBuf.read]
    cases start : line.start with
    | none => rw [matchCores_context start, FileBuf.context]
    | some =>
      change (buf.hits ++ [_]).map FsGrepMatch.core ++ _ = _
      rw [matchCores_match start, List.map_append, List.append_assoc]
      rfl

theorem finish_core : (buf.finish req).map FsGrepMatch.core = buf.hits.map FsGrepMatch.core := by
  rw [FileBuf.finish]
  rcases List.eq_nil_or_concat buf.hits with none | ⟨hits, found, some'⟩
  · rw [none]
    rfl
  · rw [some', List.concat_eq_append, List.getLast?_concat]
    simp only
    split
    case isTrue =>
      rw [List.dropLast_concat, List.map_append, List.map_append]
      rfl
    case isFalse => rfl

theorem matchCores_upTo (pos : 0 < n) : matchCores (upTo n lines) = (matchCores lines).take n := by
  induction lines generalizing n with
  | nil => rw [upTo, matchCores, List.filterMap_nil, List.take_nil]
  | cons line lines ih =>
    rw [upTo]
    cases start : line.start with
    | none =>
      rw [Option.isSome_none, if_neg Bool.false_ne_true, matchCores_context start,
        matchCores_context start, ih pos]
    | some =>
      obtain ⟨n, rfl⟩ := Nat.exists_eq_succ_of_ne_zero pos.ne'
      rw [Option.isSome_some, if_pos rfl, matchCores_match start, Nat.succ_eq_add_one,
        Nat.add_sub_cancel, List.take_succ_cons]
      split
      case isTrue one =>
        rw [show n = 0 by omega, List.take_zero, matchCores_match start]
        rfl
      case isFalse more => rw [matchCores_match start, ih (by omega)]

theorem foldl_read_after (lines : List RgLine) (none : ∀ found ∈ buf.hits, found.after = []) :
    ∀ found ∈ (lines.foldl (FileBuf.read req) buf).hits, found.after = [] := by
  induction lines generalizing buf with
  | nil => exact none
  | cons line lines ih =>
    refine ih ?_
    rw [FileBuf.read]
    split
    case h_1 =>
      intro found mem
      rcases List.mem_append.1 mem with mem | mem
      · exact none found mem
      · rw [List.mem_singleton.1 mem]
    case h_2 => exact none

theorem foldl_read_context (quiet : ∀ line ∈ lines, line.start = none)
    (few : buf.pending.length + lines.length ≤ req.contextLines * 2) :
    lines.foldl (FileBuf.read req) buf =
      ⟨buf.hits, buf.pending ++ lines.map RgLine.text⟩ := by
  induction lines generalizing buf with
  | nil =>
    rw [List.map_nil, List.append_nil]
    rfl
  | cons line lines ih =>
    rw [List.forall_mem_cons] at quiet
    rw [List.length_cons] at few
    have one : buf.read req line = ⟨buf.hits, buf.pending ++ [line.text]⟩ := by
      rw [FileBuf.read, quiet.1]
      simp only [FileBuf.context]
      rw [if_neg]
      · rfl
      · rw [List.length_append, List.length_singleton]
        omega
    rw [List.foldl_cons, one, ih quiet.2, List.append_assoc, List.singleton_append, List.map_cons]
    rw [List.length_append, List.length_singleton]
    omega

theorem foldl_read_bare (buf : FileBuf) (bare : req.contextLines = 0)
    (all : ∀ line ∈ lines, line.start.isSome) (clear : buf.pending = [])
    (none : ∀ found ∈ buf.hits, found.before = []) :
    (lines.foldl (FileBuf.read req) buf).pending = [] ∧
      ∀ found ∈ (lines.foldl (FileBuf.read req) buf).hits, found.before = [] := by
  induction lines generalizing buf with
  | nil => exact ⟨clear, none⟩
  | cons line lines ih =>
    rw [List.forall_mem_cons] at all
    obtain ⟨start, some'⟩ := Option.isSome_iff_exists.1 all.1
    rw [List.foldl_cons, FileBuf.read, some']
    refine ih _ all.2 rfl fun found mem => ?_
    rcases List.mem_append.1 mem with mem | mem
    · exact none found mem
    · rw [List.mem_singleton.1 mem, sliceEnd, if_pos bare]
      exact clear

/-! ## The first match -/

theorem length_linesBefore (texts : List (List Char)) (i : ℕ) :
    (linesBefore req texts i).length ≤ req.contextLines := by
  rw [linesBefore, List.length_drop, List.length_take]
  omega

theorem length_linesAfter (texts : List (List Char)) (i : ℕ) :
    (linesAfter req texts i).length ≤ req.contextLines := List.length_take_le _ _

theorem sliceEnd_of_le {count : ℕ} {items : List (List Char)} (few : items.length ≤ count) :
    sliceEnd count items = items := by
  rw [sliceEnd, Nat.sub_eq_zero_of_le few, List.drop_zero, ite_self]

theorem upTo_one {above below : List RgLine} (quiet : ∀ line ∈ above, line.start = none)
    (some' : line.start.isSome) :
    upTo 1 (above ++ line :: below) = above ++ [line] := by
  induction above with
  | nil => rw [List.nil_append, upTo, if_pos some', if_pos le_rfl, List.nil_append]
  | cons other above ih =>
    rw [List.forall_mem_cons] at quiet
    rw [List.cons_append, upTo, quiet.1, Option.isSome_none, if_neg Bool.false_ne_true, ih quiet.2,
      List.cons_append]

/-- One match is read with the lines before it, and with those after it when the file is read to
its end. -/
theorem rgRead_one (found : rgHits fold req content = hit :: later)
    (alone : last = false → later.take (req.maxMatchesPerFile - 1) = []) :
    rgRead fold req 1 last content = [{
      line := hit.index + 1
      col := (encodeChars hit.front).length + 1
      text := hit.text
      before := linesBefore req (splitLines content) hit.index
      after := if last then [] else
        linesAfter req ((rgLines content).map stripTrailingNewline) hit.index }] := by
  obtain ⟨above, raw, below, printed, text, quiet, before, -, after⟩ :=
    printedLines_cons found
  have few : above.length ≤ req.contextLines := by
    rw [← List.length_map RgLine.text, before]
    exact length_linesBefore _ _
  have upto : (above ++ [RgLine.mk raw hit.index (some (encodeChars hit.front).length)]).foldl
      (FileBuf.read req) (FileBuf.mk [] []) =
      ⟨[⟨hit.index + 1, (encodeChars hit.front).length + 1, hit.text,
        linesBefore req (splitLines content) hit.index, []⟩], []⟩ := by
    rw [List.foldl_append, foldl_read_context quiet (by simp only [List.length_nil]; omega)]
    change FileBuf.mk ([] ++ [FsGrepMatch.mk _ _ _ (sliceEnd _ ([] ++ _)) []]) [] = _
    rw [text, before, List.nil_append, List.nil_append, sliceEnd_of_le (length_linesBefore _ _)]
  rw [rgRead, printed]
  cases last with
  | true =>
    simp only [if_true]
    rw [upTo_one quiet rfl, upto]
    rfl
  | false =>
    obtain ⟨silent, texts⟩ := after (alone rfl)
    have short : below.length ≤ req.contextLines := by
      rw [← List.length_map RgLine.text, texts]
      exact length_linesAfter _ _
    simp only [Bool.false_eq_true, if_false]
    rw [← List.singleton_append, ← List.append_assoc, List.foldl_append, upto,
      foldl_read_context silent (by simp only [List.length_nil]; omega), texts, List.nil_append]
    rw [FileBuf.finish]
    simp only [List.getLast?_singleton, List.dropLast_singleton, List.nil_append]
    rw [List.take_of_length_le (length_linesAfter _ _)]
    split
    case isTrue => rfl
    case isFalse none =>
      rw [List.eq_nil_of_length_eq_zero (Nat.eq_zero_of_not_pos none)]

/-! ## When both searches find the same -/

theorem length_encodeChar (c : Char) :
    (if c.toNat < 0x10000 then 1 else 2) ≤ (encodeChar c).length ∧
    ((encodeChar c).length = (if c.toNat < 0x10000 then 1 else 2) ↔ c.toNat < 0x80) := by
  rcases Nat.lt_or_ge c.toNat 0x80 with ascii | wide
  · rw [encodeChar_of_ascii ascii, if_pos (by omega)]
    exact ⟨le_rfl, iff_of_true rfl ascii⟩
  · have other : ¬ c.toNat < 0x80 := by omega
    have long : (if c.toNat < 0x10000 then 1 else 2) < (encodeChar c).length := by
      simp only [encodeChar, if_neg other]
      split_ifs <;> (simp; try omega)
    exact ⟨long.le, iff_of_false long.ne' other⟩

theorem length_encodeChars (cs : List Char) : utf16Length cs ≤ (encodeChars cs).length ∧
    ((encodeChars cs).length = utf16Length cs ↔ ∀ c ∈ cs, c.toNat < 0x80) := by
  induction cs with
  | nil => exact ⟨le_rfl, iff_of_true rfl (by simp)⟩
  | cons c cs ih =>
    have one := length_encodeChar c
    have sum : utf16Length (c :: cs) = (if c.toNat < 0x10000 then 1 else 2) + utf16Length cs := by
      rw [utf16Length, utf16Length, List.map_cons, List.sum_cons]
    rw [encodeChars_cons, List.length_append, List.forall_mem_cons, ← one.2, ← ih.2, sum]
    omega

/-! ### Lines that end in a carriage return -/

section

variable {same : Char → Char → Bool} {pattern line front : List Char} (more : List Char)

theorem length_of_begins (starts : begins same pattern line = true) :
    pattern.length ≤ line.length := by
  induction pattern generalizing line with
  | nil => exact Nat.zero_le _
  | cons p pattern ih =>
    rcases line with - | ⟨c, line⟩
    · cases starts
    · rw [begins, Bool.and_eq_true] at starts
      exact Nat.succ_le_succ (ih starts.2)

theorem begins_append (room : pattern.length ≤ line.length) :
    begins same pattern (line ++ more) = begins same pattern line := by
  induction pattern generalizing line with
  | nil => rw [begins, begins]
  | cons p pattern ih =>
    rcases line with - | ⟨c, line⟩
    · exact absurd room (Nat.not_succ_le_zero _)
    · rw [List.cons_append, begins, begins, ih (Nat.le_of_succ_le_succ room)]

theorem length_of_occurrence (found : occurrence same pattern line = some front) :
    pattern.length ≤ line.length := by
  induction line generalizing front with
  | nil =>
    rw [occurrence] at found
    split at found
    case isTrue starts => exact length_of_begins starts
    case isFalse => cases found
  | cons c line ih =>
    rw [occurrence] at found
    split at found
    case isTrue starts => exact length_of_begins starts
    case isFalse =>
      obtain ⟨inner, found', -⟩ := Option.map_eq_some_iff.1 found
      exact (ih found').trans (Nat.le_succ _)

theorem occurrence_append (found : occurrence same pattern line = some front) :
    occurrence same pattern (line ++ more) = some front := by
  induction line generalizing front with
  | nil =>
    have none : pattern = [] := List.eq_nil_of_length_eq_zero
      (Nat.le_zero.1 (length_of_occurrence found))
    subst none
    cases found
    cases more <;> rfl
  | cons c line ih =>
    rw [List.cons_append, occurrence, ← List.cons_append,
      begins_append more (length_of_occurrence found)]
    rw [occurrence] at found
    split
    case isTrue starts => rwa [if_pos starts] at found
    case isFalse none =>
      rw [if_neg none] at found
      obtain ⟨inner, found', rfl⟩ := Option.map_eq_some_iff.1 found
      rw [ih found']
      rfl

end

theorem stripTrailingNewline_append (raw : List Char) :
    ∃ more, lineContent raw = stripTrailingNewline raw ++ more := by
  rw [lineContent, stripTrailingNewline]
  split_ifs with lf crlf
  · refine ⟨(raw.take (raw.length - 1)).drop (raw.length - 2), ?_⟩
    conv_lhs => rw [← List.take_append_drop (raw.length - 2) (raw.take (raw.length - 1))]
    rw [List.take_take, Nat.min_eq_left (by omega)]
  · exact ⟨[], (List.append_nil _).symm⟩
  · rename_i crlf
    exact absurd ((List.suffix_append ['\r'] ['\n']).trans crlf) lf
  · exact ⟨[], (List.append_nil _).symm⟩

theorem eq_of_index {found : Hit} (mem : found ∈ hits fold req content)
    (mem' : hit ∈ rgHits fold req content) (at' : hit.index = found.index) : hit = found := by
  rw [hits_eq] at mem
  obtain ⟨⟨raw, i⟩, inside, same⟩ := List.mem_filterMap.1 mem
  obtain ⟨⟨raw', i'⟩, inside', same'⟩ := List.mem_filterMap.1 mem'
  obtain ⟨front, found, rfl⟩ := Option.map_eq_some_iff.1 same
  obtain ⟨front', found', rfl⟩ := Option.map_eq_some_iff.1 same'
  cases at'
  rw [List.mem_zipIdx_iff_getElem?] at inside inside'
  cases Option.some.inj (inside.symm.trans inside')
  obtain ⟨more, longer⟩ := stripTrailingNewline_append raw
  have first := occurrence_append more found
  rw [← longer] at first
  cases Option.some.inj (found'.symm.trans first)
  rfl

theorem eq_of_map_eq {α β : Type*} {f : α → β} {l l' : List α} (same : l.map f = l'.map f)
    (inj : ∀ a ∈ l, ∀ b ∈ l', f a = f b → a = b) : l = l' := by
  induction l generalizing l' with
  | nil => exact (List.map_eq_nil_iff.1 same.symm).symm
  | cons a l ih =>
    rcases l' with - | ⟨b, l'⟩
    · cases same
    · rw [List.map_cons, List.map_cons, List.cons.injEq] at same
      rw [inj a (List.mem_cons_self ..) b (List.mem_cons_self ..) same.1, ih same.2]
      exact fun a mem b mem' => inj a (List.mem_cons_of_mem _ mem) b (List.mem_cons_of_mem _ mem')

/-! ### Comparing -/

/-- `n` matches of a file, the last of all if `last`, are the same in both searches: ripgrep finds
them in the same lines, with only ASCII before them; and without context, or when there is one match
only, and as many lines come after it, or as few, for both. -/
structure Comparable (fold : Char → Char) (req : FsGrepRequest) (n : ℕ) (last : Bool)
    (content : List Char) : Prop where
  sameLines : (rgHits fold req content).take n = (hits fold req content).take n
  ascii : ∀ hit ∈ (hits fold req content).take n, ∀ c ∈ hit.front, c.toNat < 0x80
  context : req.contextLines = 0 ∨ n = 1 ∧ ∀ hit ∈ (hits fold req content).take n,
    if last then (splitLines content).length ≤ hit.index + 1
    else ¬ ['\n'] <:+ content ∨ hit.index + 1 + req.contextLines ≤ (rgLines content).length

def Hit.nodeCore (hit : Hit) : ℕ × ℕ × List Char :=
  (hit.index + 1, utf16Length hit.front + 1, hit.text)

theorem rgRead_core (pos : 0 < n) (few : n ≤ req.maxMatchesPerFile)
    (all : last = false → n = min (rgHits fold req content).length req.maxMatchesPerFile) :
    (rgRead fold req n last content).map FsGrepMatch.core =
      ((rgHits fold req content).take n).map Hit.rgCore := by
  rw [rgRead, finish_core, foldl_read_core, List.map_nil, List.nil_append]
  cases last with
  | true =>
    rw [if_pos rfl, matchCores_upTo pos, matchCores_printedLines, ← List.map_take,
      List.take_take, Nat.min_eq_left few]
  | false =>
    rw [if_neg Bool.false_ne_true, matchCores_printedLines, all rfl]
    rcases Nat.le_total (rgHits fold req content).length req.maxMatchesPerFile with less | more
    · rw [Nat.min_eq_left less, List.take_of_length_le less, List.take_length]
    · rw [Nat.min_eq_right more]

theorem cores_eq_iff (found : List Hit) :
    found.map Hit.rgCore = found.map Hit.nodeCore ↔
      ∀ hit ∈ found, ∀ c ∈ hit.front, c.toNat < 0x80 := by
  rw [List.map_inj_left]
  refine forall₂_congr fun hit _ => ?_
  rw [← (length_encodeChars hit.front).2, Hit.rgCore, Hit.nodeCore, Prod.mk.injEq, Prod.mk.injEq,
    and_iff_right rfl, and_iff_left rfl, Nat.add_right_cancel_iff]

theorem sameLines_of_cores (cores : ((rgHits fold req content).take n).map Hit.rgCore =
      ((hits fold req content).take n).map Hit.nodeCore) :
    (rgHits fold req content).take n = (hits fold req content).take n := by
  have indices := congrArg (List.map fun core => core.1 - 1) cores
  rw [List.map_map, List.map_map] at indices
  refine eq_of_map_eq indices fun hit mem found mem' same => ?_
  exact eq_of_index (List.mem_of_mem_take mem') (List.mem_of_mem_take mem) same

theorem index_lt_rgLines (mem : hit ∈ rgHits fold req content) :
    hit.index < (rgLines content).length := by
  obtain ⟨line, inside, same⟩ := List.mem_filterMap.1 mem
  obtain ⟨front, -, rfl⟩ := Option.map_eq_some_iff.1 same
  have := List.snd_lt_of_mem_zipIdx inside
  omega

theorem length_splitLines_ge : (rgLines content).length ≤ (splitLines content).length := by
  rw [splitLines_eq, List.length_append, List.length_map]
  exact Nat.le_add_right _ _

/-- The lines after a match are the same in both searches unless there is room for the empty line
at the end of the file. -/
theorem linesAfter_eq_iff {i : ℕ} (inside : i < (rgLines content).length) :
    linesAfter req ((rgLines content).map stripTrailingNewline) i =
        linesAfter req (splitLines content) i ↔
      ¬ ['\n'] <:+ content ∨ i + 1 + req.contextLines ≤ (rgLines content).length := by
  have some' : content ≠ [] := by
    rintro rfl
    exact absurd inside (Nat.not_lt_zero _)
  have length : i + 1 ≤ ((rgLines content).map stripTrailingNewline).length := by
    rw [List.length_map]
    exact inside
  rw [linesAfter, linesAfter, splitLines_eq, List.drop_append_of_le_length length, emptyTail]
  simp only [some', false_or]
  by_cases ends : ['\n'] <:+ content
  · rw [if_pos ends, or_iff_right (not_not_intro ends)]
    constructor
    · intro same
      have lengths := congrArg List.length same
      simp only [List.length_take, List.length_append, List.length_drop, List.length_map,
        List.length_singleton] at lengths
      omega
    · intro room
      rw [List.take_append_of_le_length]
      rw [List.length_drop, List.length_map]
      omega
  · rw [if_neg ends, List.append_nil]
    exact iff_of_true rfl (.inl ends)

theorem eq_iff_core_eq {found found' : List FsGrepMatch}
    (bare : ∀ one ∈ found, one.before = [] ∧ one.after = [])
    (bare' : ∀ one ∈ found', one.before = [] ∧ one.after = []) :
    found = found' ↔ found.map FsGrepMatch.core = found'.map FsGrepMatch.core := by
  have rebuilt (found : List FsGrepMatch) (bare : ∀ one ∈ found, one.before = [] ∧ one.after = []) :
      (found.map FsGrepMatch.core).map (fun core => ⟨core.1, core.2.1, core.2.2, [], []⟩) =
        found := by
    rw [List.map_map]
    refine (List.map_congr_left fun one mem => ?_).trans (List.map_id found)
    obtain ⟨line, col, text, before, after⟩ := one
    obtain ⟨rfl, rfl⟩ := bare _ mem
    rfl
  constructor
  · exact congrArg _
  · intro same
    rw [← rebuilt found bare, same, rebuilt found' bare']

theorem start_of_bare (bare : req.contextLines = 0) :
    ∀ line ∈ printedLines fold req content, line.start.isSome := by
  intro line mem
  obtain ⟨numbered, -, same⟩ := List.mem_filterMap.1 mem
  rw [role] at same
  split at same
  case isTrue =>
    obtain ⟨front, -, rfl⟩ := Option.map_eq_some_iff.1 same
    rfl
  case isFalse absent =>
    rw [if_neg] at same
    · cases same
    · rw [List.any_eq_true]
      rintro ⟨i, mem, near⟩
      rw [bare, Nat.add_zero, Nat.add_zero, Bool.and_eq_true, decide_eq_true_eq,
        decide_eq_true_eq] at near
      exact absent (Nat.le_antisymm near.1 near.2 ▸ mem)

theorem mem_of_mem_upTo (mem : line ∈ upTo n lines) : line ∈ lines := by
  induction lines generalizing n with
  | nil => exact mem
  | cons other lines ih =>
    rw [upTo] at mem
    split at mem
    · split at mem
      · rw [List.mem_singleton.1 mem]
        exact List.mem_cons_self ..
      · exact (List.mem_cons.1 mem).elim (fun same => same ▸ List.mem_cons_self ..)
          fun mem => List.mem_cons_of_mem _ (ih mem)
    · exact (List.mem_cons.1 mem).elim (fun same => same ▸ List.mem_cons_self ..)
        fun mem => List.mem_cons_of_mem _ (ih mem)

theorem finish_of_clear (clear : buf.pending = []) : buf.finish req = buf.hits := by
  rw [FileBuf.finish, clear]
  split
  case h_1 none => exact (List.getLast?_eq_none_iff.1 none).symm
  case h_2 => rfl

theorem rgRead_bare (bare : req.contextLines = 0) :
    ∀ one ∈ rgRead fold req n last content, one.before = [] ∧ one.after = [] := by
  have all : ∀ line ∈ (if last then upTo n (printedLines fold req content)
      else printedLines fold req content), line.start.isSome := by
    intro line mem
    split at mem
    · exact start_of_bare bare line (mem_of_mem_upTo mem)
    · exact start_of_bare bare line mem
  obtain ⟨clear, before⟩ := foldl_read_bare ⟨[], []⟩ bare all rfl (by simp)
  rw [rgRead, finish_of_clear clear]
  exact fun one mem => ⟨before one mem, foldl_read_after _ (by simp) one mem⟩

theorem finish_head {first second : FsGrepMatch} {rest : List FsGrepMatch}
    (two : buf.hits = first :: second :: rest) : (buf.finish req).head? = some first := by
  rw [FileBuf.finish, two]
  rcases List.eq_nil_or_concat (second :: rest) with none | ⟨inner, final, some'⟩
  · cases none
  · rw [some', List.concat_eq_append, ← List.cons_append, List.getLast?_concat]
    simp only
    split
    case isTrue => rw [List.dropLast_concat, List.cons_append, List.head?_cons]
    case isFalse => rfl

theorem rgRead_head_after (two : 2 ≤ (rgRead fold req n last content).length) :
    ∀ one ∈ (rgRead fold req n last content).head?, one.after = [] := by
  intro one mem
  rw [← List.length_map FsGrepMatch.core, rgRead, finish_core, List.length_map] at two
  rw [rgRead] at mem
  rcases read : ((if last then upTo n (printedLines fold req content)
      else printedLines fold req content).foldl (FileBuf.read req) ⟨[], []⟩).hits with
    - | ⟨first, - | ⟨second, rest⟩⟩
  · rw [read] at two
    exact absurd two (Nat.not_succ_le_zero _)
  · rw [read] at two
    exact absurd two (Nat.not_succ_le_self _)
  · rw [finish_head read] at mem
    cases mem
    exact foldl_read_after _ (by simp) one (read ▸ List.mem_cons_self ..)

theorem nodeMatch_core (found : List Hit) : (found.map (nodeMatch req (splitLines content))).map
    FsGrepMatch.core = found.map Hit.nodeCore := by
  rw [List.map_map]
  rfl

/-- When what is read of ripgrep's matches is what `grepWithNode` takes for its own. -/
theorem rgRead_rgHits_iff (pos : 0 < n) (few : n ≤ req.maxMatchesPerFile)
    (within : n ≤ (rgHits fold req content).length)
    (all : last = false → n = min (rgHits fold req content).length req.maxMatchesPerFile) :
    rgRead fold req n last content =
        ((rgHits fold req content).take n).map (nodeMatch req (splitLines content)) ↔
      (∀ hit ∈ (rgHits fold req content).take n, ∀ c ∈ hit.front, c.toNat < 0x80) ∧
      (req.contextLines = 0 ∨ n = 1 ∧ ∀ hit ∈ (rgHits fold req content).take n,
        if last then (splitLines content).length ≤ hit.index + 1
        else ¬ ['\n'] <:+ content ∨
          hit.index + 1 + req.contextLines ≤ (rgLines content).length) := by
  have cores := rgRead_core pos few all
  by_cases bare : req.contextLines = 0
  · rw [eq_iff_core_eq (rgRead_bare bare), cores, nodeMatch_core, cores_eq_iff]
    · exact ⟨fun ascii => ⟨ascii, .inl bare⟩, And.left⟩
    · intro one mem
      obtain ⟨hit, -, rfl⟩ := List.mem_map.1 mem
      refine ⟨?_, ?_⟩
      · change ((splitLines content).take hit.index).drop (hit.index - req.contextLines) = []
        rw [bare, Nat.sub_zero, List.drop_of_length_le (List.length_take_le _ _)]
      · change ((splitLines content).drop (hit.index + 1)).take req.contextLines = []
        rw [bare, List.take_zero]
  · obtain ⟨hit, later, found⟩ := List.exists_cons_of_length_pos (pos.trans_le within)
    rcases Nat.lt_or_ge 1 n with many | one
    · refine iff_of_false (fun same => ?_) fun comparable => ?_
      · have length : (rgRead fold req n last content).length = n := by
          rw [same, List.length_map, List.length_take_of_le within]
        have none := rgRead_head_after (by rw [length]; exact many)
        obtain ⟨m, rfl⟩ := Nat.exists_eq_succ_of_ne_zero pos.ne'
        rw [same, found, Nat.succ_eq_add_one, List.take_succ_cons, List.map_cons,
          List.head?_cons] at none
        have empty : linesAfter req (splitLines content) hit.index = [] := none _ rfl
        obtain ⟨second, inside⟩ : ∃ second, second ∈ later := by
          refine List.exists_mem_of_length_pos ?_
          rw [found, List.length_cons] at within
          omega
        have below := (index_lt_rgLines (found ▸ List.mem_cons_of_mem hit inside)).trans_le
          length_splitLines_ge
        obtain ⟨above, raw, rest, -, index, -, -, -, tail⟩ := rgHits_cons found
        rw [tail] at inside
        have after := index_of_mem_later inside
        have lengths := congrArg List.length empty
        rw [linesAfter, List.length_take, List.length_drop, List.length_nil] at lengths
        omega
      · rcases comparable.2 with none | ⟨rfl, -⟩
        · exact bare none
        · exact absurd many (lt_irrefl 1)
    · obtain rfl : n = 1 := by omega
      have alone : last = false → later.take (req.maxMatchesPerFile - 1) = [] := by
        intro whole
        have least := all whole
        rw [found, List.length_cons] at least
        rcases Nat.eq_zero_or_pos later.length with none | some'
        · rw [List.eq_nil_of_length_eq_zero none, List.take_nil]
        · rw [show req.maxMatchesPerFile - 1 = 0 by omega, List.take_zero]
      have afters : (if last then [] else
          linesAfter req ((rgLines content).map stripTrailingNewline) hit.index) =
            linesAfter req (splitLines content) hit.index ↔
          if last then (splitLines content).length ≤ hit.index + 1
          else ¬ ['\n'] <:+ content ∨
            hit.index + 1 + req.contextLines ≤ (rgLines content).length := by
        cases last with
        | false =>
          exact linesAfter_eq_iff (index_lt_rgLines (found ▸ List.mem_cons_self ..))
        | true =>
          rw [if_pos rfl, if_pos rfl, linesAfter, eq_comm, List.take_eq_nil_iff,
            or_iff_right bare, List.drop_eq_nil_iff]
      have first := cores_eq_iff [hit]
      rw [rgRead_one found alone, found, List.take_succ_cons, List.take_zero]
      constructor
      · intro same
        have core := congrArg (List.map FsGrepMatch.core) same
        rw [nodeMatch_core] at core
        refine ⟨first.1 core, .inr ⟨rfl, fun other mem => ?_⟩⟩
        rw [List.mem_singleton.1 mem]
        exact afters.1 (congrArg FsGrepMatch.after (List.cons.inj same).1)
      · rintro ⟨ascii, none | ⟨-, context⟩⟩
        · exact absurd none bare
        · have core := first.2 ascii
          have after := afters.2 (context hit (List.mem_cons_self ..))
          have col := congrArg (fun core => core.2.1) (List.cons.inj core).1
          rw [List.map_singleton, nodeMatch, ← after]
          refine congrArg (fun col => [FsGrepMatch.mk _ col _ _ _]) col

/-- Of a file, `n` matches are read from ripgrep as `grepWithNode` finds them exactly when they are
comparable. -/
theorem rgRead_eq_iff (pos : 0 < n) (few : n ≤ req.maxMatchesPerFile)
    (within : n ≤ (rgHits fold req content).length)
    (all : last = false → n = min (rgHits fold req content).length req.maxMatchesPerFile) :
    rgRead fold req n last content =
        ((hits fold req content).take n).map (nodeMatch req (splitLines content)) ↔
      Comparable fold req n last content := by
  have core := rgRead_rgHits_iff pos few within all
  constructor
  · intro same
    have cores := rgRead_core pos few all
    rw [same, nodeMatch_core] at cores
    have sameLines := sameLines_of_cores cores.symm
    rw [sameLines] at core
    exact ⟨sameLines, (core.1 same).1, (core.1 same).2⟩
  · intro comparable
    rw [comparable.sameLines] at core
    exact core.2 ⟨comparable.ascii, comparable.context⟩

end KimiCli.Grep
