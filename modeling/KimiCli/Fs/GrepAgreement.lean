import KimiCli.Fs.RgRun
import KimiCli.Js.Json

/-!
# The search with and without ripgrep

When `grepWithRg` answers, however the output of ripgrep is cut, as `grepWithNode` does.
-/

namespace KimiCli.Grep

open BudgetShares ChunkedLines

variable {fold : Char → Char} {req : FsGrepRequest} {further : List Char → List ℕ}
  {fromBase64 : List Char → List Char} {state : RgState} {records : List RgJsonRecord}
  {answered : List SearchedFile}

/-! ## The records after the stop -/

theorem Settled.afterAll {q : List Char} {last : FileBuf} {files : List FsGrepFileHit}
    (settled : Settled req q last files state)
    (other : ∀ record ∈ records, record.type = .context ∨ record.type = .begin →
      rgPath fromBase64 record.path ≠ some q) :
    Settled req q last files (handleAll (Grep.onRecord req fromBase64) state records) := by
  induction records generalizing state with
  | nil => exact settled
  | cons record records ih =>
    rw [List.forall_mem_cons] at other
    exact ih (settled.onRecord other.1) other.2

theorem handleAll_stopped {files : List FsGrepFileHit} {total : ℕ}
    (room : total < req.maxTotalMatches) :
    handleAll (onRecord req fromBase64) ⟨∅, files, total, true, req.maxFiles⟩ records =
      ⟨∅, files, total, true, req.maxFiles⟩ := by
  have one (record : RgJsonRecord) : (onRecord req fromBase64
      ⟨∅, files, total, true, req.maxFiles⟩ record).1 =
        ⟨∅, files, total, true, req.maxFiles⟩ := by
    obtain ⟨type, path, lines, number, submatches⟩ := record
    cases type with
    | begin =>
      simp only [onRecord]
      split
      · rfl
      · rw [if_pos le_rfl]
    | «end» => cases path <;> rfl
    | «match» =>
      simp only [onRecord]
      rw [if_neg (Nat.not_le_of_lt room)]
      cases path <;> rfl
    | context => cases path <;> rfl
    | summary => rfl
  induction records with
  | nil => rfl
  | cons record records ih =>
    rw [ChunkedLines.handleAll, List.foldl_cons, one]
    exact ih

theorem Comparable.quiet {n : ℕ} {content : List Char}
    (comparable : Comparable fold req n true content)
    (within : 0 < n ∧ n ≤ (rgHits fold req content).length) :
    ∀ line ∈ beyond n (printedLines fold req content), line.start.isSome := by
  rcases comparable.context with bare | ⟨rfl, context⟩
  · exact fun line mem => start_of_bare bare line (List.drop_subset _ _ mem)
  · obtain ⟨hit, later, found⟩ := List.exists_cons_of_length_pos (within.1.trans_le within.2)
    obtain ⟨above, raw, below, printed, -, quiet, -, inside, -⟩ := printedLines_cons found
    have same := comparable.sameLines
    rw [found, List.take_succ_cons, List.take_zero] at same
    have end' : (splitLines content).length ≤ hit.index + 1 :=
      context hit (same ▸ List.mem_singleton_self hit)
    have none : below = [] := by
      refine List.eq_nil_iff_forall_not_mem.2 fun line mem => ?_
      have := inside line mem
      have : (rgLines content).length ≤ (splitLines content).length := length_splitLines_ge
      omega
    rw [beyond, printed, upTo_one quiet rfl, none, List.drop_length]
    exact fun line mem => absurd mem List.not_mem_nil

theorem path_ne_of_mem {q : List Char} (other : ∀ file ∈ answered, file.path ≠ q)
    {record : RgJsonRecord} (mem : record ∈ rgRecords fold req further answered) :
    record.type = .context ∨ record.type = .begin →
      rgPath fromBase64 record.path ≠ some q := by
  rcases List.mem_append.1 mem with mem | mem
  · obtain ⟨file, inside, mem⟩ := List.mem_flatMap.1 mem
    have path : rgPath fromBase64 record.path = some file.path := by
      rw [fileRecords] at mem
      split at mem
      case isTrue => cases mem
      case isFalse =>
        rcases List.mem_cons.1 mem with rfl | mem
        · rfl
        · rcases List.mem_append.1 mem with mem | mem
          · obtain ⟨line, -, rfl⟩ := List.mem_map.1 mem
            rfl
          · rw [List.mem_singleton.1 mem]
            rfl
    rw [path]
    exact fun _ same => other file inside (Option.some.inj same)
  · rw [List.mem_singleton.1 mem]
    rintro (none | none) <;> cases none

/-! ## What is answered -/

variable (fold) (req) in
/-- The matches that are taken of each file. -/
def rgTaken (answered : List SearchedFile) : List (Share SearchedFile) :=
  shares (rgWeight fold req) req.maxTotalMatches (readFiles fold req 0 answered)

variable (fold) (req) in
def nodeTaken (files : List SearchedFile) : List (Share SearchedFile) :=
  shares (nodeWeight fold req) req.maxTotalMatches (files.take req.maxFiles)

theorem mem_of_mem_readFiles {scanned : ℕ} {file : SearchedFile}
    (mem : file ∈ readFiles fold req scanned answered) : file ∈ answered :=
  List.mem_of_mem_filter (List.mem_of_mem_take mem)

variable {share : Share SearchedFile}

theorem mem_rgTaken (mem : share ∈ rgTaken fold req answered) :
    share.item ∈ answered ∧ 0 < share.part ∧ share.part ≤ req.maxMatchesPerFile ∧
      share.part ≤ (rgHits fold req share.item.content).length ∧
      (share.last = false → share.part =
        min (rgHits fold req share.item.content).length req.maxMatchesPerFile) := by
  obtain ⟨item, pos, part, all⟩ := mem_shares mem
  exact ⟨mem_of_mem_readFiles item, pos, part.trans (Nat.min_le_right _ _),
    part.trans (Nat.min_le_left _ _), all⟩

theorem length_rgFile (mem : share ∈ rgTaken fold req answered) :
    (rgFile fold req share).hits.length = share.part := by
  obtain ⟨-, pos, few, within, all⟩ := mem_rgTaken mem
  have cores := congrArg List.length (rgRead_core pos few all)
  rwa [List.length_map, List.length_map, List.length_take_of_le within] at cores

theorem length_nodeFile {files : List SearchedFile} (mem : share ∈ nodeTaken fold req files) :
    (nodeFile fold req share).hits.length = share.part := by
  obtain ⟨-, -, part, -⟩ := mem_shares mem
  rw [nodeFile, List.length_map, List.length_take_of_le (part.trans (Nat.min_le_left _ _))]

variable (fold) (req) in
theorem node_answer (files : List SearchedFile) :
    (grepWithNode fold req files).files = (nodeTaken fold req files).map (nodeFile fold req) ∧
      ((grepWithNode fold req files).truncated = true ↔
        req.maxTotalMatches ≤ ((files.take req.maxFiles).map (nodeWeight fold req)).sum ∨
          req.maxFiles < files.length) := by
  have few : (FsGrepResponse.mk [] 0 false).filesScanned ≤ req.maxFiles := Nat.zero_le _
  obtain ⟨found, truncated⟩ : (searchFiles fold req files 0 ⟨[], 0, false⟩).files = _ ∧ _ :=
    searchFiles_spec req.maxTotalMatches_pos few rfl
  rw [List.nil_append] at found
  exact ⟨found, truncated.trans (or_iff_right Bool.false_ne_true)⟩

variable (fromBase64) in
/-- What is answered after the first stop and `more` records, when there are no more or when they
bring no lines around the last match. -/
theorem rg_answer {more rest : List RgJsonRecord} {result : RgState × List RgJsonRecord}
    (left : result.2 = more ++ rest)
    (outcome : Outcome fold req further [] 0 false 0 answered result)
    (distinct : (answered.map SearchedFile.path).Nodup)
    (quiet : more = [] ∨ ∀ share ∈ rgTaken fold req answered, share.last = true →
      ∀ line ∈ beyond share.part (printedLines fold req share.item.content), line.start.isSome) :
    ((handleAll (onRecord req fromBase64) result.1 more).close req).files =
        (rgTaken fold req answered).map (rgFile fold req) ∧
      (((handleAll (onRecord req fromBase64) result.1 more).close req).truncated = true ↔
        req.maxTotalMatches ≤ ((readFiles fold req 0 answered).map (rgWeight fold req)).sum ∨
          req.maxFiles < (answered.filter fun file => 0 < rgWeight fold req file).length) := by
  cases outcome with
  | limit before last n scanned above below found whole full taken pushed =>
    have mem : ⟨last, n, true⟩ ∈ rgTaken fold req answered := by
      rw [rgTaken, ← Nat.sub_zero req.maxTotalMatches, taken]
      exact List.mem_append_right before (List.mem_singleton_self _)
    obtain ⟨-, pos, few, within, -⟩ := mem_rgTaken mem
    have some' : 0 < ((upTo n (printedLines fold req last.content)).foldl
        (FileBuf.read req) ⟨[], []⟩).hits.length := by
      rw [← List.length_map FsGrepMatch.core, foldl_read_core, List.map_nil, List.nil_append,
        matchCores_upTo pos, List.length_take, length_matchCores]
      exact lt_min pos (lt_min (pos.trans_le within) (pos.trans_le few))
    have settled : Settled req last.path ((upTo n (printedLines fold req last.content)).foldl
        (FileBuf.read req) ⟨[], []⟩) found (reading last.path ((upTo n (printedLines fold req
          last.content)).foldl (FileBuf.read req) ⟨[], []⟩) found req.maxTotalMatches true
            scanned) := by
      refine ⟨le_rfl, rfl, .inl ⟨?_, rfl⟩⟩
      rw [live, reading, entries_set_empty, List.filter_cons_of_pos]
      · rfl
      · exact decide_eq_true some'
    have other : ∀ record ∈ more, record.type = .context ∨ record.type = .begin →
        rgPath fromBase64 record.path ≠ some last.path := by
      rcases quiet with rfl | quiet
      · exact fun record mem => absurd mem List.not_mem_nil
      · intro record mem'
        have mem' : record ∈ _ := left ▸ List.mem_append_left rest mem'
        rcases List.mem_append.1 mem' with mem' | mem'
        · obtain ⟨line, inside, rfl⟩ := List.mem_map.1 mem'
          have match' : (line.record last.path further).type = .match :=
            if_pos (quiet _ mem rfl line inside)
          rw [match']
          rintro (none | none) <;> cases none
        · rcases List.mem_cons.1 mem' with rfl | mem'
          · rintro (none | none) <;> cases none
          · refine path_ne_of_mem (fun file inside same => ?_) mem'
            rw [whole, List.map_append, List.map_cons, List.nodup_append] at distinct
            exact (List.nodup_cons.1 distinct.2.1).1 (same ▸ List.mem_map_of_mem inside)
    have settled := settled.afterAll other
    refine ⟨?_, iff_of_true settled.truncated (.inl full)⟩
    rw [settled.close, rgTaken, ← Nat.sub_zero req.maxTotalMatches, taken, List.map_append, pushed]
    rfl
  | tooMany total found rest room more past pushed =>
    rw [handleAll_stopped room]
    exact ⟨pushed, iff_of_true rfl (.inr past)⟩
  | done total scanned found more few pushed =>
    obtain ⟨rfl, -⟩ := List.append_eq_nil_iff.1 left.symm
    refine ⟨pushed, iff_of_false Bool.false_ne_true ?_⟩
    rintro (full | past)
    · exact absurd full (Nat.not_le_of_lt more)
    · exact absurd past (Nat.not_lt_of_le few)

/-! ## The output as text -/

variable (fold) (req) (further) in
/-- What ripgrep prints when it searches the files in some order; it refuses a pattern that it takes
for an option. -/
def rgOutput (order : List SearchedFile) : List RgJsonRecord :=
  if req.pattern.head? = some '-' then [] else rgRecords fold req further order

variable (req) in
/-- The files that ripgrep searches. -/
def searched (order : List SearchedFile) : List SearchedFile :=
  if req.pattern.head? = some '-' then [] else order

/-- Every record is printed on a line of its own that is read back as it. -/
structure Printed (parseJson : List Char → Option RgJsonRecord) (print : RgJsonRecord → List Char)
    (records : List RgJsonRecord) : Prop where
  ne_nil : ∀ record ∈ records, print record ≠ []
  oneLine : ∀ record ∈ records, '\n' ∉ print record
  parse : ∀ record ∈ records, parseJson (print record) = some record

section

variable {parseJson : List Char → Option RgJsonRecord} {print : RgJsonRecord → List Char}
  {chunks : List (List Char)} {order : List SearchedFile}

theorem Printed.onLine (printed : Printed parseJson print records) :
    ∀ record ∈ records, ∀ state, onLine req fromBase64 parseJson state (print record) =
      onRecord req fromBase64 state record := by
  intro record mem state
  have some' : ¬ (print record).length = 0 := fun none =>
    printed.ne_nil record mem (List.eq_nil_of_length_eq_zero none)
  rw [Grep.onLine, if_neg some', printed.parse record mem]

theorem Printed.lines (printed : Printed parseJson print records) :
    ∀ line ∈ records.map print, '\n' ∉ line := by
  intro line mem
  obtain ⟨record, inside, rfl⟩ := List.mem_map.1 mem
  exact printed.oneLine record inside

theorem grepWithRg_of_chunks (req : FsGrepRequest) (fromBase64 : List Char → List Char)
    (printed : Printed parseJson print records)
    (whole : chunks.flatten = text (records.map print)) :
    ∃ more rest, (untilStop (onRecord req fromBase64) RgState.initial records).2 = more ++ rest ∧
      grepWithRg req fromBase64 parseJson chunks =
        (handleAll (onRecord req fromBase64)
          (untilStop (onRecord req fromBase64) RgState.initial records).1 more).close req := by
  obtain ⟨lines, others, left, at'⟩ : ∃ more rest, _ = more ++ rest ∧
      (feedAll (Grep.onLine req fromBase64 parseJson) RgState.initial chunks).1 = _ :=
    feedAll_spec printed.lines whole
  rw [untilStop_map printed.onLine] at left at'
  obtain ⟨more, rest, both, rfl, -⟩ := List.map_eq_append_iff.1 left
  refine ⟨more, rest, both, ?_⟩
  have inside : ∀ record ∈ more, record ∈ records := fun record mem =>
    (untilStop_suffix _ _ records).subset (both ▸ List.mem_append_left rest mem)
  rw [grepWithRg, at', handleAll_map fun record mem => printed.onLine record (inside record mem)]

theorem grepWithRg_single (printed : Printed parseJson print records) :
    grepWithRg req fromBase64 parseJson [text (records.map print)] =
      (untilStop (onRecord req fromBase64) RgState.initial records).1.close req := by
  rw [grepWithRg, feedAll_single printed.lines, untilStop_map printed.onLine]

variable (fold) (req) (further) (fromBase64) (order) in
theorem outcome_rgOutput : Outcome fold req further [] 0 false 0 (searched req order)
    (untilStop (onRecord req fromBase64) RgState.initial (rgOutput fold req further order)) := by
  rw [rgOutput, searched]
  split
  case isTrue =>
    have none : readFiles fold req 0 [] = [] := List.take_nil
    refine .done 0 0 [] ?_ (Nat.zero_le _) ?_
    · rw [none]
      exact req.maxTotalMatches_pos
    · rw [none]
      rfl
  case isFalse => exact untilStop_outcome req.maxTotalMatches_pos (Nat.zero_le _)

end

/-! ## Agreement -/

def FsGrepResponse.count (response : FsGrepResponse) : ℕ :=
  (response.files.map fun file => file.hits.length).sum

/-- Both answers have the same matches, up to the order of the files, and each says that it is
truncated when matches are left out. -/
structure SearchesAgree (rg node : FsGrepResponse) (total : ℕ) : Prop where
  files : rg.files.Perm node.files
  rgTruncated : rg.truncated = true ↔ rg.count < total
  nodeTruncated : node.truncated = true ↔ node.count < total

variable (fold) (req) in
/-- The matches in all files. -/
def totalHits (files : List SearchedFile) : ℕ :=
  (files.map fun file => (hits fold req file.content).length).sum

/-- What a search that finds `found` matches says of its limits is true of the `total` matches. -/
inductive LimitsTold (limit found total : ℕ) (moreFiles : Prop) : Prop
  /-- Every match is found, and neither limit is reached. -/
  | complete (under : found < limit) (all : total ≤ found) (files : ¬ moreFiles)
  /-- The limit of matches is reached, and there is one more. -/
  | matchLimit (reached : limit ≤ found) (left : limit < total)
  /-- There are more files than are read, and a match is not found. -/
  | fileLimit (under : found < limit) (left : found < total) (files : moreFiles)

theorem limitsTold_iff {limit found total : ℕ} {moreFiles : Prop} :
    LimitsTold limit found total moreFiles ↔
      (limit ≤ found ∨ moreFiles ↔ min limit found < total) := by
  constructor
  · rintro (⟨under, all, files⟩ | ⟨reached, left⟩ | ⟨under, left, files⟩)
    · refine iff_of_false (not_or.2 ⟨under.not_ge, files⟩) ?_
      rw [min_eq_right under.le]
      exact all.not_gt
    · refine iff_of_true (.inl reached) ?_
      rwa [min_eq_left reached]
    · refine iff_of_true (.inr files) ?_
      rwa [min_eq_right under.le]
  · intro same
    rcases le_or_gt limit found with reached | under
    · rw [min_eq_left reached] at same
      exact .matchLimit reached (same.1 (.inl reached))
    · rw [min_eq_right under.le, or_iff_right under.not_ge] at same
      by_cases files : moreFiles
      · exact .fileLimit under (same.1 files) files
      · exact .complete under (not_lt.1 fun left => files (same.2 left)) files

/-- The limits leave the same numbers of matches of the same files, all comparable, and each search
is right about its limits. ripgrep leaves files without a match out of both. -/
structure Agreeable (fold : Char → Char) (req : FsGrepRequest) (files order : List SearchedFile) :
    Prop where
  shares : ((rgTaken fold req (searched req order)).map fun share => (share.item, share.part)).Perm
    ((nodeTaken fold req files).map fun share => (share.item, share.part))
  comparable : ∀ share ∈ rgTaken fold req (searched req order),
    Comparable fold req share.part share.last share.item.content
  rgLimits : LimitsTold req.maxTotalMatches
    ((readFiles fold req 0 (searched req order)).map (rgWeight fold req)).sum
    (totalHits fold req files)
    (req.maxFiles < ((searched req order).filter fun file => 0 < rgWeight fold req file).length)
  nodeLimits : LimitsTold req.maxTotalMatches
    ((files.take req.maxFiles).map (nodeWeight fold req)).sum
    (totalHits fold req files) (req.maxFiles < files.length)

section

variable {files order : List SearchedFile} {file : SearchedFile}

theorem find?_path (distinct : (files.map SearchedFile.path).Nodup) (mem : file ∈ files) :
    files.find? (fun other => other.path = file.path) = some file := by
  induction files with
  | nil => cases mem
  | cons first files ih =>
    rw [List.map_cons, List.nodup_cons] at distinct
    rcases List.mem_cons.1 mem with rfl | mem
    · exact List.find?_cons_of_pos (decide_eq_true rfl)
    · rw [List.find?_cons_of_neg, ih distinct.2 mem]
      rw [decide_eq_true_eq]
      exact fun same => distinct.1 (same ▸ List.mem_map_of_mem mem)

variable (files) in
/-- The file of an answer, and how many matches it has there. -/
def sharesIn (found : FsGrepFileHit) : Option (SearchedFile × ℕ) :=
  (files.find? fun file => file.path = found.path).map (·, found.hits.length)

theorem filterMap_sharesIn (distinct : (files.map SearchedFile.path).Nodup)
    {taken : List (Share SearchedFile)} {answer : Share SearchedFile → FsGrepFileHit}
    (inside : ∀ share ∈ taken, share.item ∈ files)
    (path : ∀ share ∈ taken, (answer share).path = share.item.path)
    (length : ∀ share ∈ taken, (answer share).hits.length = share.part) :
    (taken.map answer).filterMap (sharesIn files) =
      taken.map fun share => (share.item, share.part) := by
  rw [List.filterMap_map, ← List.filterMap_eq_map]
  refine List.filterMap_congr fun share mem => ?_
  rw [Function.comp_apply, sharesIn, path share mem, find?_path distinct (inside share mem),
    length share mem]
  rfl

theorem count_of_taken {taken : List (Share SearchedFile)}
    {answer : Share SearchedFile → FsGrepFileHit} {response : FsGrepResponse}
    (found : response.files = taken.map answer)
    (length : ∀ share ∈ taken, (answer share).hits.length = share.part) :
    response.count = (taken.map Share.part).sum := by
  rw [FsGrepResponse.count, found, List.map_map]
  exact congrArg List.sum (List.map_congr_left fun share mem => length share mem)

theorem searched_subset (mem : file ∈ searched req order) : file ∈ order := by
  rw [searched] at mem
  split at mem
  · cases mem
  · exact mem

theorem nodup_searched (req : FsGrepRequest) (distinct : (order.map SearchedFile.path).Nodup) :
    ((searched req order).map SearchedFile.path).Nodup := by
  rw [searched]
  split
  · exact List.nodup_nil
  · exact distinct

/-- Both answers of the same matches, in terms of what the limits leave. -/
theorem perm_iff (distinct : (files.map SearchedFile.path).Nodup)
    (inside : ∀ file ∈ answered, file ∈ files) :
    ((rgTaken fold req answered).map (rgFile fold req)).Perm
        ((nodeTaken fold req files).map (nodeFile fold req)) ↔
      ((rgTaken fold req answered).map fun share => (share.item, share.part)).Perm
          ((nodeTaken fold req files).map fun share => (share.item, share.part)) ∧
        ∀ share ∈ rgTaken fold req answered,
          Comparable fold req share.part share.last share.item.content := by
  have rgItems : ∀ share ∈ rgTaken fold req answered, share.item ∈ files :=
    fun share mem => inside _ (mem_rgTaken mem).1
  have nodeItems : ∀ share ∈ nodeTaken fold req files, share.item ∈ files :=
    fun share mem => List.mem_of_mem_take (mem_shares mem).1
  have same {share : Share SearchedFile} (mem : share ∈ rgTaken fold req answered) :
      rgFile fold req share = nodeFile fold req share ↔
        Comparable fold req share.part share.last share.item.content := by
    obtain ⟨-, pos, few, within, all⟩ := mem_rgTaken mem
    rw [← rgRead_eq_iff pos few within all, rgFile, nodeFile, FsGrepFileHit.mk.injEq,
      and_iff_right rfl]
  constructor
  · intro perm
    refine ⟨?_, fun share mem => ?_⟩
    · have shares := perm.filterMap (sharesIn files)
      rwa [filterMap_sharesIn distinct rgItems (fun _ _ => rfl) fun share mem => length_rgFile mem,
        filterMap_sharesIn distinct nodeItems (fun _ _ => rfl)
          fun share mem => length_nodeFile mem] at shares
    · obtain ⟨other, mem', equal⟩ := List.mem_map.1 (perm.subset (List.mem_map_of_mem mem))
      have paths : other.item.path = share.item.path := congrArg FsGrepFileHit.path equal
      have item : other.item = share.item := List.inj_on_of_nodup_map distinct
        (nodeItems other mem') (rgItems share mem) paths
      have part : other.part = share.part := by
        rw [← length_rgFile mem, ← length_nodeFile mem', equal]
      rw [← same mem, ← equal, nodeFile, nodeFile, item, part]
  · rintro ⟨perm, comparable⟩
    have hits := perm.map fun taken => nodeFile fold req ⟨taken.1, taken.2, false⟩
    rw [List.map_map, List.map_map] at hits
    refine Eq.mp (congrArg (List.Perm · _) ?_) hits
    exact List.map_congr_left fun share mem => ((same mem).2 (comparable share mem)).symm

variable {parseJson : List Char → Option RgJsonRecord} {print : RgJsonRecord → List Char}

/-- Both answer alike, however the output is cut, exactly when the request and the files are
agreeable. The files are those that both search (`walk`) and one `fold` is applied by both; the
real ripgrep also skips hidden files, and for case it folds letters that lower case leaves apart. -/
theorem searchesAgree_iff (literal : req.regex = false)
    (distinct : (files.map SearchedFile.path).Nodup) (walk : order.Perm files)
    (ripgrep : List (List Char) → List (List Char))
    (prints : req.regex = false →
      ripgrep (rgArgs req) = (rgOutput fold req further order).map print)
    (printed : Printed parseJson print (rgOutput fold req further order)) :
    (∀ chunks : List (List Char), chunks.flatten = text (ripgrep (rgArgs req)) →
      SearchesAgree (grepWithRg req fromBase64 parseJson chunks) (grepWithNode fold req files)
        (totalHits fold req files)) ↔
      Agreeable fold req files order := by
  rw [prints literal]
  have inside : ∀ file ∈ searched req order, file ∈ files :=
    fun file mem => walk.subset (searched_subset mem)
  have distinct' := nodup_searched req ((walk.map SearchedFile.path).nodup_iff.2 distinct)
  have outcome := outcome_rgOutput fold req further fromBase64 order
  obtain ⟨nodeFiles, nodeTruncated⟩ := node_answer fold req files
  have nodeCount := count_of_taken nodeFiles fun share mem => length_nodeFile mem
  rw [nodeTaken, sum_part] at nodeCount
  have rgCount {response : FsGrepResponse}
      (found : response.files = (rgTaken fold req (searched req order)).map (rgFile fold req)) :
      response.count = min req.maxTotalMatches
        ((readFiles fold req 0 (searched req order)).map (rgWeight fold req)).sum := by
    rw [count_of_taken found fun share mem => length_rgFile mem, rgTaken, sum_part]
  constructor
  · intro agrees
    obtain ⟨perm, rgLimits, nodeLimits⟩ := agrees [_] (List.append_nil _)
    have answer : grepWithRg req fromBase64 parseJson _ =
      (handleAll (onRecord req fromBase64) _ []).close req := grepWithRg_single printed
    rw [answer] at perm rgLimits
    obtain ⟨found, truncated⟩ := rg_answer fromBase64 (List.nil_append _).symm outcome distinct'
      (.inl rfl)
    rw [found, nodeFiles, perm_iff distinct inside] at perm
    rw [truncated, rgCount found] at rgLimits
    rw [nodeTruncated, nodeCount] at nodeLimits
    exact ⟨perm.1, perm.2, limitsTold_iff.2 rgLimits, limitsTold_iff.2 nodeLimits⟩
  · rintro ⟨shares, comparable, rgLimits, nodeLimits⟩ chunks whole
    obtain ⟨more, rest, left, same⟩ := grepWithRg_of_chunks req fromBase64 printed whole
    have quiet : ∀ share ∈ rgTaken fold req (searched req order), share.last = true →
        ∀ line ∈ beyond share.part (printedLines fold req share.item.content),
          line.start.isSome := by
      intro share mem last
      have one := comparable share mem
      rw [last] at one
      obtain ⟨-, pos, -, within, -⟩ := mem_rgTaken mem
      exact one.quiet ⟨pos, within⟩
    obtain ⟨found, truncated⟩ := rg_answer fromBase64 left outcome distinct' (.inr quiet)
    rw [← same] at found truncated
    refine ⟨?_, ?_, ?_⟩
    · rw [found, nodeFiles]
      exact (perm_iff distinct inside).2 ⟨shares, comparable⟩
    · rw [truncated, rgCount found]
      exact limitsTold_iff.1 rgLimits
    · rw [nodeTruncated, nodeCount]
      exact limitsTold_iff.1 nodeLimits

end

/-! ### Two matches that are close to each other -/

def RgType.word : RgType → String
  | .begin => "begin"
  | .end => "end"
  | .match => "match"
  | .context => "context"
  | .summary => "summary"

def numberToken (n : ℕ) : NumberToken :=
  ⟨Nat.toDigits 10 n, fun c mem => by
    simp [isNumberChar, Nat.isDigit_of_mem_toDigits (b := 10) (by decide) (by decide) mem]⟩

def RgField.json : RgField → Json
  | .text value => .object [("text", .string (String.ofList value))]
  | .bytes value => .object [("bytes", .string (String.ofList value))]

/-- A record as ripgrep prints it, with what is read of it. -/
def RgJsonRecord.print (record : RgJsonRecord) : List Char :=
  (Json.object [
    ("type", .string record.type.word),
    ("data", .object (
      (record.path.toList.map fun path => ("path", path.json)) ++
      (record.lines.toList.map fun lines => ("lines", lines.json)) ++
      (record.lineNumber.toList.map fun number => ("line_number", .number (numberToken number))) ++
      record.submatches.toList.map fun starts => ("submatches", .array (starts.map fun start =>
        .object [("start", .number (numberToken start))]))))]).render

/-- `JSON.parse` on the lines of these records. -/
def readBack (records : List RgJsonRecord) (line : List Char) : Option RgJsonRecord :=
  records.find? fun record => record.print = line

def closeRequest (pattern : List Char) (some' : pattern ≠ []) : FsGrepRequest :=
  ⟨pattern, false, true, [], [], true, 200, 50, 5000, 1, some', by decide, by decide, by decide⟩

def letterA : FsGrepRequest := closeRequest ['a'] (by decide)

/-- Lines 1 and 3 have the letter. -/
def twoMatches : List SearchedFile := [⟨['f'], ['a', '\n', 'x', '\n', 'a']⟩]

def noFurther (_ : List Char) : List ℕ := []

/-- The first of two matches has no line after it when ripgrep is used. -/
theorem close_matches_differ : ¬ ∀ chunks : List (List Char),
    chunks.flatten =
        text ((rgOutput id letterA noFurther twoMatches).map RgJsonRecord.print) →
      SearchesAgree
        (grepWithRg letterA id (readBack (rgOutput id letterA noFurther twoMatches)) chunks)
        (grepWithNode id letterA twoMatches) (totalHits id letterA twoMatches) := by
  intro agrees
  have same := (agrees [_] (List.append_nil _)).files
  revert same
  decide +kernel

/-- The letter in the middle of three lines. -/
def oneMatch : List SearchedFile := [⟨['f'], ['x', '\n', 'a', '\n', 'y']⟩]

theorem agreeable_oneMatch : Agreeable id letterA oneMatch oneMatch where
  shares := by decide +kernel
  comparable := by
    have taken : rgTaken id letterA (searched letterA oneMatch) =
        [⟨⟨['f'], ['x', '\n', 'a', '\n', 'y']⟩, 1, false⟩] := by decide +kernel
    have found : (hits id letterA ['x', '\n', 'a', '\n', 'y']).take 1 = [⟨1, ['a'], []⟩] := by
      decide +kernel
    rw [taken]
    intro share mem
    rw [List.mem_singleton.1 mem]
    refine ⟨by decide +kernel, ?_, .inr ⟨rfl, ?_⟩⟩
    · rw [found]
      intro hit mem
      rw [List.mem_singleton.1 mem]
      exact fun c mem => absurd mem List.not_mem_nil
    · rw [found]
      intro hit mem
      rw [List.mem_singleton.1 mem]
      exact .inr (by decide +kernel)
  rgLimits := .complete (by decide +kernel) (by decide +kernel) (by decide +kernel)
  nodeLimits := .complete (by decide +kernel) (by decide +kernel) (by decide +kernel)

theorem printed_oneMatch : Printed (readBack (rgOutput id letterA noFurther oneMatch))
    RgJsonRecord.print (rgOutput id letterA noFurther oneMatch) where
  ne_nil := by decide +kernel
  oneLine := by decide +kernel
  parse := by decide +kernel

/-- Around one match both give the same lines, also when the output comes in single characters. -/
theorem one_match_same : SearchesAgree
    (grepWithRg letterA id (readBack (rgOutput id letterA noFurther oneMatch))
      ((text ((rgOutput id letterA noFurther oneMatch).map RgJsonRecord.print)).map fun c => [c]))
    (grepWithNode id letterA oneMatch) (totalHits id letterA oneMatch) := by
  have distinct : (oneMatch.map SearchedFile.path).Nodup := List.nodup_singleton _
  refine (searchesAgree_iff rfl distinct (.refl _)
    (fun _ => (rgOutput id letterA noFurther oneMatch).map RgJsonRecord.print) (fun _ => rfl)
    printed_oneMatch).2 agreeable_oneMatch _ ?_
  rw [← List.flatMap_def, List.flatMap_singleton']

end KimiCli.Grep
