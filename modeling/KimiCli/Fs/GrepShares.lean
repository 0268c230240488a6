import KimiCli.Fs.GrepFile
import KimiCli.Lib.BudgetShares

/-!
# All files within the limits

Each search takes the matches of the files one after the other, of every file as many as
`maxMatchesPerFile` allows, until there are `maxTotalMatches`.  It looks at no more than `maxFiles`
files; ripgrep names only those that have a match.
-/

namespace KimiCli.Grep

open BudgetShares ChunkedLines

variable (fold : Char → Char) (req : FsGrepRequest)

/-- How many matches of a file there are to take. -/
def nodeWeight (file : SearchedFile) : ℕ :=
  min (hits fold req file.content).length req.maxMatchesPerFile

def rgWeight (file : SearchedFile) : ℕ :=
  min (rgHits fold req file.content).length req.maxMatchesPerFile

/-- What each search reports of the matches that it takes of a file. -/
def nodeFile (share : Share SearchedFile) : FsGrepFileHit where
  path := share.item.path
  hits := ((hits fold req share.item.content).take share.part).map
    (nodeMatch req (splitLines share.item.content))

def rgFile (share : Share SearchedFile) : FsGrepFileHit where
  path := share.item.path
  hits := rgRead fold req share.part share.last share.item.content

variable {fold} {req} {lines : List (List Char)} {todo : List (List Char × ℕ)}
  {found : List FsGrepMatch} {total : ℕ} {response : FsGrepResponse} {files : List SearchedFile}

/-! ## Without ripgrep -/

/-- The hits among the numbered lines still to be searched. -/
def hitsIn (fold : Char → Char) (req : FsGrepRequest) (todo : List (List Char × ℕ)) : List Hit :=
  todo.filterMap fun (line, i) => (exec fold req line).map (⟨i, line, ·⟩)

theorem hitsIn_cons_none {line : List Char} {i : ℕ} (none : exec fold req line = none) :
    hitsIn fold req ((line, i) :: todo) = hitsIn fold req todo := by
  simp only [hitsIn, List.filterMap_cons, none, Option.map_none]

theorem hitsIn_cons_some {line front : List Char} {i : ℕ}
    (some' : exec fold req line = some front) :
    hitsIn fold req ((line, i) :: todo) = ⟨i, line, front⟩ :: hitsIn fold req todo := by
  simp only [hitsIn, List.filterMap_cons, some', Option.map_some]

theorem hits_eq_hitsIn (content : List Char) :
    hits fold req content = hitsIn fold req (splitLines content).zipIdx := rfl

/-- The loop takes the first matches that both limits leave room for. -/
theorem searchLines_spec (room : total < req.maxTotalMatches) {k : ℕ}
    (count : k = min (hitsIn fold req todo).length (req.maxMatchesPerFile - found.length)) :
    searchLines fold req lines todo found total =
      (found ++ ((hitsIn fold req todo).take (min k (req.maxTotalMatches - total))).map
          (nodeMatch req lines),
        total + min k (req.maxTotalMatches - total),
        decide (req.maxTotalMatches - total ≤ k)) := by
  have some' : ¬ req.maxTotalMatches - total ≤ 0 := by omega
  induction todo generalizing found total k with
  | nil =>
    obtain rfl : k = 0 := by rw [count, hitsIn, List.filterMap_nil, List.length_nil, Nat.zero_min]
    rw [searchLines, Nat.zero_min, List.take_zero, List.map_nil, List.append_nil,
      decide_eq_false some', Nat.add_zero]
  | cons numbered todo ih =>
    obtain ⟨line, i⟩ := numbered
    rw [searchLines]
    rcases Option.eq_none_or_eq_some (exec fold req line) with none | ⟨front, here⟩
    · simp only [none]
      rw [hitsIn_cons_none none] at count ⊢
      exact ih room count some'
    · simp only [here]
      rw [hitsIn_cons_some here] at count ⊢
      rw [List.length_cons] at count
      by_cases full : found.length ≥ req.maxMatchesPerFile
      · obtain rfl : k = 0 := by omega
        rw [if_pos full, Nat.zero_min, List.take_zero, List.map_nil, List.append_nil,
          decide_eq_false some', Nat.add_zero]
      · rw [if_neg full]
        by_cases last : total + 1 ≥ req.maxTotalMatches
        · have one : min k (req.maxTotalMatches - total) = 1 := by omega
          rw [if_pos last, one, List.take_succ_cons, List.take_zero, decide_eq_true (by omega)]
          rfl
        · have more : min k (req.maxTotalMatches - total) =
              min (k - 1) (req.maxTotalMatches - (total + 1)) + 1 := by omega
          have limit : (req.maxTotalMatches - total ≤ k) =
              (req.maxTotalMatches - (total + 1) ≤ k - 1) := by
            refine propext ?_
            omega
          rw [if_neg last, ih (by omega) (k := k - 1) _ (by omega), more, List.take_succ_cons,
            List.append_assoc]
          · simp only [limit]
            rw [List.map_cons, List.singleton_append, Nat.add_assoc, Nat.add_comm 1]
            rfl
          · rw [List.length_append, List.length_singleton]
            omega

theorem searchFiles_cons {file : SearchedFile} (room : total < req.maxTotalMatches)
    (few : ¬ response.filesScanned ≥ req.maxFiles) :
    ∃ next : FsGrepResponse,
      next.files = response.files ++ (shares (nodeWeight fold req) (req.maxTotalMatches - total)
        [file]).map (nodeFile fold req) ∧
      next.filesScanned = response.filesScanned + 1 ∧
      (next.truncated = true ↔ response.truncated = true ∨
        req.maxTotalMatches - total ≤ nodeWeight fold req file) ∧
      searchFiles fold req (file :: files) total response =
        if total + min (nodeWeight fold req file) (req.maxTotalMatches - total) ≥
          req.maxTotalMatches then next
        else searchFiles fold req files
          (total + min (nodeWeight fold req file) (req.maxTotalMatches - total)) next := by
  have searched : searchLines fold req (splitLines file.content)
      (splitLines file.content).zipIdx [] total = _ :=
    searchLines_spec room (k := nodeWeight fold req file) rfl
  obtain ⟨found, taken⟩ : ∃ found, found = ((hits fold req file.content).take
      (min (nodeWeight fold req file) (req.maxTotalMatches - total))).map
        (nodeMatch req (splitLines file.content)) := ⟨_, rfl⟩
  have length : found.length = min (nodeWeight fold req file) (req.maxTotalMatches - total) := by
    rw [taken, List.length_map, List.length_take_of_le]
    exact (Nat.min_le_left _ _).trans (Nat.min_le_left _ _)
  rw [List.nil_append, ← hits_eq_hitsIn, ← taken] at searched
  refine ⟨⟨if found.length > 0 then response.files ++ [⟨file.path, found⟩] else response.files,
    response.filesScanned + 1,
    response.truncated || decide (req.maxTotalMatches - total ≤ nodeWeight fold req file)⟩,
    ?_, rfl, ?_, ?_⟩
  · rw [length, shares]
    split
    case isTrue some' =>
      rw [if_neg some'.ne', shares_nil, List.map_singleton, nodeFile, taken]
    case isFalse none =>
      rw [if_pos (Nat.eq_zero_of_not_pos none), shares_nil, List.map_nil, List.append_nil]
  · rw [Bool.or_eq_true, decide_eq_true_eq]
  · rw [searchFiles, if_neg few]
    simp only [searched]

/-- The files that are opened share out the total among their matches. -/
theorem searchFiles_spec (room : total < req.maxTotalMatches)
    (few : response.filesScanned ≤ req.maxFiles) {opened : List SearchedFile}
    (first : opened = files.take (req.maxFiles - response.filesScanned)) :
    (searchFiles fold req files total response).files = response.files ++
        (shares (nodeWeight fold req) (req.maxTotalMatches - total) opened).map
          (nodeFile fold req) ∧
      ((searchFiles fold req files total response).truncated = true ↔
        response.truncated = true ∨
          req.maxTotalMatches - total ≤ (opened.map (nodeWeight fold req)).sum ∨
          req.maxFiles - response.filesScanned < files.length) := by
  induction files generalizing total response opened with
  | nil =>
    rw [List.take_nil] at first
    subst first
    rw [searchFiles, shares_nil, List.map_nil, List.append_nil, List.map_nil, List.sum_nil,
      List.length_nil]
    refine ⟨rfl, .inl, ?_⟩
    rintro (before | none | none)
    · exact before
    · omega
    · omega
  | cons file files ih =>
    by_cases past : response.filesScanned ≥ req.maxFiles
    · rw [show req.maxFiles - response.filesScanned = 0 by omega, List.take_zero] at first
      subst first
      rw [searchFiles, if_pos past, shares_nil, List.map_nil, List.append_nil]
      refine ⟨rfl, iff_of_true rfl (.inr (.inr ?_))⟩
      rw [List.length_cons]
      omega
    · obtain ⟨m, left⟩ : ∃ m, req.maxFiles - response.filesScanned = m + 1 :=
        Nat.exists_eq_succ_of_ne_zero (by omega)
      rw [left, List.take_succ_cons] at first
      subst first
      obtain ⟨next, found, scanned, stopped, round⟩ := searchFiles_cons room past
      rw [round, shares_cons, List.map_append, ← List.append_assoc, ← found, List.map_cons,
        List.sum_cons, left, List.length_cons]
      split
      case isTrue full =>
        have used : req.maxTotalMatches - total -
            min (nodeWeight fold req file) (req.maxTotalMatches - total) = 0 := by omega
        rw [used, shares_zero, List.map_nil, List.append_nil, stopped]
        refine ⟨rfl, iff_of_true (.inr (by omega)) (.inr (.inl (by omega)))⟩
      case isFalse more =>
        have rest : files.take m = files.take (req.maxFiles - next.filesScanned) :=
          congrArg (List.take · files) (by omega)
        obtain ⟨files', truncated⟩ := ih (Nat.lt_of_not_le more) (by omega) rest
        have small : min (nodeWeight fold req file) (req.maxTotalMatches - total) =
          nodeWeight fold req file := by omega
        refine ⟨?_, ?_⟩
        · rw [files', Nat.sub_sub]
        · rw [truncated, stopped, scanned, small]
          refine ⟨?_, ?_⟩
          · rintro ((before | past) | past | past)
            · exact .inl before
            · omega
            · exact .inr (.inl (by omega))
            · exact .inr (.inr (by omega))
          · rintro (before | past | past)
            · exact .inl (.inl before)
            · exact .inr (.inl (by omega))
            · exact .inr (.inr (by omega))

end KimiCli.Grep
