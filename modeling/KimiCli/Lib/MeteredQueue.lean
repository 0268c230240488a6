import Mathlib.Algebra.BigOperators.Group.Finset.Basic
import Mathlib.Algebra.Order.BigOperators.Group.Finset
import Mathlib.Data.List.Nodup
import Mathlib.Logic.Function.Iterate
import Mathlib.Algebra.GroupWithZero.Nat

/-!
# Queues that are served in rounds

Groups of items wait in a queue.  A round gives out items in order, up to a bound on their size; an
item whose key has been given out often enough is passed over.  A group of which an item does not
fit goes back to the front, with all its items.

Whether every item is given out at most once and the queue becomes empty can be read off the state
before each round (`once_and_done_iff`).
-/

structure Meter (α κ : Type*) where
  key : α → κ
  size : α → ℕ
  /-- How often a key is given out. -/
  maxCount : ℕ
  /-- How much a round gives out. -/
  maxSize : ℕ

namespace Meter

variable {α κ : Type*} [DecidableEq κ] (m : Meter α κ)

def bump (count : κ → ℕ) (a : α) : κ → ℕ :=
  Function.update count (m.key a) (count (m.key a) + 1)

/-- The counts when these items have been given out. -/
def after (count : κ → ℕ) (items : List α) : κ → ℕ := items.foldl m.bump count

def sizes (items : List α) : ℕ := (items.map m.size).sum

/-- One group: the items that are given out, and whether all fit. -/
def serve (count : κ → ℕ) (total : ℕ) : List α → List α × Bool
  | [] => ([], true)
  | a :: items =>
    if m.maxCount ≤ count (m.key a) then serve count total items
    else if m.maxSize < total + m.size a then ([], false)
    else
      let (given, fits) := serve (m.bump count a) (total + m.size a) items
      (a :: given, fits)

/-- The groups in order: the items that are given out, and the groups that remain. -/
def serveAll (count : κ → ℕ) (total : ℕ) : List (List α) → List α × List (List α)
  | [] => ([], [])
  | group :: groups =>
    match m.serve count total group with
    | (given, true) =>
      let (more, rest) := serveAll (m.after count given) (total + m.sizes given) groups
      (given ++ more, rest)
    | (given, false) => (given, group :: groups)

/-- What would be given out if sizes did not matter. -/
def due (count : κ → ℕ) : List α → List α
  | [] => []
  | a :: items =>
    if m.maxCount ≤ count (m.key a) then due count items else a :: due (m.bump count a) items

variable {m} {count count' : κ → ℕ} {total : ℕ} {items : List α} {a : α}

theorem after_append (front back : List α) :
    m.after count (front ++ back) = m.after (m.after count front) back := by
  rw [after, after, after, List.foldl_append]

omit [DecidableEq κ] in
theorem sizes_append (front back : List α) :
    m.sizes (front ++ back) = m.sizes front + m.sizes back := by
  rw [sizes, sizes, sizes, List.map_append, List.sum_append]

omit [DecidableEq κ] in
theorem sizes_cons (a : α) (items : List α) : m.sizes (a :: items) = m.size a + m.sizes items := by
  rw [sizes, sizes, List.map_cons, List.sum_cons]

theorem le_bump (count : κ → ℕ) (a : α) : count ≤ m.bump count a := by
  intro k
  rw [bump]
  by_cases same : k = m.key a
  · rw [same, Function.update_self]
    exact Nat.le_succ _
  · rw [Function.update_of_ne same]

theorem le_after (count : κ → ℕ) (items : List α) : count ≤ m.after count items := by
  induction items generalizing count with
  | nil => exact le_rfl
  | cons a items ih => exact (le_bump count a).trans (ih _)

/-! ## One group -/

theorem serve_sublist : ∀ (items : List α) (count : κ → ℕ) (total : ℕ),
    (m.serve count total items).1.Sublist items
  | [], _, _ => .slnil
  | a :: items, count, total => by
    rw [serve]
    split
    case isTrue => exact (serve_sublist items _ _).cons a
    case isFalse =>
      split
      case isTrue => exact List.nil_sublist _
      case isFalse => exact (serve_sublist items _ _).cons_cons a

theorem lt_of_mem_serve : ∀ {items : List α} {count : κ → ℕ} {total : ℕ},
    a ∈ (m.serve count total items).1 → count (m.key a) < m.maxCount
  | [], _, _, mem => nomatch mem
  | b :: items, count, total, mem => by
    rw [serve] at mem
    split at mem
    case isTrue => exact lt_of_mem_serve mem
    case isFalse free =>
      split at mem
      case isTrue => cases mem
      case isFalse =>
        rcases List.mem_cons.1 mem with rfl | mem
        · exact Nat.lt_of_not_le free
        · exact Nat.lt_of_le_of_lt (le_bump count b _) (lt_of_mem_serve mem)

theorem due_of_serve (more : List α) : ∀ (items : List α) (count : κ → ℕ) (total : ℕ),
    total ≤ m.maxSize →
    let given := (m.serve count total items).1
    total + m.sizes given ≤ m.maxSize ∧
      if (m.serve count total items).2 then
        m.due count (items ++ more) = given ++ m.due (m.after count given) more
      else ∃ a ∈ items, ∃ rest, m.due count (items ++ more) = given ++ a :: rest ∧
        m.maxSize < total + m.sizes given + m.size a
  | [], _, _, le => ⟨le, rfl⟩
  | a :: items, count, total, le => by
    rw [serve, List.cons_append, due]
    split
    case isTrue =>
      obtain ⟨fits, whole⟩ := due_of_serve more items count total le
      refine ⟨fits, ?_⟩
      split
      case isTrue here => rwa [if_pos here] at whole
      case isFalse cut =>
        rw [if_neg cut] at whole
        obtain ⟨b, mem, rest⟩ := whole
        exact ⟨b, List.mem_cons_of_mem a mem, rest⟩
    case isFalse =>
      split
      case isTrue large =>
        exact ⟨le, a, List.mem_cons_self, _, rfl, large⟩
      case isFalse small =>
        obtain ⟨fits, whole⟩ :=
          due_of_serve more items (m.bump count a) (total + m.size a) (Nat.le_of_not_lt small)
        generalize m.serve (m.bump count a) (total + m.size a) items = result at fits whole ⊢
        obtain ⟨given, all⟩ := result
        dsimp only at fits whole ⊢
        rw [sizes_cons, ← Nat.add_assoc]
        refine ⟨fits, ?_⟩
        split
        case isTrue here =>
          rw [if_pos here] at whole
          exact congrArg (a :: ·) whole
        case isFalse cut =>
          rw [if_neg cut] at whole
          obtain ⟨b, mem, rest, eq, large⟩ := whole
          exact ⟨b, List.mem_cons_of_mem a mem, rest, congrArg (a :: ·) eq, large⟩

/-- If an item that was given out may be given out again, then some item of the group is, when the
group comes first. -/
theorem serve_again : ∀ {items : List α} {count : κ → ℕ} {total : ℕ} (count' : κ → ℕ),
    m.after count (m.serve count total items).1 ≤ count' →
    a ∈ (m.serve count total items).1 → count' (m.key a) < m.maxCount →
    ∃ b ∈ (m.serve count total items).1, b ∈ (m.serve count' 0 items).1
  | [], _, _, _ => fun _ mem _ => nomatch mem
  | b :: items, count, total, count' => by
    intro le mem again
    have grown := (le_after count _).trans le
    rw [serve] at le mem ⊢
    split at le
    case isTrue spent =>
      rw [if_pos spent] at mem ⊢
      rw [serve, if_pos (spent.trans (grown _))]
      exact serve_again count' le mem again
    case isFalse free =>
      rw [if_neg free] at mem ⊢
      split at le
      case isTrue large =>
        rw [if_pos large] at mem
        cases mem
      case isFalse small =>
        rw [if_neg small] at mem ⊢
        rw [serve]
        by_cases spent : m.maxCount ≤ count' (m.key b)
        · rw [if_pos spent]
          have inside : a ∈ (m.serve (m.bump count b) (total + m.size b) items).1 := by
            rcases List.mem_cons.1 mem with rfl | mem
            · exact absurd again (Nat.not_lt_of_le spent)
            · exact mem
          obtain ⟨c, given, anew⟩ := serve_again count' le inside again
          exact ⟨c, List.mem_cons_of_mem b given, anew⟩
        · rw [if_neg spent, if_neg (by omega)]
          exact ⟨b, List.mem_cons_self, List.mem_cons_self⟩

/-! ## A round -/

/-- A round gives out what is due and empties the queue, or there is a group that it cuts. -/
theorem serveAll_cases : ∀ (groups : List (List α)) (count : κ → ℕ) (total : ℕ),
    total ≤ m.maxSize →
    ((m.serveAll count total groups).2 = [] ∧
      (m.serveAll count total groups).1.Sublist groups.flatten ∧
      m.due count groups.flatten = (m.serveAll count total groups).1 ∧
      total + m.sizes (m.serveAll count total groups).1 ≤ m.maxSize) ∨
    ∃ done group rest given, groups = done ++ group :: rest ∧ given.Sublist done.flatten ∧
      total + m.sizes given ≤ m.maxSize ∧
      (∀ more, m.due count (done.flatten ++ more) = given ++ m.due (m.after count given) more) ∧
      (m.serve (m.after count given) (total + m.sizes given) group).2 = false ∧
      m.serveAll count total groups =
        (given ++ (m.serve (m.after count given) (total + m.sizes given) group).1, group :: rest)
  | [], count, total, le => .inl ⟨rfl, .slnil, rfl, le⟩
  | group :: groups, count, total, le => by
    obtain ⟨fits, whole⟩ := due_of_serve groups.flatten group count total le
    have sub := serve_sublist (m := m) group count total
    rw [serveAll]
    rcases served : m.serve count total group with ⟨given, all⟩
    rw [served] at fits whole sub
    cases all with
    | false =>
      refine .inr ⟨[], group, groups, [], rfl, .slnil, le, fun _ => rfl, ?_, ?_⟩
      · exact congrArg Prod.snd served
      · exact congrArg (fun result => (result.1, group :: groups)) served.symm
    | true =>
      rw [if_pos rfl] at whole
      dsimp only
      rcases serveAll_cases groups (m.after count given) (total + m.sizes given) fits with
        ⟨none, sub', due, fits'⟩ | ⟨done, cut, rest, more, rfl, sub', fits', due, notAll, result⟩
      · refine .inl ⟨none, sub.append sub', ?_, ?_⟩
        · rw [List.flatten_cons, whole, due]
        · rw [sizes_append, ← Nat.add_assoc]
          exact fits'
      · refine .inr ⟨group :: done, cut, rest, given ++ more, rfl, sub.append sub', ?_, ?_, ?_, ?_⟩
        · rw [sizes_append, ← Nat.add_assoc]
          exact fits'
        · intro items
          have first := (due_of_serve (done.flatten ++ items) group count total le).2
          rw [served, if_pos rfl] at first
          rw [List.flatten_cons, List.append_assoc, first, due, after_append, List.append_assoc]
        · rw [after_append, sizes_append, ← Nat.add_assoc]
          exact notAll
        · rw [result, after_append, sizes_append, ← Nat.add_assoc, List.append_assoc]

/-- What waits, and how often each key has been given out. -/
structure Waiting (α κ : Type*) where
  count : κ → ℕ
  groups : List (List α)

variable (m) in
/-- What the next round gives out. -/
def given (s : Waiting α κ) : List α := (m.serveAll s.count 0 s.groups).1

variable (m) in
def next (s : Waiting α κ) : Waiting α κ where
  count := m.after s.count (m.given s)
  groups := (m.serveAll s.count 0 s.groups).2

variable (m) in
/-- Among what is due there is a first item that does not fit.  Something comes before it, and what
comes before it in its own group is not given out again. -/
def Smooth (s : Waiting α κ) : Prop :=
  ∀ before a rest, m.due s.count s.groups.flatten = before ++ a :: rest →
    m.sizes before ≤ m.maxSize → m.maxSize < m.sizes before + m.size a →
    before ≠ [] ∧ ∀ group ∈ s.groups, a ∈ group → ∀ b ∈ before, b ∈ group →
      m.maxCount ≤ m.after s.count before (m.key b)

variable {s : Waiting α κ}

/-- How a round ends. -/
theorem next_cases (s : Waiting α κ) :
    ((m.next s).groups = [] ∧ (m.given s).Sublist s.groups.flatten ∧
      m.due s.count s.groups.flatten = m.given s ∧ m.sizes (m.given s) ≤ m.maxSize) ∨
    ∃ done group rest given, s.groups = done ++ group :: rest ∧ given.Sublist done.flatten ∧
      m.sizes given ≤ m.maxSize ∧
      (∀ more, m.due s.count (done.flatten ++ more) =
        given ++ m.due (m.after s.count given) more) ∧
      (m.serve (m.after s.count given) (m.sizes given) group).2 = false ∧
      m.given s = given ++ (m.serve (m.after s.count given) (m.sizes given) group).1 ∧
      (m.next s).groups = group :: rest := by
  have cases := serveAll_cases s.groups s.count 0 (Nat.zero_le m.maxSize)
  simp only [Nat.zero_add] at cases
  refine cases.imp_right ?_
  rintro ⟨done, group, rest, given, eq, sub, fits, due, notAll, result⟩
  exact ⟨done, group, rest, given, eq, sub, fits, due, notAll, congrArg Prod.fst result,
    congrArg Prod.snd result⟩

theorem groups_next_suffix (s : Waiting α κ) : (m.next s).groups <:+ s.groups := by
  rcases next_cases (m := m) s with ⟨none, -⟩ | ⟨done, group, rest, given, eq, -, -, -, -, -, next⟩
  · exact none ▸ List.nil_suffix
  · exact ⟨done, next ▸ eq.symm⟩

theorem given_sublist (s : Waiting α κ) : (m.given s).Sublist s.groups.flatten := by
  rcases next_cases (m := m) s with
    ⟨-, sub, -⟩ | ⟨done, group, rest, given, eq, sub, -, -, -, result, -⟩
  · exact sub
  · rw [eq, result, List.flatten_append, List.flatten_cons]
    exact sub.append ((serve_sublist _ _ _).trans (List.sublist_append_left _ _))

omit [DecidableEq κ] in
/-- There is only one place where the size runs over. -/
theorem cut_unique {before before' rest rest' : List α} {b : α}
    (same : before ++ a :: rest = before' ++ b :: rest') (fits : m.sizes before ≤ m.maxSize)
    (large : m.maxSize < m.sizes before + m.size a) (fits' : m.sizes before' ≤ m.maxSize)
    (large' : m.maxSize < m.sizes before' + m.size b) : before = before' ∧ a = b := by
  rcases List.append_eq_append_iff.1 same with ⟨c, rfl, eq⟩ | ⟨c, rfl, eq⟩
  · rcases c with - | ⟨d, c⟩
    · exact ⟨(List.append_nil _).symm, (List.cons.inj eq).1⟩
    · obtain ⟨rfl, -⟩ := List.cons.inj eq
      rw [sizes_append, sizes_cons] at fits'
      omega
  · rcases c with - | ⟨d, c⟩
    · exact ⟨List.append_nil _, (List.cons.inj eq).1.symm⟩
    · obtain ⟨rfl, -⟩ := List.cons.inj eq
      rw [sizes_append, sizes_cons] at fits
      omega

omit [DecidableEq κ] in
theorem group_unique (nodup : s.groups.flatten.Nodup) {group group' : List α}
    (mem : group ∈ s.groups) (mem' : group' ∈ s.groups) (here : a ∈ group) (here' : a ∈ group') :
    group = group' := by
  by_contra ne
  have : Std.Symm (α := List α) List.Disjoint := ⟨fun _ _ disjoint => disjoint.symm⟩
  exact (List.nodup_flatten.1 nodup).2.forall mem mem' ne here here'

/-- The first item that does not fit ends what the round gives out. -/
theorem smooth_iff (nodup : s.groups.flatten.Nodup) :
    m.Smooth s ↔ ∀ group rest, (m.next s).groups = group :: rest →
      m.given s ≠ [] ∧ ∀ b ∈ m.given s, b ∈ group → m.maxCount ≤ (m.next s).count (m.key b) := by
  rcases next_cases (m := m) s with
    ⟨none, -, due, fits⟩ | ⟨done, group, rest, given, eq, sub, fits, due, notAll, result, next⟩
  · refine iff_of_true (fun before a rest eq _ large => ?_) fun group rest eq => ?_
    · rw [due] at eq
      rw [eq, sizes_append, sizes_cons] at fits
      omega
    · rw [none] at eq
      cases eq
  · have mem : group ∈ s.groups := eq ▸ List.mem_append_right _ List.mem_cons_self
    obtain ⟨fits', cut⟩ :=
      due_of_serve rest.flatten group (m.after s.count given) (m.sizes given) fits
    rw [if_neg (Bool.eq_false_iff.1 notAll)] at cut
    obtain ⟨a, inside, more, cutDue, large⟩ := cut
    have whole : m.due s.count s.groups.flatten = m.given s ++ a :: more := by
      rw [eq, List.flatten_append, List.flatten_cons, due, cutDue, result, List.append_assoc]
    rw [← sizes_append, ← result] at fits' large
    constructor
    · intro smooth group' rest' eq'
      obtain ⟨rfl, rfl⟩ := List.cons.inj (next.symm.trans eq')
      obtain ⟨some, spent⟩ := smooth _ a more whole fits' large
      exact ⟨some, fun b given here => spent group mem inside b given here⟩
    · intro spent before b rest' eq' fits'' large''
      obtain ⟨rfl, rfl⟩ := cut_unique (whole.symm.trans eq') fits' large fits'' large''
      obtain ⟨some, spent⟩ := spent group rest next
      refine ⟨some, fun group' mem' here b given inGroup => spent b given ?_⟩
      exact group_unique nodup mem mem' inside here ▸ inGroup

/-! ## Rounds -/

theorem lt_of_mem_serveAll : ∀ {groups : List (List α)} {count : κ → ℕ} {total : ℕ},
    a ∈ (m.serveAll count total groups).1 → count (m.key a) < m.maxCount
  | [], _, _, mem => nomatch mem
  | group :: groups, count, total, mem => by
    rw [serveAll] at mem
    rcases served : m.serve count total group with ⟨given, all⟩
    have first (inside : a ∈ given) : count (m.key a) < m.maxCount := by
      have here : a ∈ (m.serve count total group).1 := by rwa [served]
      exact lt_of_mem_serve here
    rw [served] at mem
    cases all with
    | false => exact first mem
    | true =>
      rcases List.mem_append.1 mem with mem | mem
      · exact first mem
      · exact Nat.lt_of_le_of_lt (le_after count given _) (lt_of_mem_serveAll mem)

theorem next_next_of_given_nil (none : m.given s = []) (left : (m.next s).groups ≠ []) :
    m.next (m.next s) = m.next s := by
  have count : (m.next s).count = s.count := by
    rw [Meter.next, none]
    rfl
  rcases next_cases (m := m) s with
    ⟨empty, -⟩ | ⟨done, group, rest, given, -, -, -, -, notAll, result, groups⟩
  · exact absurd empty left
  · rw [none] at result
    obtain ⟨rfl, nothing⟩ := List.append_eq_nil_iff.1 result.symm
    have served : m.serve s.count 0 group = ([], false) := Prod.ext nothing notAll
    have again : m.serveAll (m.next s).count 0 (m.next s).groups = ([], group :: rest) := by
      rw [count, groups, serveAll, served]
    have given : m.given (m.next s) = [] := congrArg Prod.fst again
    rw [Meter.next, again, given, ← groups]
    rfl

theorem given_again (nodup : s.groups.flatten.Nodup) {group : List α} {rest : List (List α)}
    (left : (m.next s).groups = group :: rest) (mem : a ∈ m.given s) (inside : a ∈ group)
    (again : (m.next s).count (m.key a) < m.maxCount) :
    ∃ b ∈ m.given s, b ∈ m.given (m.next s) := by
  rcases next_cases (m := m) s with
    ⟨empty, -⟩ | ⟨done, group', rest', given, eq, sub, -, -, notAll, result, groups⟩
  · exact nomatch empty.symm.trans left
  obtain ⟨rfl, rfl⟩ := List.cons.inj (groups.symm.trans left)
  have count : (m.next s).count = m.after (m.after s.count given)
      (m.serve (m.after s.count given) (m.sizes given) group').1 := by
    rw [Meter.next, result, after_append]
  have own : a ∈ (m.serve (m.after s.count given) (m.sizes given) group').1 := by
    refine (List.mem_append.1 (result ▸ mem)).resolve_left fun before => ?_
    rw [eq, List.flatten_append, List.nodup_append'] at nodup
    exact nodup.2.2 (sub.subset before) (List.mem_append_left _ inside)
  obtain ⟨b, first, second⟩ := serve_again (m.next s).count count.ge own again
  refine ⟨b, result ▸ List.mem_append_right _ first, ?_⟩
  rw [Meter.given, left, serveAll]
  rcases served : m.serve (m.next s).count 0 group' with ⟨anew, all⟩
  rw [served] at second
  cases all with
  | false => exact second
  | true => exact List.mem_append_left _ second

theorem spent_of_smooth (nodup : s.groups.flatten.Nodup) (smooth : m.Smooth s)
    (mem : a ∈ m.given s) (waits : a ∈ (m.next s).groups.flatten) :
    m.maxCount ≤ (m.next s).count (m.key a) := by
  have known := (smooth_iff nodup).1 smooth
  rcases next_cases (m := m) s with
    ⟨empty, -⟩ | ⟨done, group, rest, given, eq, sub, -, -, notAll, result, groups⟩
  · rw [empty] at waits
    cases waits
  · refine (known group rest groups).2 a mem ?_
    rw [groups, List.flatten_cons] at waits
    refine (List.mem_append.1 waits).resolve_right fun later => ?_
    -- the groups behind the cut have not been looked at
    rw [eq, List.flatten_append, List.flatten_cons, ← List.append_assoc,
      List.nodup_append'] at nodup
    refine nodup.2.2 ?_ later
    rw [result] at mem
    exact (sub.append (serve_sublist _ _ _)).subset mem

variable (m) in
/-- The state after `n` rounds. -/
def rounds (s : Waiting α κ) (n : ℕ) : Waiting α κ := m.next^[n] s

variable (m) in
/-- What the first `n` rounds give out. -/
def givenBy (s : Waiting α κ) (n : ℕ) : List α :=
  (List.range n).flatMap fun k => m.given (m.rounds s k)

theorem rounds_succ (s : Waiting α κ) (n : ℕ) : m.rounds s (n + 1) = m.next (m.rounds s n) :=
  Function.iterate_succ_apply' m.next n s

theorem givenBy_succ (s : Waiting α κ) (n : ℕ) :
    m.givenBy s (n + 1) = m.givenBy s n ++ m.given (m.rounds s n) := by
  rw [givenBy, givenBy, List.range_succ, List.flatMap_append, List.flatMap_singleton]

theorem rounds_nodup (nodup : s.groups.flatten.Nodup) (n : ℕ) :
    (m.rounds s n).groups.flatten.Nodup := by
  induction n with
  | zero => exact nodup
  | succ n ih =>
    rw [rounds_succ]
    exact ih.sublist (groups_next_suffix _).sublist.flatten

theorem rounds_suffix (s : Waiting α κ) (n : ℕ) : (m.rounds s n).groups <:+ s.groups := by
  induction n with
  | zero => exact List.suffix_refl _
  | succ n ih =>
    rw [rounds_succ]
    exact (groups_next_suffix _).trans ih

theorem givenBy_subset (s : Waiting α κ) (n : ℕ) : m.givenBy s n ⊆ s.groups.flatten := by
  intro a mem
  obtain ⟨k, -, given⟩ := List.mem_flatMap.1 mem
  exact (rounds_suffix s k).sublist.flatten.subset ((given_sublist _).subset given)

theorem givenBy_nodup (nodup : s.groups.flatten.Nodup) (smooth : ∀ n, m.Smooth (m.rounds s n))
    (n : ℕ) : (m.givenBy s n).Nodup ∧ ∀ a ∈ m.givenBy s n,
      a ∈ (m.rounds s n).groups.flatten → m.maxCount ≤ (m.rounds s n).count (m.key a) := by
  induction n with
  | zero => exact ⟨List.nodup_nil, nofun⟩
  | succ n ih =>
    obtain ⟨once, spent⟩ := ih
    have waiting := rounds_nodup (m := m) nodup n
    rw [givenBy_succ, rounds_succ]
    refine ⟨once.append (waiting.sublist (given_sublist _)) fun a before now => ?_, ?_⟩
    · exact Nat.not_lt_of_le (spent a before ((given_sublist _).subset now))
        (lt_of_mem_serveAll now)
    · intro a mem waits
      rcases List.mem_append.1 mem with before | now
      · have waited := (groups_next_suffix (m := m) (m.rounds s n)).sublist.flatten.subset waits
        exact (spent a before waited).trans (le_after _ _ _)
      · exact spent_of_smooth waiting (smooth n) now waits

theorem succ_le_after {count : κ → ℕ} : ∀ {items : List α}, a ∈ items →
    count (m.key a) + 1 ≤ m.after count items (m.key a)
  | b :: items, mem => by
    rcases List.mem_cons.1 mem with rfl | mem
    · refine le_trans ?_ (le_after (m.bump count a) items (m.key a))
      rw [bump, Function.update_self]
    · exact (Nat.succ_le_succ (le_bump count b _)).trans (succ_le_after mem)

/-- Smooth rounds come to an end: each uses up what the keys have left. -/
theorem rounds_end (smooth : ∀ n, m.Smooth (m.rounds s n)) (nodup : s.groups.flatten.Nodup) :
    ∃ n, (m.rounds s n).groups = [] := by
  by_contra never
  rw [not_exists] at never
  let left (n : ℕ) : ℕ :=
    ∑ k ∈ (s.groups.flatten.map m.key).toFinset, (m.maxCount - (m.rounds s n).count k)
  have less (n : ℕ) : left (n + 1) < left n := by
    obtain ⟨group, rest, eq⟩ := List.exists_cons_of_ne_nil (never (n + 1))
    have some := ((smooth_iff (rounds_nodup nodup n)).1 (smooth n) group rest
      (rounds_succ (m := m) s n ▸ eq)).1
    obtain ⟨b, mem⟩ := List.exists_mem_of_ne_nil _ some
    have known : m.key b ∈ (s.groups.flatten.map m.key).toFinset := by
      refine List.mem_toFinset.2 (List.mem_map_of_mem ?_)
      exact (rounds_suffix s n).sublist.flatten.subset ((given_sublist _).subset mem)
    have more : _ ≤ m.after (m.rounds s n).count (m.given (m.rounds s n)) _ := succ_le_after mem
    have free := lt_of_mem_serveAll mem
    dsimp only [left]
    rw [rounds_succ]
    refine Finset.sum_lt_sum (fun k _ => ?_) ⟨m.key b, known, ?_⟩
    · exact Nat.sub_le_sub_left (le_after _ _ k) _
    · change _ - m.after _ _ _ < _
      omega
  have bound (n : ℕ) : left n + n ≤ left 0 := by
    induction n with
    | zero => exact le_rfl
    | succ n =>
      have := less n
      omega
  have := bound (left 0 + 1)
  omega

/-- Every item is given out at most once and in the end nothing waits, exactly if every round is
smooth. -/
theorem once_and_done_iff (nodup : s.groups.flatten.Nodup) :
    ((∀ n, (m.givenBy s n).Nodup) ∧ ∃ n, (m.rounds s n).groups = []) ↔
      ∀ n, m.Smooth (m.rounds s n) := by
  constructor
  · rintro ⟨once, last, empty⟩ n
    refine (smooth_iff (rounds_nodup nodup n)).2 fun group rest left => ⟨fun none => ?_, ?_⟩
    · -- the queue is stuck
      have left' : (m.next (m.rounds s n)).groups ≠ [] := by
        rw [left]
        exact List.cons_ne_nil _ _
      have stuck (k : ℕ) : m.rounds s (n + 1 + k) = m.next (m.rounds s n) := by
        induction k with
        | zero => exact rounds_succ s n
        | succ k ih =>
          rw [← Nat.add_assoc, rounds_succ, ih]
          exact next_next_of_given_nil none left'
      have later : (m.rounds s (n + 1 + last)).groups = [] := by
        rw [rounds, Function.iterate_add_apply]
        exact List.suffix_nil.1 (empty ▸ rounds_suffix (m.rounds s last) (n + 1))
      exact left' (stuck last ▸ later)
    · intro b mem inside
      by_contra spent
      obtain ⟨c, first, second⟩ :=
        given_again (rounds_nodup nodup n) left mem inside (Nat.lt_of_not_le spent)
      have twice := once (n + 2)
      rw [givenBy_succ, givenBy_succ, rounds_succ, List.nodup_append'] at twice
      exact twice.2.2 (List.mem_append_right _ first) second
  · exact fun smooth => ⟨fun n => (givenBy_nodup nodup smooth n).1, rounds_end smooth nodup⟩

end Meter
