import Mathlib.Data.Finset.Card

/-!
# Supplies of names

A supply offers one candidate after another and never the same one twice, but may give up.  The
search for the first candidate that is not in use ends: a finite list holds only finitely many of
the candidates.
-/

structure NameSupply (ε α : Type*) where
  candidate : ℕ → Except ε α
  /-- No name is offered twice. -/
  distinct : ∀ i j a, candidate i = .ok a → candidate j = .ok a → i = j

namespace NameSupply

variable {ε α : Type*} [DecidableEq α]

section Measure

open scoped Classical

/-- The names in use that are still to be offered from `i` on. -/
noncomputable def ahead (s : NameSupply ε α) (used : List α) (i : ℕ) : Finset α :=
  used.toFinset.filter fun a => ∃ j, i ≤ j ∧ s.candidate j = .ok a

theorem card_ahead_le (s : NameSupply ε α) (used : List α) (i : ℕ) :
    (s.ahead used i).card ≤ used.length :=
  (Finset.card_filter_le _ _).trans (List.toFinset_card_le used)

theorem ahead_succ_lt {s : NameSupply ε α} {used : List α} {i : ℕ} {a : α}
    (offered : s.candidate i = .ok a) (mem : a ∈ used) :
    (s.ahead used (i + 1)).card < (s.ahead used i).card := by
  refine Finset.card_lt_card (Finset.ssubset_iff_of_subset ?_ |>.2 ⟨a, ?_, ?_⟩)
  · intro b inside
    obtain ⟨inUse, j, le, here⟩ := Finset.mem_filter.1 inside
    exact Finset.mem_filter.2 ⟨inUse, j, Nat.le_of_succ_le le, here⟩
  · exact Finset.mem_filter.2 ⟨List.mem_toFinset.2 mem, i, Nat.le_refl i, offered⟩
  · intro inside
    obtain ⟨-, j, le, here⟩ := Finset.mem_filter.1 inside
    exact absurd (s.distinct i j a offered here) (Nat.ne_of_lt le)

end Measure

/-- The first candidate from `i` on that is not in use. -/
def fresh (s : NameSupply ε α) (used : List α) (i : ℕ) : Except ε α :=
  match _found : s.candidate i with
  | .error e => .error e
  | .ok a => if a ∈ used then s.fresh used (i + 1) else .ok a
termination_by (s.ahead used i).card
decreasing_by exact ahead_succ_lt _found (by assumption)

variable {s : NameSupply ε α} {used : List α} {i : ℕ} {a : α}

theorem fresh_of_mem (offered : s.candidate i = .ok a) (mem : a ∈ used) :
    s.fresh used i = s.fresh used (i + 1) := by
  rw [fresh]
  split
  case h_1 stops => exact nomatch stops.symm.trans offered
  case h_2 b here =>
    obtain rfl := Except.ok.inj (here.symm.trans offered)
    exact if_pos mem

theorem fresh_of_not_mem (offered : s.candidate i = .ok a) (free : a ∉ used) :
    s.fresh used i = .ok a := by
  rw [fresh]
  split
  case h_1 stops => exact nomatch stops.symm.trans offered
  case h_2 b here =>
    obtain rfl := Except.ok.inj (here.symm.trans offered)
    exact if_neg free

theorem fresh_of_error {e : ε} (stops : s.candidate i = .error e) : s.fresh used i = .error e := by
  rw [fresh]
  split
  case h_1 here => exact here.symm.trans stops
  case h_2 here => exact nomatch here.symm.trans stops

theorem fresh_eq_ok (found : s.fresh used i = .ok a) :
    a ∉ used ∧ ∃ j, i ≤ j ∧ s.candidate j = .ok a := by
  induction i using fresh.induct s used with
  | case1 i e stops => exact nomatch (fresh_of_error stops).symm.trans found
  | case2 i b offered mem ih =>
    obtain ⟨free, j, le, here⟩ := ih ((fresh_of_mem offered mem).symm.trans found)
    exact ⟨free, j, Nat.le_of_succ_le le, here⟩
  | case3 i b offered free =>
    obtain rfl := Except.ok.inj ((fresh_of_not_mem offered free).symm.trans found)
    exact ⟨free, i, Nat.le_refl i, offered⟩

theorem fresh_eq_error {e : ε} (none : s.fresh used i = .error e) :
    ∃ j, i ≤ j ∧ j ≤ i + used.length ∧ s.candidate j = .error e := by
  -- each step passes over a name in use that is not ahead any more
  have bounded : ∃ j, i ≤ j ∧ j ≤ i + (s.ahead used i).card ∧ s.candidate j = .error e := by
    induction i using fresh.induct s used with
    | case1 i e' stops =>
      obtain rfl := Except.error.inj ((fresh_of_error stops).symm.trans none)
      exact ⟨i, Nat.le_refl i, Nat.le_add_right _ _, stops⟩
    | case2 i b offered mem ih =>
      obtain ⟨j, le, le', here⟩ := ih ((fresh_of_mem offered mem).symm.trans none)
      have := ahead_succ_lt offered mem
      exact ⟨j, by omega, by omega, here⟩
    | case3 i b offered free => exact nomatch (fresh_of_not_mem offered free).symm.trans none
  obtain ⟨j, le, le', here⟩ := bounded
  exact ⟨j, le, le'.trans (Nat.add_le_add_left (card_ahead_le s used i) i), here⟩

/-- A supply that does not give up within as many candidates as there are names in use has a
fresh one. -/
theorem exists_fresh (offers : ∀ j, i ≤ j → j ≤ i + used.length → ∃ b, s.candidate j = .ok b) :
    ∃ b, s.fresh used i = .ok b := by
  rcases found : s.fresh used i with e | b
  · obtain ⟨j, le, le', stops⟩ := fresh_eq_error found
    obtain ⟨b, offered⟩ := offers j le le'
    exact nomatch stops.symm.trans offered
  · exact ⟨b, rfl⟩

end NameSupply
