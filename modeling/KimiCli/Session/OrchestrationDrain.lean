import KimiCli.Lib.MeteredQueue
import KimiCli.Session.OrchestrationHooks

/-!
# Draining to the end

One `drain` after another, with no event in between.  A drain is a round of a metered queue: the
groups are the skills of the events, the key of an item is the skill with the type of the event, and
its size is the length of its text.
-/

namespace KimiCli

/-- How `drain` serves the skills of the events. -/
def skillMeter (o : OrchestrationOptions) : Meter SkillOffer String where
  key := SkillOffer.repKey
  size := SkillOffer.size
  maxCount := o.maxSkillRepetition
  maxSize := o.maxInjectionSize

variable {o : OrchestrationOptions}

namespace SkillDrain

theorem serve_eq : ∀ (offers : List SkillOffer) (d : SkillDrain),
    let served := (skillMeter o).serve d.hooks.skillRepetitionCount d.totalSize offers
    (d.serve o offers).2 = served.2 ∧ (d.serve o offers).1.out = d.out ++ served.1 ∧
      (d.serve o offers).1.totalSize = d.totalSize + (skillMeter o).sizes served.1 ∧
      (d.serve o offers).1.hooks.skillRepetitionCount =
        (skillMeter o).after d.hooks.skillRepetitionCount served.1 ∧
      (d.serve o offers).1.hooks.queue = d.hooks.queue
  | [], d => ⟨rfl, (List.append_nil _).symm, rfl, rfl, rfl⟩
  | offer :: offers, d => by
    rw [serve, Meter.serve]
    by_cases spent : o.maxSkillRepetition ≤ d.hooks.skillRepetitionCount offer.repKey
    · have spent' : (skillMeter o).maxCount ≤
          d.hooks.skillRepetitionCount ((skillMeter o).key offer) := spent
      rw [if_pos spent, if_pos spent']
      exact serve_eq offers _
    · have free : ¬ (skillMeter o).maxCount ≤
          d.hooks.skillRepetitionCount ((skillMeter o).key offer) := spent
      rw [if_neg spent, if_neg free]
      by_cases large : o.maxInjectionSize < d.totalSize + offer.size
      · have large' : (skillMeter o).maxSize < d.totalSize + (skillMeter o).size offer := large
        rw [if_pos large, if_pos large']
        exact ⟨rfl, (List.append_nil _).symm, rfl, rfl, rfl⟩
      · have small : ¬ (skillMeter o).maxSize < d.totalSize + (skillMeter o).size offer := large
        rw [if_neg large, if_neg small]
        obtain ⟨all, out, total, count, queue⟩ := serve_eq offers (d.inject offer)
        refine ⟨all, out.trans (List.append_assoc _ _ _), total.trans ?_, count, queue⟩
        exact (Nat.add_assoc _ _ _).trans
          (congrArg (d.totalSize + ·) (Meter.sizes_cons (m := skillMeter o) offer _).symm)

theorem serveQueue_eq (offers : QueuedEvent → List SkillOffer) : ∀ (queue : List QueuedEvent)
    (d : SkillDrain), d.hooks.queue = queue →
    let served := (skillMeter o).serveAll d.hooks.skillRepetitionCount d.totalSize
      (queue.map offers)
    (serveQueue o offers queue d).out = d.out ++ served.1 ∧
      (serveQueue o offers queue d).hooks.skillRepetitionCount =
        (skillMeter o).after d.hooks.skillRepetitionCount served.1 ∧
      (serveQueue o offers queue d).hooks.queue.map offers = served.2
  | [], d, eq => ⟨(List.append_nil _).symm, rfl, by rw [serveQueue, eq]; rfl⟩
  | e :: queue, d, eq => by
    obtain ⟨all, out, total, count, rest⟩ := serve_eq (o := o) (offers e) (d.shift e queue)
    rw [serveQueue, List.map_cons, Meter.serveAll]
    change (serve o (d.shift e queue) (offers e)).2 =
      ((skillMeter o).serve d.hooks.skillRepetitionCount d.totalSize (offers e)).2 at all
    change _ = d.out ++
      ((skillMeter o).serve d.hooks.skillRepetitionCount d.totalSize (offers e)).1 at out
    change _ = d.totalSize + (skillMeter o).sizes
      ((skillMeter o).serve d.hooks.skillRepetitionCount d.totalSize (offers e)).1 at total
    change _ = (skillMeter o).after d.hooks.skillRepetitionCount
      ((skillMeter o).serve d.hooks.skillRepetitionCount d.totalSize (offers e)).1 at count
    change _ = queue at rest
    generalize (skillMeter o).serve d.hooks.skillRepetitionCount d.totalSize (offers e) = served
      at all out total count
    generalize serve o (d.shift e queue) (offers e) = result at all out total count rest
    obtain ⟨given, fits⟩ := served
    obtain ⟨d', fits'⟩ := result
    dsimp only at all out total count rest
    subst all
    cases fits' with
    | false =>
      have back : (e :: d'.hooks.queue).map offers = offers e :: queue.map offers := by
        rw [rest, List.map_cons]
      exact ⟨out, count, back⟩
    | true =>
      obtain ⟨out', count', rest'⟩ := serveQueue_eq offers queue d' rest
      rw [count, total] at out' count' rest'
      refine ⟨out'.trans ?_, count'.trans ?_, rest'⟩
      · rw [out, List.append_assoc]
      · exact (Meter.after_append _ _).symm

end SkillDrain

namespace OrchestrationHooks

variable (o : OrchestrationOptions) (mappings : List SkillMapping) (registry : SkillRegistry)
  (s : OrchestrationHooks)

/-- What waits to be injected. -/
def waiting : Meter.Waiting SkillOffer String where
  count := s.skillRepetitionCount
  groups := s.queue.map (skillOffers registry mappings)

/-- After `n` drains. -/
def drained (n : ℕ) : OrchestrationHooks := (fun s => (s.drain o mappings (some registry)).2)^[n] s

/-- What the first `n` drains inject. -/
def injections (n : ℕ) : List SkillOffer :=
  (List.range n).flatMap fun k =>
    ((s.drained o mappings registry k).runDrain o mappings registry).out

/-- Hooks with these events, in their order, in the queue. -/
def holding (events : List OrchestrationEvent) : OrchestrationHooks :=
  { s with queue := events.zipIdx.map fun (event, arrival) => { event, arrival } }

/-- A drain can go wrong only at the first injection that is due but does not fit: some injection
comes before it, and the skills of the same event that come before it have by then been injected as
often as they may. -/
def SmoothDrain : Prop := (skillMeter o).Smooth (s.waiting mappings registry)

variable {o mappings registry s}

theorem drain_waiting :
    (s.runDrain o mappings registry).out = (skillMeter o).given (s.waiting mappings registry) ∧
      (s.drain o mappings (some registry)).2.waiting mappings registry =
        (skillMeter o).next (s.waiting mappings registry) := by
  obtain ⟨out, count, queue⟩ := SkillDrain.serveQueue_eq (o := o) (skillOffers registry mappings)
    s.queue { hooks := s } rfl
  refine ⟨out, ?_⟩
  change Meter.Waiting.mk _ _ = Meter.Waiting.mk _ _
  exact congrArg₂ Meter.Waiting.mk count queue

theorem drained_waiting (n : ℕ) : (s.drained o mappings registry n).waiting mappings registry =
    (skillMeter o).rounds (s.waiting mappings registry) n := by
  induction n with
  | zero => rfl
  | succ n ih =>
    rw [drained, Function.iterate_succ_apply', Meter.rounds_succ, ← ih]
    exact drain_waiting.2

theorem injections_eq (n : ℕ) : s.injections o mappings registry n =
    (skillMeter o).givenBy (s.waiting mappings registry) n := by
  refine List.flatMap_congr fun k _ => ?_
  rw [drain_waiting.1, drained_waiting]

end OrchestrationHooks

/-! ## The pairs of an event and a mapping -/

/-- The event and the mapping that an injection comes from. -/
def SkillOffer.pair (offer : SkillOffer) : ℕ × ℕ := (offer.arrival, offer.mapping)

section Pairs

variable {registry : SkillRegistry} {mappings : List SkillMapping}

theorem offer_pair {e : QueuedEvent} {mapping : SkillMapping} {i : ℕ} {offer : SkillOffer}
    (found : mapping.offer registry e i = some offer) : offer.pair = (e.arrival, i) := by
  unfold SkillMapping.offer at found
  split at found
  · cases found
  · split at found
    · cases found
    · split at found
      · cases found
      · dsimp only at found
        split at found
        · cases found
        · exact Option.some.inj found ▸ rfl

theorem offers_pairs (registry : SkillRegistry) (e : QueuedEvent) :
    ∀ (mappings : List SkillMapping) (k : ℕ),
    let pairs := ((mappings.zipIdx k).filterMap fun (mapping, i) =>
      mapping.offer registry e i).map SkillOffer.pair
    (∀ pair ∈ pairs, pair.1 = e.arrival ∧ k ≤ pair.2) ∧ pairs.Nodup
  | [], _ => ⟨nofun, List.nodup_nil⟩
  | mapping :: mappings, k => by
    obtain ⟨spec, nodup⟩ := offers_pairs registry e mappings (k + 1)
    have later := fun pair mem =>
      And.intro (spec pair mem).1 (Nat.le_of_succ_le (spec pair mem).2)
    rw [List.zipIdx_cons, List.filterMap_cons]
    rcases found : mapping.offer registry e k with - | offer
    · dsimp only
      rw [found]
      exact ⟨later, nodup⟩
    · dsimp only
      rw [found, List.map_cons, offer_pair found]
      refine ⟨List.forall_mem_cons.2 ⟨⟨rfl, Nat.le_refl k⟩, later⟩, List.nodup_cons.2 ⟨?_, nodup⟩⟩
      exact fun mem => absurd (spec _ mem).2 (Nat.not_succ_le_self k)

theorem skillOffers_pairs : ∀ {queue : List QueuedEvent}, (queue.map (·.arrival)).Nodup →
    ((queue.map (skillOffers registry mappings)).flatten.map SkillOffer.pair).Nodup
  | [], _ => List.nodup_nil
  | e :: queue, numbered => by
    rw [List.map_cons, List.nodup_cons] at numbered
    obtain ⟨spec, nodup⟩ := offers_pairs registry e mappings 0
    rw [List.map_cons, List.flatten_cons, List.map_append]
    refine List.Nodup.append nodup (skillOffers_pairs numbered.2) fun pair here later => ?_
    obtain ⟨offer, mem, rfl⟩ := List.mem_map.1 later
    obtain ⟨group, isGroup, mem⟩ := List.mem_flatten.1 mem
    obtain ⟨f, inQueue, rfl⟩ := List.mem_map.1 isGroup
    have arrival := (offers_pairs registry f mappings 0).1 _ (List.mem_map_of_mem mem)
    exact numbered.1 (List.mem_map.2 ⟨f, inQueue, arrival.1.symm.trans (spec _ here).1⟩)

end Pairs

namespace OrchestrationHooks

/-- Every pair of an event and a mapping is injected at most once and in the end the queue is empty,
exactly if all drains are smooth. -/
theorem drains_iff (o : OrchestrationOptions) (mappings : List SkillMapping)
    (registry : SkillRegistry) (hooks : OrchestrationHooks) (events : List OrchestrationEvent) :
    let s := hooks.holding events
    ((∀ n, ((s.injections o mappings registry n).map SkillOffer.pair).Nodup) ∧
      ∃ n, (s.drained o mappings registry n).queue = []) ↔
    ∀ n, (s.drained o mappings registry n).SmoothDrain o mappings registry := by
  intro s
  have numbered : (s.queue.map (·.arrival)).Nodup := by
    have numbers : s.queue.map (·.arrival) = events.zipIdx.map Prod.snd := by
      rw [show s.queue = events.zipIdx.map fun (event, arrival) => { event, arrival } from rfl,
        List.map_map]
      rfl
    rw [numbers, List.zipIdx_map_snd]
    exact List.nodup_range'
  have pairs : ((s.waiting mappings registry).groups.flatten.map SkillOffer.pair).Nodup :=
    skillOffers_pairs numbered
  have rounds := Meter.once_and_done_iff (m := skillMeter o) (pairs.of_map _)
  have smooth (n : ℕ) : (s.drained o mappings registry n).SmoothDrain o mappings registry ↔
      (skillMeter o).Smooth ((skillMeter o).rounds (s.waiting mappings registry) n) := by
    rw [SmoothDrain, drained_waiting]
  rw [forall_congr' smooth, ← rounds]
  refine and_congr (forall_congr' fun n => ?_) (exists_congr fun n => ?_)
  · rw [injections_eq]
    have sub := Meter.givenBy_subset (m := skillMeter o) (s.waiting mappings registry) n
    refine ⟨List.Nodup.of_map _, fun once => once.map_on fun a mem b mem' same => ?_⟩
    exact List.inj_on_of_nodup_map pairs (sub mem) (sub mem') same
  · rw [← drained_waiting, waiting, List.map_eq_nil_iff]

/-- Two skills for one event that do not fit together: the first is injected again. -/
theorem firstSkill_repeated :
    let skill (skillName : String) : SkillMapping := { eventType := .taskCompleted, skillName }
    let registry : SkillRegistry := ⟨fun name => some ⟨name⟩, fun _ _ => "text"⟩
    let s := ({} : OrchestrationHooks).holding [{ type := .taskCompleted, payload := .object [] }]
    ¬ ((s.injections { maxInjectionSize := 100 } [skill "a", skill "b"] registry 2).map
      SkillOffer.pair).Nodup := by
  decide +kernel

end OrchestrationHooks

end KimiCli
