import KimiCli.Lib.QueueEdits
import KimiCli.Prompt.Scheduler

/-!
# A steer that fails

`steer` cuts prompts out of the queue and puts them back in front when `core.steer` rejects.  What
the other calls do to the queue in the meantime is recorded as edits, so that the queue can be
compared with what the same edits make of it when nothing was cut out.
-/

namespace KimiCli

open Transition

/-- What happens in the service. -/
inductive ServiceLabel
  | call (label : PromptStep)
  /-- The session closes. -/
  | close
  | dispose

namespace PromptWorld

variable (w : PromptWorld)

/-- A call that throws leaves everything as it is. -/
def attempt : ServiceLabel → PromptWorld
  | .call label => (w.step label).getD w
  | .close => { w with queued := [] }
  | .dispose => { w with queued := [], active := none }

def service (w : PromptWorld) (label : ServiceLabel) : Option PromptWorld := some (w.attempt label)

/-- What `_startNextQueued` does to the queue. -/
def startEdit : Option (QueueEdit ℕ) := if w.activeLive then none else some .shift

/-- What the handling of an event does to the queue. -/
def eventEdit : TurnFlowEvent → Option (QueueEdit ℕ)
  | .started _ => none
  | .ended turnId _ =>
    w.active.bind fun promptId =>
      if (w.entry promptId).turnId = some turnId then some .shift else none

/-- What a call does to the queue.  An abort of a prompt that is not active is one of a queued
prompt, wherever that prompt may be. -/
def edit : ServiceLabel → Option (QueueEdit ℕ)
  | .call (.submit hasOverride) =>
    if ({ w with created := w.created + 1 }.setEntry w.created { hasOverride }).activeLive then
      some (.push w.created)
    else none
  | .call (.settersReject i) =>
    w.starting[i]?.bind fun start => match start.caller with
      | .submit => none
      | .startNextQueued => { w with starting := w.starting.eraseIdx i }.startEdit
  | .call (.promptRejects i) =>
    w.prompting[i]?.bind fun start => match start.caller with
      | .submit => none
      | .startNextQueued => { w with
          prompting := w.prompting.eraseIdx i
          active := if w.active = some start.promptId then none else w.active }.startEdit
  | .call (.abort promptId) => if w.active = some promptId then none else some (.erase promptId)
  | .call (.steer promptIds) => (w.steer promptIds).map fun _ => .cut promptIds
  | .call (.steerRejects i) => w.steering[i]?.map fun call => .putBack call.promptIds
  | .call .deliver => w.core.outbox.head?.bind w.eventEdit
  | .call _ => none
  | .close | .dispose => some .clear

/-- The queue after an edit. -/
def edited (edit : Option (QueueEdit ℕ)) (queue : List ℕ) : List ℕ :=
  edit.elim queue (QueueEdit.apply queue)

/-- The call of `steer` that a label settles. -/
def settled : ServiceLabel → Option ℕ
  | .call (.steerResolves i) =>
    match w.steering[i]? with
    | some { handled := true, .. } => some i
    | _ => none
  | .call (.steerRejects i) => some i
  | _ => none

/-- The prompts of each `steer` that waits. -/
def outstanding : List (List ℕ) := w.steering.map (·.promptIds)

end PromptWorld

/-- A run of the service while one call of `steer` waits. -/
structure SteerRun where
  world : PromptWorld
  /-- The position of the call. -/
  own : ℕ
  /-- The queue as it would be without the call. -/
  uncut : List ℕ

/-- The call is made. -/
def SteerRun.call (w : PromptWorld) (promptIds : List ℕ) : Option SteerRun :=
  (w.steer promptIds).map fun world => { world, own := w.steering.length, uncut := w.queued }

/-- Anything but the end of the call. -/
def SteerRun.step (r : SteerRun) (label : ServiceLabel) : Option SteerRun :=
  let settled := r.world.settled label
  if settled = some r.own then none
  else
    some {
      world := r.world.attempt label
      own := if settled.any (· < r.own) then r.own - 1 else r.own
      uncut := PromptWorld.edited (r.world.edit label) r.uncut }

namespace PromptWorld

variable {w w' : PromptWorld} {label : ServiceLabel} {i p : ℕ}

/-! ## What each step does to the queue -/

theorem queued_startPrompt (w : PromptWorld) (start : Start) :
    (w.startPrompt start).queued = w.queued := by
  rw [startPrompt]
  split <;> rfl

theorem queued_startNextQueued (w : PromptWorld) :
    w.startNextQueued.queued = edited w.startEdit w.queued := by
  rw [startNextQueued, startEdit]
  split
  · rfl
  · split
    case h_1 queued => rw [queued]; rfl
    case h_2 queued => rw [queued_startPrompt, queued]; rfl

theorem startEdit_of_idle (idle : w.active = none) : w.startEdit = some .shift := by
  rw [startEdit, activeLive, idle, Option.any_none, if_neg Bool.false_ne_true]

theorem queued_startFailed (w : PromptWorld) (start : Start) :
    (w.startFailed start).queued = edited (match start.caller with
      | .submit => none
      | .startNextQueued => w.startEdit) w.queued := by
  obtain ⟨_, caller⟩ := start
  cases caller with
  | submit => rfl
  | startNextQueued => exact queued_startNextQueued w

theorem queued_handleBusEvent (w : PromptWorld) (event : TurnFlowEvent) :
    (w.handleBusEvent event).queued = edited (w.eventEdit event) w.queued := by
  have next (world : PromptWorld) (idle : world.active = none) (same : world.queued = w.queued) :
      world.startNextQueued.queued = w.queued.tail := by
    rw [queued_startNextQueued, startEdit_of_idle idle, same]
    rfl
  rw [handleBusEvent]
  cases active : w.active with
  | none =>
    cases event with
    | started => rfl
    | ended => rw [eventEdit, active]; rfl
  | some =>
    cases event with
    | started => rfl
    | ended =>
      rw [eventEdit, active, Option.bind_some]
      dsimp only
      split
      case isTrue => rfl
      case isFalse mine =>
        rw [if_pos (Decidable.not_not.1 mine)]
        split
        · exact next _ rfl rfl
        · split
          · exact next _ rfl rfl
          · exact next _ rfl rfl

theorem queued_abort (next : w.abort p = some w') :
    w'.queued = if w.active = some p then w.queued else w.queued.erase p := by
  rw [abort] at next
  dsimp only at next
  split at next
  case isTrue mine =>
    rw [if_pos mine]
    split at next
    · cases next
    · cases next
      rfl
  case isFalse other =>
    rw [if_neg other]
    split at next
    · cases next
      rfl
    · cases next

theorem queued_of_abort_none (next : w.abort p = none) :
    edited (if w.active = some p then none else some (.erase p)) w.queued = w.queued := by
  rw [abort] at next
  dsimp only at next
  split at next
  case isTrue mine => rw [if_pos mine]; rfl
  case isFalse other =>
    rw [if_neg other]
    split at next
    · cases next
    · exact List.erase_of_not_mem ‹_›

variable {promptIds : List ℕ}

theorem steer_eq (next : w.steer promptIds = some w') :
    ∃ activePromptId, promptIds ≠ [] ∧ (∀ promptId ∈ promptIds, promptId ∈ w.queued) ∧
      w' = { w with
        queued := w.queued.filter (· ∉ promptIds)
        steering := w.steering ++ [{ activePromptId, promptIds }] } := by
  rw [steer] at next
  split at next
  case h_1 activePromptId _ =>
    split at next
    case isTrue asked =>
      cases next
      exact ⟨activePromptId, asked.1, asked.2.2, rfl⟩
    case isFalse => cases next
  case h_2 => cases next

theorem queued_attempt (w : PromptWorld) (label : ServiceLabel) :
    (w.attempt label).queued = edited (w.edit label) w.queued := by
  cases label with
  | close => rfl
  | dispose => rfl
  | call label =>
    rw [attempt]
    cases label with
    | submit =>
      rw [step, edit, submit]
      dsimp only [Option.getD_some]
      split
      · rfl
      · exact queued_startPrompt ..
    | settersDone i => 
      rw [step]
      cases w.starting[i]? <;> rfl
    | settersReject i =>
      rw [step, edit]
      cases w.starting[i]? with
      | none => rfl
      | some => exact queued_startFailed ..
    | promptHandled i =>
      rw [step]
      cases w.prompting[i]? <;> rfl
    | promptRejects i =>
      rw [step, edit]
      cases w.prompting[i]? with
      | none => rfl
      | some => exact queued_startFailed ..
    | abort promptId =>
      rw [step, edit]
      cases next : w.abort promptId with
      | none => exact (queued_of_abort_none next).symm
      | some =>
        rw [Option.getD_some, queued_abort next]
        split <;> rfl
    | cancelHandled | cancelResolves | sessionCancelHandled | steerHandled | steerResolves
    | ownTurn | endTurn =>
      rw [step]
      split <;> rfl
    | cancelRejects i =>
      rw [step]
      cases w.aborting[i]? <;> rfl
    | abortBySession =>
      rw [step, abortBySession]
      cases active : w.active with
      | none => rfl
      | some promptId =>
        dsimp only
        split
        · cases next : w.abort promptId with
          | none => rfl
          | some => exact (queued_abort next).trans (if_pos active)
        · rfl
    | steer promptIds =>
      rw [step, edit]
      cases next : w.steer promptIds with
      | none => rfl
      | some =>
        obtain ⟨_, _, _, left⟩ := steer_eq next
        rw [left]
        rfl
    | steerRejects i =>
      rw [step, edit]
      cases w.steering[i]? <;> rfl
    | deliver =>
      rw [step, edit]
      cases outbox : w.core.outbox with
      | nil => rfl
      | cons => exact queued_handleBusEvent ..

/-- An edit drops prompts, or pushes a new one, or cuts out or puts back those of a `steer`. -/
theorem edit_cases {edit : QueueEdit ℕ} (done : w.edit label = some edit) :
    (∀ queue, edit.apply queue ⊆ queue) ∧ (∀ as, edit.Spares as) ∧ (∀ as, edit ≠ .cut as) ∨
    (∃ hasOverride, label = .call (.submit hasOverride) ∧ edit = .push w.created) ∨
    (∃ promptIds w', label = .call (.steer promptIds) ∧ w.steer promptIds = some w' ∧
      edit = .cut promptIds) ∨
    ∃ i promptIds, label = .call (.steerRejects i) ∧ w.outstanding[i]? = some promptIds ∧
      edit = .putBack promptIds := by
  have shift : edit = .shift → (∀ queue, edit.apply queue ⊆ queue) ∧
      (∀ as, edit.Spares as) ∧ ∀ as, edit ≠ .cut as := by
    rintro rfl
    exact ⟨fun queue => (List.tail_sublist queue).subset, fun _ => trivial, nofun⟩
  have ofStart {world : PromptWorld} (starts : world.startEdit = some edit) : edit = .shift := by
    rw [startEdit] at starts
    split at starts
    · cases starts
    · exact (Option.some.inj starts).symm
  cases label with
  | close | dispose =>
    cases done
    exact .inl ⟨fun queue => List.nil_subset _, fun _ => trivial, nofun⟩
  | call label =>
    cases label with
    | submit hasOverride =>
      rw [PromptWorld.edit] at done
      split at done
      · cases done
        exact .inr (.inl ⟨hasOverride, rfl, rfl⟩)
      · cases done
    | settersReject =>
      obtain ⟨⟨_, caller⟩, _, starts⟩ := Option.bind_eq_some_iff.1 done
      cases caller with
      | submit => cases starts
      | startNextQueued => exact .inl (shift (ofStart starts))
    | promptRejects =>
      obtain ⟨⟨_, caller⟩, _, starts⟩ := Option.bind_eq_some_iff.1 done
      cases caller with
      | submit => cases starts
      | startNextQueued => exact .inl (shift (ofStart starts))
    | abort =>
      rw [PromptWorld.edit] at done
      split at done
      · cases done
      · cases done
        exact .inl ⟨fun queue => List.erase_subset, fun _ => trivial, nofun⟩
    | steer promptIds =>
      obtain ⟨w', called, rfl⟩ := Option.map_eq_some_iff.1 done
      exact .inr (.inr (.inl ⟨promptIds, w', rfl, called, rfl⟩))
    | steerRejects i =>
      obtain ⟨call, found, rfl⟩ := Option.map_eq_some_iff.1 done
      refine .inr (.inr (.inr ⟨i, call.promptIds, rfl, ?_, rfl⟩))
      rw [outstanding, List.getElem?_map, found, Option.map_some]
    | deliver =>
      obtain ⟨event, _, handled⟩ := Option.bind_eq_some_iff.1 done
      cases event with
      | started => cases handled
      | ended =>
        obtain ⟨promptId, _, ends⟩ := Option.bind_eq_some_iff.1 handled
        split at ends
        · exact .inl (shift (Option.some.inj ends).symm)
        · cases ends
    | settersDone | promptHandled | cancelHandled | cancelResolves | cancelRejects | abortBySession
    | sessionCancelHandled | steerHandled | steerResolves | ownTurn | endTurn => cases done

/-! ## What each step does to the waiting calls -/

/-- `w'` has the calls and the number of prompts of `w`. -/
def SameCalls (w w' : PromptWorld) : Prop := w'.steering = w.steering ∧ w'.created = w.created

theorem sameCalls_startPrompt (w : PromptWorld) (start : Start) :
    SameCalls w (w.startPrompt start) := by
  rw [startPrompt]
  split <;> exact ⟨rfl, rfl⟩

theorem sameCalls_startNextQueued (w : PromptWorld) : SameCalls w w.startNextQueued := by
  rw [startNextQueued]
  split
  · exact ⟨rfl, rfl⟩
  · split
    · exact ⟨rfl, rfl⟩
    · exact sameCalls_startPrompt ..

theorem sameCalls_startFailed (w : PromptWorld) (start : Start) :
    SameCalls w (w.startFailed start) := by
  rw [startFailed]
  split
  · exact ⟨rfl, rfl⟩
  · exact sameCalls_startNextQueued w

theorem sameCalls_handleBusEvent (w : PromptWorld) (event : TurnFlowEvent) :
    SameCalls w (w.handleBusEvent event) := by
  rw [handleBusEvent]
  split
  · exact ⟨rfl, rfl⟩
  · dsimp only
    split
    · exact ⟨rfl, rfl⟩
    · split
      · exact ⟨rfl, rfl⟩
      · split
        · exact sameCalls_startNextQueued ..
        · split
          · exact sameCalls_startNextQueued ..
          · exact sameCalls_startNextQueued ..

theorem sameCalls_abort (next : w.abort p = some w') : SameCalls w w' := by
  rw [abort] at next
  dsimp only at next
  split at next
  · split at next
    · cases next
    · cases next
      exact ⟨rfl, rfl⟩
  · split at next
    · cases next
      exact ⟨rfl, rfl⟩
    · cases next

theorem sameCalls_submit (w : PromptWorld) (hasOverride : Bool) :
    (w.submit hasOverride).steering = w.steering ∧
      (w.submit hasOverride).created = w.created + 1 := by
  rw [submit]
  split
  · exact ⟨rfl, rfl⟩
  · exact sameCalls_startPrompt ..

theorem outstanding_eraseIdx (w : PromptWorld) (i : ℕ) :
    (w.steering.eraseIdx i).map (·.promptIds) = w.outstanding.eraseIdx i := by
  refine List.ext_getElem? fun j => ?_
  rw [List.getElem?_map, List.getElem?_eraseIdx, List.getElem?_eraseIdx, outstanding]
  split <;> rw [List.getElem?_map]

theorem outstanding_set {call call' : Steer} (found : w.steering[i]? = some call)
    (same : call'.promptIds = call.promptIds) :
    (w.steering.set i call').map (·.promptIds) = w.outstanding := by
  obtain ⟨inside, rfl⟩ := List.getElem?_eq_some_iff.1 found
  rw [List.map_set, same, ← List.map_set, List.set_getElem_self]
  rfl

theorem SameCalls.outstanding (same : SameCalls w w') : w'.outstanding = w.outstanding :=
  congrArg (List.map fun call : Steer => call.promptIds) same.1

/-- What a label does to the calls of `steer`. -/
inductive CallsStep (w : PromptWorld) (label : ServiceLabel) : Prop
  | kept (none : w.settled label = none) (calls : (w.attempt label).outstanding = w.outstanding)
    (created : w.created ≤ (w.attempt label).created) (noCut : ∀ as, w.edit label ≠ some (.cut as))
  | settles (i : ℕ) (isSettled : w.settled label = some i)
    (calls : (w.attempt label).outstanding = w.outstanding.eraseIdx i)
    (created : (w.attempt label).created = w.created)
  | makes (promptIds : List ℕ) (w' : PromptWorld) (isSteer : label = .call (.steer promptIds))
    (called : w.steer promptIds = some w')
    (calls : (w.attempt label).outstanding = w.outstanding ++ [promptIds])
    (created : (w.attempt label).created = w.created)

/-- The labels of the steps of `steer`, and the one that creates a prompt. -/
def OfSteer : PromptStep → Prop
  | .submit _ | .steer _ | .steerHandled _ | .steerResolves _ | .steerRejects _ => True
  | _ => False

theorem sameCalls_abortBySession (w : PromptWorld) :
    SameCalls w ((w.step .abortBySession).getD w) := by
  rw [step, abortBySession]
  split
  · split
    · cases next : w.abort _ with
      | none => exact ⟨rfl, rfl⟩
      | some => exact sameCalls_abort next
    · exact ⟨rfl, rfl⟩
  · exact ⟨rfl, rfl⟩

theorem sameCalls_step (w : PromptWorld) {label : PromptStep} (other : ¬ OfSteer label) :
    SameCalls w ((w.step label).getD w) := by
  cases label with
  | submit _ | steer _ | steerHandled _ | steerResolves _ | steerRejects _ =>
    exact absurd trivial other
  | settersDone i =>
    rw [step]
    cases w.starting[i]? <;> exact ⟨rfl, rfl⟩
  | promptHandled i =>
    rw [step]
    cases w.prompting[i]? <;> exact ⟨rfl, rfl⟩
  | cancelRejects i =>
    rw [step]
    cases w.aborting[i]? <;> exact ⟨rfl, rfl⟩
  | settersReject i =>
    rw [step]
    cases w.starting[i]? with
    | none => exact ⟨rfl, rfl⟩
    | some => exact sameCalls_startFailed ..
  | promptRejects i =>
    rw [step]
    cases w.prompting[i]? with
    | none => exact ⟨rfl, rfl⟩
    | some => exact sameCalls_startFailed ..
  | abort promptId =>
    rw [step]
    cases next : w.abort promptId with
    | none => exact ⟨rfl, rfl⟩
    | some => exact sameCalls_abort next
  | cancelHandled _ | cancelResolves _ | sessionCancelHandled | ownTurn | endTurn _ _ =>
    rw [step]
    split <;> exact ⟨rfl, rfl⟩
  | abortBySession => exact sameCalls_abortBySession w
  | deliver =>
    rw [step]
    cases w.core.outbox with
    | nil => exact ⟨rfl, rfl⟩
    | cons => exact sameCalls_handleBusEvent ..

theorem edit_ne_cut {label : ServiceLabel}
    (other : ∀ promptIds, label ≠ .call (.steer promptIds)) (as : List ℕ) :
    w.edit label ≠ some (.cut as) := by
  intro isCut
  rcases edit_cases isCut with ⟨_, _, none⟩ | ⟨_, _, none⟩ | ⟨_, _, isSteer, _⟩ | ⟨_, _, _, _, none⟩
  · exact none as rfl
  · cases none
  · exact other _ isSteer
  · cases none

theorem SameCalls.kept {label : ServiceLabel} (same : SameCalls w (w.attempt label))
    (none : w.settled label = none) (noCut : ∀ as, w.edit label ≠ some (.cut as)) :
    CallsStep w label :=
  .kept none same.outstanding (Nat.le_of_eq same.2.symm) noCut

theorem callsStep_submit (w : PromptWorld) (hasOverride : Bool) :
    CallsStep w (.call (.submit hasOverride)) := by
  obtain ⟨calls, created⟩ := sameCalls_submit w hasOverride
  exact .kept rfl (congrArg (List.map fun call : Steer => call.promptIds) calls)
    (created ▸ Nat.le_succ _) (edit_ne_cut fun _ no => by cases no)

theorem callsStep_steer (w : PromptWorld) (promptIds : List ℕ) :
    CallsStep w (.call (.steer promptIds)) := by
  cases next : w.steer promptIds with
  | none =>
    refine SameCalls.kept ?_ rfl fun as isCut => ?_
    · rw [attempt, step, next]
      exact ⟨rfl, rfl⟩
    · rw [edit, next] at isCut
      cases isCut
  | some w' =>
    obtain ⟨_, _, _, left⟩ := steer_eq next
    have eq : w.attempt (.call (.steer promptIds)) = w' := by
      rw [attempt, step, next, Option.getD_some]
    refine .makes promptIds w' rfl next ?_ ?_
    · rw [eq, left]
      exact List.map_append
    · rw [eq, left]

theorem callsStep_steerHandled (w : PromptWorld) (i : ℕ) :
    CallsStep w (.call (.steerHandled i)) := by
  refine .kept rfl ?_ ?_ (edit_ne_cut fun _ no => by cases no)
  · rw [attempt, step]
    split
    case h_1 found => exact outstanding_set found rfl
    case h_2 => rfl
  · rw [attempt, step]
    split <;> exact Nat.le_refl _

theorem callsStep_steerResolves (w : PromptWorld) (i : ℕ) :
    CallsStep w (.call (.steerResolves i)) := by
  cases handled : w.settled (.call (.steerResolves i)) with
  | none =>
    have waits (call : Steer) (found : w.steering[i]? = some call) : call.handled = false := by
      obtain ⟨activePromptId, ids, _ | _⟩ := call
      · rfl
      · rw [settled, found] at handled
        cases handled
    refine SameCalls.kept ?_ handled (edit_ne_cut fun _ no => by cases no)
    rw [attempt, step]
    split
    case h_1 found => exact absurd (waits _ found) Bool.noConfusion
    case h_2 => exact ⟨rfl, rfl⟩
  | some =>
    have settles := handled
    rw [settled] at handled
    split at handled
    case h_2 => cases handled
    case h_1 found =>
      cases handled
      refine .settles i settles ?_ ?_
      · rw [attempt, step, found]
        exact outstanding_eraseIdx w i
      · rw [attempt, step, found]
        rfl

theorem callsStep_steerRejects (w : PromptWorld) (i : ℕ) :
    CallsStep w (.call (.steerRejects i)) := by
  refine .settles i rfl ?_ ?_
  · rw [attempt, step]
    cases found : w.steering[i]? with
    | none =>
      have outside : w.outstanding.length ≤ i := by
        rw [outstanding, List.length_map]
        exact List.getElem?_eq_none_iff.1 found
      exact (List.eraseIdx_of_length_le outside).symm
    | some => exact outstanding_eraseIdx w i
  · rw [attempt, step]
    cases w.steering[i]? <;> rfl

/-- A label makes or settles a call of `steer`, or leaves the calls. -/
theorem calls_cases (w : PromptWorld) (label : ServiceLabel) : CallsStep w label := by
  cases label with
  | close | dispose => exact SameCalls.kept ⟨rfl, rfl⟩ rfl (edit_ne_cut fun _ no => by cases no)
  | call label =>
    cases label with
    | submit hasOverride => exact callsStep_submit w hasOverride
    | steer promptIds => exact callsStep_steer w promptIds
    | steerHandled i => exact callsStep_steerHandled w i
    | steerResolves i => exact callsStep_steerResolves w i
    | steerRejects i => exact callsStep_steerRejects w i
    | _ => exact (sameCalls_step w id).kept rfl (edit_ne_cut fun _ no => by cases no)

/-! ## The prompts of the waiting calls -/

/-- A prompt is with one `steer` that waits, or in the queue, and has been created. -/
structure Apart (w : PromptWorld) : Prop where
  out : ∀ promptIds ∈ w.outstanding, ∀ p ∈ promptIds, p ∉ w.queued
  apart : w.outstanding.Pairwise List.Disjoint
  queued : ∀ p ∈ w.queued, p < w.created
  known : ∀ promptIds ∈ w.outstanding, ∀ p ∈ promptIds, p < w.created

theorem Apart.disjoint (inv : w.Apart) {i j : ℕ} {first second : List ℕ}
    (isFirst : w.outstanding[i]? = some first) (isSecond : w.outstanding[j]? = some second)
    (ne : i ≠ j) : first.Disjoint second := by
  obtain ⟨inside, rfl⟩ := List.getElem?_eq_some_iff.1 isFirst
  obtain ⟨inside', rfl⟩ := List.getElem?_eq_some_iff.1 isSecond
  have pairs := List.pairwise_iff_getElem.1 inv.apart
  rcases Nat.lt_or_gt_of_ne ne with lt | gt
  · exact pairs i j inside inside' lt
  · exact fun p mem mem' => pairs j i inside' inside gt mem' mem

theorem Apart.fewer (inv : w.Apart) (queued : ∀ p ∈ w'.queued, p ∈ w.queued)
    (calls : w'.outstanding.Sublist w.outstanding) (created : w.created ≤ w'.created) :
    w'.Apart where
  out promptIds mem p inside again := inv.out promptIds (calls.subset mem) p inside (queued p again)
  apart := inv.apart.sublist calls
  queued p mem := Nat.lt_of_lt_of_le (inv.queued p (queued p mem)) created
  known promptIds mem p inside :=
    Nat.lt_of_lt_of_le (inv.known promptIds (calls.subset mem) p inside) created

theorem Apart.push (inv : w.Apart) (queued : w'.queued = w.queued ++ [w.created])
    (calls : w'.outstanding = w.outstanding) (created : w'.created = w.created + 1) : w'.Apart where
  out promptIds mem p inside again := by
    rw [calls] at mem
    rw [queued] at again
    rcases List.mem_append.1 again with old | new
    · exact inv.out promptIds mem p inside old
    · have known := inv.known promptIds mem p inside
      rw [List.mem_singleton.1 new] at known
      exact Nat.lt_irrefl _ known
  apart := by
    rw [calls]
    exact inv.apart
  queued p mem := by
    rw [queued] at mem
    rw [created]
    rcases List.mem_append.1 mem with old | new
    · exact Nat.lt_succ_of_lt (inv.queued p old)
    · exact List.mem_singleton.1 new ▸ Nat.lt_succ_self _
  known promptIds mem p inside := by
    rw [calls] at mem
    rw [created]
    exact Nat.lt_succ_of_lt (inv.known promptIds mem p inside)

theorem Apart.cut (inv : w.Apart) (asked : ∀ p ∈ promptIds, p ∈ w.queued)
    (queued : w'.queued = w.queued.filter (· ∉ promptIds))
    (calls : w'.outstanding = w.outstanding ++ [promptIds]) (created : w'.created = w.created) :
    w'.Apart where
  out others mem p inside again := by
    rw [queued] at again
    obtain ⟨was, kept⟩ := List.mem_filter.1 again
    rw [calls] at mem
    rcases List.mem_append.1 mem with old | new
    · exact inv.out others old p inside was
    · exact of_decide_eq_true kept (List.mem_singleton.1 new ▸ inside)
  apart := by
    rw [calls]
    refine List.pairwise_append.2 ⟨inv.apart, List.pairwise_singleton .., ?_⟩
    intro others mem own new p inside isOwn
    exact inv.out others mem p inside (asked p (List.mem_singleton.1 new ▸ isOwn))
  queued p mem := by
    rw [queued] at mem
    rw [created]
    exact inv.queued p (List.mem_of_mem_filter mem)
  known others mem p inside := by
    rw [created]
    rw [calls] at mem
    rcases List.mem_append.1 mem with old | new
    · exact inv.known others old p inside
    · exact inv.queued p (asked p (List.mem_singleton.1 new ▸ inside))

theorem Apart.putBack (inv : w.Apart) (isCall : w.outstanding[i]? = some promptIds)
    (queued : w'.queued = promptIds.filter (· ∉ w.queued) ++ w.queued)
    (calls : w'.outstanding = w.outstanding.eraseIdx i) (created : w'.created = w.created) :
    w'.Apart where
  out others mem p inside again := by
    rw [calls] at mem
    rw [queued] at again
    rcases List.mem_append.1 again with new | old
    · obtain ⟨j, ne, isOther⟩ := List.mem_eraseIdx_iff_getElem?.1 mem
      exact inv.disjoint isOther isCall ne inside (List.mem_of_mem_filter new)
    · exact inv.out others (List.mem_of_mem_eraseIdx mem) p inside old
  apart := by
    rw [calls]
    exact inv.apart.sublist (List.eraseIdx_sublist ..)
  queued p mem := by
    rw [created]
    rw [queued] at mem
    rcases List.mem_append.1 mem with new | old
    · exact inv.known promptIds (List.mem_of_getElem? isCall) p (List.mem_of_mem_filter new)
    · exact inv.queued p old
  known others mem p inside := by
    rw [calls] at mem
    rw [created]
    exact inv.known others (List.mem_of_mem_eraseIdx mem) p inside

theorem Apart.attempt (inv : w.Apart) (label : ServiceLabel) : (w.attempt label).Apart := by
  have queued := queued_attempt w label
  have fewer (subset : ∀ p ∈ (w.attempt label).queued, p ∈ w.queued)
      (noSteer : ∀ as, w.edit label ≠ some (.cut as)) : (w.attempt label).Apart := by
    rcases calls_cases w label with ⟨_, calls, created, _⟩ | ⟨i, _, calls, created⟩ |
      ⟨promptIds, w', rfl, called, _, _⟩
    · exact inv.fewer subset (calls ▸ List.Sublist.refl _) created
    · exact inv.fewer subset (calls ▸ List.eraseIdx_sublist ..) (Nat.le_of_eq created.symm)
    · refine absurd ?_ (noSteer promptIds)
      rw [PromptWorld.edit, called, Option.map_some]
  cases edit : w.edit label with
  | none =>
    rw [edit] at queued fewer
    refine fewer (fun p mem => ?_) nofun
    rwa [queued] at mem
  | some =>
    rcases edit_cases edit with ⟨drops, _, noSteer⟩ | ⟨hasOverride, rfl, rfl⟩ |
      ⟨promptIds, w', rfl, called, rfl⟩ | ⟨i, promptIds, rfl, isCall, rfl⟩
    · rw [edit] at queued
      refine fewer (fun p mem => drops w.queued ?_) fun as isCut => ?_
      · rwa [queued] at mem
      · exact noSteer as (Option.some.inj (edit.symm.trans isCut))
    · rw [edit] at queued
      obtain ⟨calls, created⟩ := sameCalls_submit w hasOverride
      exact inv.push queued (congrArg (List.map fun call : Steer => call.promptIds) calls) created
    · obtain ⟨_, _, asked, left⟩ := steer_eq called
      have eq : w.attempt (.call (.steer promptIds)) = w' := by
        rw [PromptWorld.attempt, step, called, Option.getD_some]
      rw [eq, left]
      exact inv.cut asked rfl List.map_append rfl
    · rw [edit] at queued
      rcases calls_cases w (.call (.steerRejects i)) with ⟨none, _⟩ | ⟨j, isCall', calls, created⟩ |
        ⟨_, _, none, _⟩
      · cases none
      · cases isCall'
        exact inv.putBack isCall queued calls created
      · cases none

theorem apart_init : Apart {} := ⟨nofun, .nil, nofun, nofun⟩

end PromptWorld

namespace SteerRun

open PromptWorld

/-- The call waits with `promptIds`, and its queue has been edited apart from them. -/
structure Waits (promptIds : List ℕ) (r : SteerRun) : Prop where
  apart : r.world.Apart
  own : r.world.outstanding[r.own]? = some promptIds
  cutOut : CutOut promptIds r.world.queued r.uncut

variable {r r' : SteerRun} {w w' : PromptWorld} {promptIds : List ℕ}

theorem waits_call (apart : w.Apart) (distinct : w.queued.Nodup)
    (called : SteerRun.call w promptIds = some r) : Waits promptIds r := by
  obtain ⟨world, next, rfl⟩ := Option.map_eq_some_iff.1 called
  obtain ⟨_, _, asked, rfl⟩ := steer_eq next
  refine ⟨apart.cut asked rfl List.map_append rfl, ?_, .init distinct⟩
  have count : w.outstanding.length = w.steering.length := List.length_map ..
  rw [outstanding, List.map_append, ← count]
  exact List.getElem?_concat_length

theorem Waits.spares (waits : Waits promptIds r) {label : ServiceLabel} {edit : QueueEdit ℕ}
    (done : r.world.edit label = some edit) (other : r.world.settled label ≠ some r.own) :
    edit.Spares promptIds := by
  rcases edit_cases done with ⟨_, spares, _⟩ | ⟨_, _, rfl⟩ | ⟨_, _, _, _, rfl⟩ |
    ⟨i, others, rfl, isCall, rfl⟩
  · exact spares promptIds
  · intro mem
    exact Nat.lt_irrefl _ (waits.apart.known _ (List.mem_of_getElem? waits.own) _ mem)
  · trivial
  · intro p mem
    exact waits.apart.disjoint isCall waits.own (fun same => other (congrArg some same)) mem

theorem Waits.step (waits : Waits promptIds r) {label : ServiceLabel}
    (next : r.step label = some r') : Waits promptIds r' := by
  rw [SteerRun.step] at next
  split at next
  · cases next
  case isFalse other =>
  cases next
  refine ⟨waits.apart.attempt label, ?_, ?_⟩
  · dsimp only
    rcases calls_cases r.world label with ⟨none, calls, _⟩ | ⟨i, isSettled, calls, _⟩ |
      ⟨others, w', rfl, _, calls, _⟩
    · rw [none, calls, Option.any_none, if_neg Bool.false_ne_true, waits.own]
    · rw [isSettled] at other
      have ne : i ≠ r.own := fun same => other (congrArg some same)
      rw [isSettled, calls, ← waits.own, Option.any_some]
      by_cases before : i < r.own
      · rw [if_pos (decide_eq_true before), List.getElem?_eraseIdx_of_ge (by omega),
          Nat.sub_add_cancel (by omega)]
      · have after : ¬decide (i < r.own) = true := by simpa using before
        rw [if_neg after, List.getElem?_eraseIdx_of_lt (by omega)]
    · have inside := (List.getElem?_eq_some_iff.1 waits.own).1
      have none : r.world.settled (.call (.steer others)) = none := rfl
      rw [none, calls, Option.any_none, if_neg Bool.false_ne_true,
        List.getElem?_append_left inside, waits.own]
  · dsimp only
    rw [queued_attempt]
    cases edit : r.world.edit label with
    | none => exact waits.cutOut
    | some => exact waits.cutOut.apply (waits.spares edit other)

/-- When a `steer` fails, the queue is what it would be without the call exactly when that queue
starts with the given prompts, in the given order. -/
theorem restored_iff (promptIds : List ℕ) {before labels : List ServiceLabel}
    (reached : Run service Always {} before w)
    (distinct : w.queued.Nodup) (called : SteerRun.call w promptIds = some r)
    (run : Run SteerRun.step Always r labels r')
    (rejected : r'.world.step (.steerRejects r'.own) = some w') :
    w'.queued = r'.uncut ↔ promptIds <+: r'.uncut := by
  have apart := reached.invariant Apart apart_init fun w label _ inv _ next =>
    Option.some.inj next ▸ inv.attempt label
  have waits := run.invariant (Waits promptIds) (waits_call apart distinct called)
    fun r label r' waits _ next => waits.step next
  obtain ⟨call, found, rfl⟩ := Option.map_eq_some_iff.1 rejected
  have own := waits.own
  rw [outstanding, List.getElem?_map, found, Option.map_some] at own
  have same : call.promptIds = promptIds := Option.some.inj own
  rw [← waits.cutOut.putBack_eq_iff, ← same]
  rfl

/-- The first of two queued prompts is steered, and another is submitted before the failure. -/
theorem restored_iff_first : ∃ (r : SteerRun) (w : PromptWorld),
    r.world.step (.steerRejects r.own) = some w ∧ r.uncut = [1, 2, 3] ∧ w.queued = r.uncut := by
  have reached : Run service Always {} (List.replicate 3 (.call (.submit false))) _ := .of_exec rfl
  refine ⟨_, _, ?_, ?_, (restored_iff [1] reached (by decide) rfl
    (.snoc (a := .call (.submit false)) .nil trivial rfl) rfl).2 ⟨[2, 3], rfl⟩⟩
  · rfl
  · rfl

/-- The second of two queued prompts is steered, and comes back as the first. -/
theorem reorderedQueue : ¬∀ (promptIds : List ℕ) (before labels : List ServiceLabel)
    (w w' : PromptWorld) (r r' : SteerRun), Run service Always {} before w → w.queued.Nodup →
      SteerRun.call w promptIds = some r → Run SteerRun.step Always r labels r' →
      r'.world.step (.steerRejects r'.own) = some w' → w'.queued = r'.uncut := by
  intro restored
  have reached : Run service Always {} (List.replicate 3 (.call (.submit false))) _ := .of_exec rfl
  have same := restored [2] _ [] _ _ _ _ reached (by decide) rfl .nil rfl
  exact absurd same (by decide)

end SteerRun

end KimiCli
