import KimiCli.Lib.Run
import Mathlib.Logic.Function.Basic
import Mathlib.Data.List.Nodup

/-!
# The hook registry

The registrations of a `HookEngine` (`session/hooks/engine.ts`): the map of hooks by event, which
decides what a trigger runs, and the map of hooks by id, from which a hook is listed and removed.
-/

namespace KimiCli

structure HookDef where
  event : String
  matcher : Option String := none
  command : String
  timeout : Option ℕ := none
  system : Option Bool := none
  cwd : Option String := none
  env : Option (List (String × String)) := none
  deriving DecidableEq

/-- Where a `HookDef` object comes from: a caller, or one of the two copies that the `n`th
registration makes of a system hook. -/
inductive HookAddress
  | given (n : ℕ)
  | idCopy (n : ℕ)
  | eventCopy (n : ℕ)
  deriving DecidableEq

/-- A `HookDef` object; two of them are the same when their addresses are. -/
structure HookObject where
  address : HookAddress
  hook : HookDef
  deriving DecidableEq

inductive HookId
  | hook (n : ℕ)
  | sys (n : ℕ)
  deriving DecidableEq

structure HookEngine where
  byEvent : String → Option (List HookObject) := fun _ => none
  hookIdCounter : ℕ := 0
  /-- A map in the order of insertion. -/
  hookIds : List (HookId × HookObject) := []

namespace HookEngine

variable (engine : HookEngine)

/-- `this.byEvent.get(event) ?? []`. -/
def hooksFor (event : String) : List HookObject := (engine.byEvent event).getD []

def addHookInternal (object : HookObject) : HookEngine :=
  { engine with
    byEvent := Function.update engine.byEvent object.hook.event
      (some (engine.hooksFor object.hook.event ++ [object])) }

/-- The constructor. -/
def create (hooks : List HookObject) : HookEngine := hooks.foldl addHookInternal {}

def summary (event : String) : Option ℕ := (engine.byEvent event).map List.length

def register (object : HookObject) : HookEngine :=
  let n := engine.hookIdCounter + 1
  ({ engine with
    hookIdCounter := n
    hookIds := engine.hookIds ++ [(.hook n, object)] } : HookEngine).addHookInternal object

def registerSystem (object : HookObject) : HookEngine :=
  let n := engine.hookIdCounter + 1
  let hook := { object.hook with system := some true }
  ({ engine with
    hookIdCounter := n
    hookIds := engine.hookIds ++ [(.sys n, ⟨.idCopy n, hook⟩)] } : HookEngine).addHookInternal
      ⟨.eventCopy n, hook⟩

def remove (id : HookId) : HookEngine :=
  match engine.hookIds.lookup id with
  | none => engine
  | some object =>
    let event := object.hook.event
    let engine := { engine with hookIds := engine.hookIds.filter (·.1 ≠ id) }
    match engine.byEvent event with
    | none => engine
    | some entries =>
      if object ∈ entries then
        let rest := entries.erase object
        { engine with
          byEvent := Function.update engine.byEvent event (if rest = [] then none else some rest) }
      else engine

def list : List (HookId × HookDef) := engine.hookIds.map fun (id, object) => (id, object.hook)

end HookEngine

/-! ## Matching -/

/-- `matches`, for what the host's regular expressions say: `none` for one that is not valid. -/
def HookDef.accepts (regExpTest : String → String → Option Bool) (value : String)
    (hook : HookDef) : Bool :=
  let pattern := hook.matcher.getD ""
  pattern = "" || (regExpTest pattern value).getD false

/-- What two hooks have in common when only one of them is run. -/
def HookDef.key (hook : HookDef) : String := hook.cwd.getD "" ++ "\x00" ++ hook.command

/-- The loop of `matchingHooks`. -/
def matchingLoop (accepts : HookDef → Bool) : List String → List HookDef → List HookDef
  | _, [] => []
  | seen, hook :: rest =>
    if !accepts hook then matchingLoop accepts seen rest
    else if hook.key ∈ seen then matchingLoop accepts seen rest
    else hook :: matchingLoop accepts (hook.key :: seen) rest

def HookEngine.matchingHooks (engine : HookEngine) (accepts : HookDef → Bool) (event : String) :
    List HookDef :=
  matchingLoop accepts [] ((engine.hooksFor event).map (·.hook))

/-! ## What is registered -/

inductive HookStep
  | register (object : HookObject)
  | registerSystem (object : HookObject)
  | remove (id : HookId)

def HookEngine.step (engine : HookEngine) : HookStep → Option HookEngine
  | .register object => some (engine.register object)
  | .registerSystem object => some (engine.registerSystem object)
  | .remove id => some (engine.remove id)

/-- The registrations by themselves: the hooks of the constructor, and those under an id that was
not removed since. -/
structure HookRegistry where
  constructed : List HookDef
  count : ℕ := 0
  live : List (HookId × HookDef) := []

namespace HookRegistry

def apply (registry : HookRegistry) : HookStep → HookRegistry
  | .register object =>
    { registry with
      count := registry.count + 1
      live := registry.live ++ [(.hook (registry.count + 1), object.hook)] }
  | .registerSystem object =>
    { registry with
      count := registry.count + 1
      live := registry.live ++
        [(.sys (registry.count + 1), { object.hook with system := some true })] }
  | .remove id => { registry with live := registry.live.filter (·.1 ≠ id) }

/-- The registrations after the constructor and some calls. -/
def after (hooks : List HookObject) (steps : List HookStep) : HookRegistry :=
  steps.foldl apply { constructed := hooks.map (·.hook) }

def hooksFor (registry : HookRegistry) (event : String) : List HookDef :=
  (registry.constructed ++ registry.live.map (·.2)).filter (·.event = event)

end HookRegistry

/-- No system hook is removed. -/
def HookEngine.KeepsSystem (engine : HookEngine) : HookStep → Prop
  | .remove (.sys n) => engine.hookIds.lookup (.sys n) = none
  | _ => True

/-! ## The invariant -/

/-- The number of the registration. -/
def HookId.number : HookId → ℕ
  | .hook n | .sys n => n

/-- The object that fires for a registration. -/
def firing : HookId × HookObject → HookObject
  | (.hook _, object) => object
  | (.sys n, object) => { object with address := .eventCopy n }

theorem firing_hook (entry : HookId × HookObject) : (firing entry).hook = entry.2.hook := by
  rcases entry with ⟨_ | _, object⟩ <;> rfl

namespace HookEngine

variable {engine engine' : HookEngine} {hooks : List HookObject} {steps : List HookStep}

/-- The two maps agree on what is registered. -/
structure Inv (hooks : List HookObject) (engine : HookEngine) : Prop where
  fires : ∀ event, (engine.hooksFor event).Perm
    ((hooks ++ engine.hookIds.map firing).filter (·.hook.event = event))
  kept : ∀ event, engine.byEvent event ≠ some []
  ids : (engine.hookIds.map (·.1)).Nodup
  counted : ∀ entry ∈ engine.hookIds, entry.1.number ≤ engine.hookIdCounter

theorem hooksFor_addHookInternal (object : HookObject) (event : String) :
    (engine.addHookInternal object).hooksFor event =
      engine.hooksFor event ++ if object.hook.event = event then [object] else [] := by
  unfold hooksFor addHookInternal
  dsimp only
  by_cases same : object.hook.event = event
  · subst same
    rw [Function.update_self, if_pos rfl]
    rfl
  · rw [Function.update_of_ne (Ne.symm same), if_neg same, List.append_nil]

theorem kept_addHookInternal (kept : ∀ event, engine.byEvent event ≠ some []) (object : HookObject)
    (event : String) : (engine.addHookInternal object).byEvent event ≠ some [] := by
  unfold addHookInternal
  dsimp only
  by_cases same : event = object.hook.event
  · subst same
    rw [Function.update_self]
    simp
  · rw [Function.update_of_ne same]
    exact kept event

theorem hooksFor_create (event : String) :
    (create hooks).hooksFor event = hooks.filter (·.hook.event = event) := by
  have general (engine : HookEngine) : (hooks.foldl addHookInternal engine).hooksFor event =
      engine.hooksFor event ++ hooks.filter (·.hook.event = event) := by
    induction hooks generalizing engine with
    | nil => exact (List.append_nil _).symm
    | cons object hooks ih =>
      rw [List.foldl_cons, ih, hooksFor_addHookInternal, List.append_assoc, List.filter_cons]
      simp only [decide_eq_true_eq]
      split <;> rfl
  exact general {}

theorem create_frame (hooks : List HookObject) :
    (create hooks).hookIds = [] ∧ (create hooks).hookIdCounter = 0 ∧
    ∀ event, (create hooks).byEvent event ≠ some [] := by
  have general (engine : HookEngine) (kept : ∀ event, engine.byEvent event ≠ some []) :
      (hooks.foldl addHookInternal engine).hookIds = engine.hookIds ∧
        (hooks.foldl addHookInternal engine).hookIdCounter = engine.hookIdCounter ∧
        ∀ event, (hooks.foldl addHookInternal engine).byEvent event ≠ some [] := by
    induction hooks generalizing engine with
    | nil => exact ⟨rfl, rfl, kept⟩
    | cons object hooks ih => exact ih _ (kept_addHookInternal kept object)
  exact general {} (by simp)

theorem inv_create : Inv hooks (create hooks) := by
  obtain ⟨ids, counter, kept⟩ := create_frame hooks
  refine ⟨fun event => ?_, kept, ?_, ?_⟩
  · rw [hooksFor_create, ids, List.map_nil, List.append_nil]
  · rw [ids]
    exact List.nodup_nil
  · rw [ids]
    simp

theorem Inv.add (inv : engine.Inv hooks) (entry : HookId × HookObject)
    (number : entry.1.number = engine.hookIdCounter + 1) :
    (({ engine with
      hookIdCounter := engine.hookIdCounter + 1
      hookIds := engine.hookIds ++ [entry] } : HookEngine).addHookInternal (firing entry)).Inv
        hooks := by
  refine ⟨fun event => ?_, kept_addHookInternal inv.kept _, ?_, fun other mem => ?_⟩
  · rw [hooksFor_addHookInternal]
    unfold addHookInternal
    rw [List.map_append, ← List.append_assoc, List.filter_append]
    refine (inv.fires event).append (List.Perm.of_eq ?_)
    rw [List.map_singleton, List.filter_singleton]
    by_cases same : (firing entry).hook.event = event <;> simp [same]
  · unfold addHookInternal
    rw [List.map_append, List.map_singleton]
    refine List.nodup_append.2 ⟨inv.ids, List.nodup_singleton _, fun id mem id' new same => ?_⟩
    obtain ⟨other, old, rfl⟩ := List.mem_map.1 mem
    obtain rfl := List.mem_singleton.1 new
    have le := inv.counted other old
    rw [same, number] at le
    exact Nat.lt_irrefl _ le
  · rcases List.mem_append.1 mem with old | new
    · exact Nat.le_succ_of_le (inv.counted other old)
    · obtain rfl := List.mem_singleton.1 new
      exact Nat.le_of_eq number

theorem Inv.lookup {id : HookId} {object : HookObject} (inv : engine.Inv hooks)
    (found : engine.hookIds.lookup id = some object) :
    ∃ before later, engine.hookIds = before ++ (id, object) :: later ∧
      engine.hookIds.filter (·.1 ≠ id) = before ++ later := by
  obtain ⟨before, later, eq, -⟩ := List.lookup_eq_some_iff.1 found
  have ids := inv.ids
  rw [eq, List.map_append, List.map_cons, List.nodup_middle, List.nodup_cons] at ids
  refine ⟨before, later, eq, ?_⟩
  have other {entries : List (HookId × HookObject)} (absent : id ∉ entries.map (·.1)) :
      entries.filter (·.1 ≠ id) = entries := by
    refine List.filter_eq_self.2 fun entry mem => decide_eq_true fun same => absent ?_
    exact List.mem_map.2 ⟨entry, mem, same⟩
  have absent := ids.1
  rw [List.mem_append, not_or] at absent
  rw [eq, List.filter_append, List.filter_cons, other absent.1, other absent.2]
  simp

theorem Inv.remove_hook {n : ℕ} {object : HookObject} (inv : engine.Inv hooks)
    (found : engine.hookIds.lookup (.hook n) = some object) :
    (engine.remove (.hook n)).hookIds = engine.hookIds.filter (·.1 ≠ .hook n) ∧
      (engine.remove (.hook n)).hookIdCounter = engine.hookIdCounter ∧
      (∀ event, (engine.hooksFor event).Perm
        ((if object.hook.event = event then [object] else []) ++
          (engine.remove (.hook n)).hooksFor event)) ∧
      (engine.remove (.hook n)).Inv hooks := by
  obtain ⟨before, later, eq, filtered⟩ := inv.lookup found
  let others := hooks ++ (before ++ later).map firing
  have split : (hooks ++ engine.hookIds.map firing).Perm (object :: others) := by
    rw [eq, List.map_append, List.map_cons, ← List.append_assoc, List.perm_middle.congr_left]
    refine List.Perm.cons _ (List.Perm.of_eq ?_)
    rw [List.append_assoc, ← List.map_append]
  have fires (event : String) : (engine.hooksFor event).Perm
      ((object :: others).filter (·.hook.event = event)) :=
    (inv.fires event).trans (split.filter _)
  have own := fires object.hook.event
  rw [List.filter_cons, if_pos (by simp)] at own
  have mem : object ∈ engine.hooksFor object.hook.event :=
    own.symm.subset (List.mem_cons_self ..)
  obtain ⟨entries, entries_eq⟩ : ∃ entries, engine.byEvent object.hook.event = some entries := by
    refine Option.ne_none_iff_exists'.1 fun none => ?_
    rw [hooksFor, none] at mem
    cases mem
  rw [hooksFor, entries_eq, Option.getD_some] at own mem
  have result : engine.remove (.hook n) =
      { engine with
        hookIds := before ++ later
        byEvent := Function.update engine.byEvent object.hook.event
          (if entries.erase object = [] then none else some (entries.erase object)) } := by
    unfold HookEngine.remove
    simp only [found, entries_eq, if_pos mem, filtered]
  have rest : (entries.erase object).Perm
      (others.filter (·.hook.event = object.hook.event)) := by
    have erased := own.erase object
    rwa [List.erase_cons_head] at erased
  have after (event : String) : (engine.remove (.hook n)).hooksFor event =
      if event = object.hook.event then entries.erase object else engine.hooksFor event := by
    rw [result, hooksFor]
    dsimp only
    by_cases same : event = object.hook.event
    · rw [same, Function.update_self, if_pos rfl]
      split
      case isTrue empty => exact empty.symm
      case isFalse => rfl
    · rw [Function.update_of_ne same, if_neg same, hooksFor]
  refine ⟨by rw [result, filtered], by rw [result], fun event => ?_, ?_⟩
  · rw [after]
    by_cases same : event = object.hook.event
    · subst same
      rw [if_pos rfl, if_pos rfl, hooksFor, entries_eq, Option.getD_some]
      exact List.perm_cons_erase mem
    · rw [if_neg same, if_neg (Ne.symm same), List.nil_append]
  · refine ⟨fun event => ?_, fun event => ?_, ?_, ?_⟩
    · rw [after, show (engine.remove (.hook n)).hookIds = before ++ later by rw [result]]
      by_cases same : event = object.hook.event
      · subst same
        rw [if_pos rfl]
        exact rest
      · rw [if_neg same]
        have fires := fires event
        rwa [List.filter_cons, if_neg (by simpa using Ne.symm same)] at fires
    · rw [result]
      dsimp only
      by_cases same : event = object.hook.event
      · subst same
        rw [Function.update_self]
        split
        · simp
        case isFalse nonempty => exact fun no => nonempty (Option.some.inj no)
      · rw [Function.update_of_ne same]
        exact inv.kept event
    · rw [result, ← filtered]
      exact inv.ids.sublist (List.filter_sublist.map _)
    · rw [result, ← filtered]
      exact fun entry mem => inv.counted entry (List.mem_of_mem_filter mem)

/-- The engine holds what is registered. -/
structure Tracks (engine : HookEngine) (hooks : List HookObject) (registry : HookRegistry) :
    Prop where
  inv : engine.Inv hooks
  constructed : registry.constructed = hooks.map (·.hook)
  count : registry.count = engine.hookIdCounter
  list : engine.list = registry.live

variable {registry : HookRegistry}

theorem step_tracks {label : HookStep} (tracks : engine.Tracks hooks registry)
    (allowed : engine.KeepsSystem label) (next : engine.step label = some engine') :
    engine'.Tracks hooks (registry.apply label) := by
  obtain ⟨inv, constructed, count, list⟩ := tracks
  cases label with
  | register object =>
    cases next
    refine ⟨inv.add (.hook (engine.hookIdCounter + 1), object) rfl, constructed,
      congrArg (· + 1) count, ?_⟩
    unfold HookRegistry.apply
    rw [← list, count]
    exact List.map_append
  | registerSystem object =>
    cases next
    let hook : HookDef := { object.hook with system := some true }
    refine ⟨inv.add (.sys (engine.hookIdCounter + 1), ⟨.idCopy _, hook⟩) rfl,
      constructed, congrArg (· + 1) count, ?_⟩
    unfold HookRegistry.apply
    rw [← list, count]
    exact List.map_append
  | remove id =>
    cases next
    have live : (registry.apply (.remove id)).live =
        (engine.hookIds.filter (·.1 ≠ id)).map fun (id, object) => (id, object.hook) := by
      change registry.live.filter (·.1 ≠ id) = _
      rw [← list, HookEngine.list, List.filter_map]
      rfl
    cases found : engine.hookIds.lookup id with
    | none =>
      have same : engine.remove id = engine := by
        unfold HookEngine.remove
        rw [found]
      have all : engine.hookIds.filter (·.1 ≠ id) = engine.hookIds := by
        refine List.filter_eq_self.2 fun entry mem => decide_eq_true fun same => ?_
        have absent := List.lookup_eq_none_iff.1 found entry mem
        simp [same] at absent
      rw [same]
      exact ⟨inv, constructed, count, by rw [live, all, HookEngine.list]⟩
    | some =>
      cases id with
      | sys n =>
        rw [show engine.hookIds.lookup (.sys n) = none from allowed] at found
        cases found
      | hook =>
        obtain ⟨ids, counter, -, inv'⟩ := inv.remove_hook found
        refine ⟨inv', constructed, count.trans counter.symm, ?_⟩
        rw [live, HookEngine.list, ids]

/-- A run of calls on an engine with these hooks from its constructor. -/
abbrev KeepsSystemRun (hooks : List HookObject) : List HookStep → HookEngine → Prop :=
  Transition.Run step KeepsSystem (create hooks)

theorem tracks_run (run : KeepsSystemRun hooks steps engine) :
    engine.Tracks hooks (.after hooks steps) := by
  have initial : (create hooks).Tracks hooks (.after hooks []) := by
    refine ⟨inv_create, rfl, (create_frame hooks).2.1.symm, ?_⟩
    rw [HookEngine.list, (create_frame hooks).1]
    rfl
  refine run.invariant_labels (fun steps engine => engine.Tracks hooks (.after hooks steps)) initial
    fun steps engine label engine' tracks allowed next => ?_
  rw [HookRegistry.after, List.foldl_append]
  exact step_tracks tracks allowed next

theorem Tracks.hooksFor (tracks : engine.Tracks hooks registry) (event : String) :
    ((engine.hooksFor event).map (·.hook)).Perm (registry.hooksFor event) := by
  refine ((tracks.inv.fires event).map _).trans (List.Perm.of_eq ?_)
  have live : (engine.hookIds.map firing).map (·.hook) = registry.live.map (·.2) := by
    rw [← tracks.list, HookEngine.list, List.map_map, List.map_map]
    exact List.map_congr_left fun entry _ => firing_hook entry
  rw [HookRegistry.hooksFor, tracks.constructed, ← live, ← List.map_append, List.filter_map]
  rfl

theorem Tracks.summary (tracks : engine.Tracks hooks registry) (event : String) :
    engine.summary event =
      if registry.hooksFor event = [] then none else some (registry.hooksFor event).length := by
  have perm := tracks.hooksFor event
  rw [HookEngine.hooksFor] at perm
  cases entries : engine.byEvent event with
  | none =>
    rw [entries] at perm
    rw [HookEngine.summary, entries, if_pos perm.nil_eq.symm]
    rfl
  | some objects =>
    have nonempty : objects ≠ [] := fun empty => tracks.inv.kept event (by rw [entries, empty])
    rw [entries] at perm
    have length := perm.length_eq
    rw [Option.getD_some, List.length_map] at length
    have nonempty' : registry.hooksFor event ≠ [] := by
      rw [← List.length_pos_iff] at nonempty ⊢
      rwa [← length]
    rw [HookEngine.summary, entries, if_neg nonempty', Option.map_some, length]

/-! ## What a trigger runs -/

theorem matchingLoop_sublist (accepts : HookDef → Bool) (seen : List String)
    (hooks : List HookDef) : (matchingLoop accepts seen hooks).Sublist hooks := by
  fun_induction matchingLoop accepts seen hooks with
  | case1 => exact List.Sublist.slnil
  | case2 _ _ _ _ ih => exact ih.cons _
  | case3 _ _ _ _ _ ih => exact ih.cons _
  | case4 _ _ _ _ _ ih => exact ih.cons_cons _

theorem matchingLoop_accepts (accepts : HookDef → Bool) (seen : List String)
    (hooks : List HookDef) : ∀ hook ∈ matchingLoop accepts seen hooks,
      accepts hook = true ∧ hook.key ∉ seen := by
  fun_induction matchingLoop accepts seen hooks with
  | case1 => simp
  | case2 _ _ _ _ ih => exact ih
  | case3 _ _ _ _ _ ih => exact ih
  | case4 seen hook rest refused unseen ih =>
    intro other mem
    rcases List.mem_cons.1 mem with rfl | mem
    · exact ⟨by simpa using refused, unseen⟩
    · obtain ⟨accepted, new⟩ := ih other mem
      exact ⟨accepted, fun old => new (List.mem_cons_of_mem _ old)⟩

theorem matchingLoop_keys (accepts : HookDef → Bool) (seen : List String) (hooks : List HookDef) :
    ((matchingLoop accepts seen hooks).map HookDef.key).Nodup := by
  fun_induction matchingLoop accepts seen hooks with
  | case1 => exact List.nodup_nil
  | case2 _ _ _ _ ih => exact ih
  | case3 _ _ _ _ _ ih => exact ih
  | case4 seen hook rest _ _ ih =>
    rw [List.map_cons, List.nodup_cons]
    refine ⟨fun mem => ?_, ih⟩
    obtain ⟨other, mem, same⟩ := List.mem_map.1 mem
    refine (matchingLoop_accepts accepts _ rest other mem).2 ?_
    rw [same]
    exact List.mem_cons_self ..

theorem matchingLoop_covers (accepts : HookDef → Bool) (seen : List String)
    (hooks : List HookDef) : ∀ hook ∈ hooks, accepts hook = true →
      hook.key ∈ seen ∨ ∃ other ∈ matchingLoop accepts seen hooks, other.key = hook.key := by
  fun_induction matchingLoop accepts seen hooks with
  | case1 => simp
  | case2 seen hook rest refused ih =>
    intro other mem accepted
    rcases List.mem_cons.1 mem with rfl | mem
    · simp [accepted] at refused
    · exact ih other mem accepted
  | case3 seen hook rest _ old ih =>
    intro other mem accepted
    rcases List.mem_cons.1 mem with rfl | mem
    · exact .inl old
    · exact ih other mem accepted
  | case4 seen hook rest _ _ ih =>
    intro other mem accepted
    rcases List.mem_cons.1 mem with rfl | mem
    · exact .inr ⟨other, List.mem_cons_self .., rfl⟩
    · rcases ih other mem accepted with old | ⟨run, mem', same⟩
      · rcases List.mem_cons.1 old with same | old
        · exact .inr ⟨hook, List.mem_cons_self .., same.symm⟩
        · exact .inl old
      · exact .inr ⟨run, List.mem_cons_of_mem _ mem', same⟩

end HookEngine

theorem HookDef.eq_of_key {hook other : HookDef} (same : hook.key = other.key)
    (plain : '\x00' ∉ (hook.cwd.getD "").toList) (plain' : '\x00' ∉ (other.cwd.getD "").toList) :
    hook.cwd.getD "" = other.cwd.getD "" ∧ hook.command = other.command := by
  have chars := congrArg String.toList same
  unfold HookDef.key at chars
  simp only [String.toList_append, List.append_assoc] at chars
  have zero : "\x00".toList = ['\x00'] := rfl
  rw [zero] at chars
  have general : ∀ {as bs cs ds : List Char}, '\x00' ∉ as → '\x00' ∉ bs →
      as ++ (['\x00'] ++ cs) = bs ++ (['\x00'] ++ ds) → as = bs ∧ cs = ds := by
    intro as bs cs ds plain plain' eq
    rw [List.append_eq_append_iff] at eq
    rcases eq with ⟨more, rfl, eq⟩ | ⟨more, rfl, eq⟩
    · cases more with
      | nil => exact ⟨(List.append_nil _).symm, (List.cons.inj eq).2⟩
      | cons =>
        obtain rfl := (List.cons.inj eq).1
        simp at plain'
    · cases more with
      | nil => exact ⟨List.append_nil _, (List.cons.inj eq).2.symm⟩
      | cons =>
        obtain rfl := (List.cons.inj eq).1
        simp at plain
  obtain ⟨cwd, command⟩ := general plain plain' chars
  exact ⟨String.ext cwd, String.ext command⟩

namespace HookEngine

variable {engine : HookEngine} {hooks : List HookObject} {steps : List HookStep}

/-- After any calls that remove no system hook: a trigger considers exactly the hooks that are
registered, the list holds those with an id and the summary counts them all, the removal of an id
takes away one registration, and a hook that is accepted is skipped only for one with its key. -/
theorem registered_hooks_fire (run : KeepsSystemRun hooks steps engine) :
    (∀ event, ((engine.hooksFor event).map (·.hook)).Perm
      ((HookRegistry.after hooks steps).hooksFor event)) ∧
    engine.list = (HookRegistry.after hooks steps).live ∧
    (∀ event, (engine.summary event).getD 0 =
      ((HookRegistry.after hooks steps).hooksFor event).length) ∧
    (∀ n object, engine.hookIds.lookup (.hook n) = some object → ∀ event,
      (engine.hooksFor event).Perm ((if object.hook.event = event then [object] else []) ++
        (engine.remove (.hook n)).hooksFor event)) ∧
    ∀ accepts event,
      (engine.matchingHooks accepts event).Sublist ((engine.hooksFor event).map (·.hook)) ∧
      (∀ hook ∈ engine.matchingHooks accepts event, accepts hook = true) ∧
      ((engine.matchingHooks accepts event).map HookDef.key).Nodup ∧
      ∀ object ∈ engine.hooksFor event, accepts object.hook = true →
        ∃ hook ∈ engine.matchingHooks accepts event, hook.key = object.hook.key ∧
          ('\x00' ∉ (hook.cwd.getD "").toList → '\x00' ∉ (object.hook.cwd.getD "").toList →
            hook.cwd.getD "" = object.hook.cwd.getD "" ∧ hook.command = object.hook.command) := by
  have tracks := tracks_run run
  refine ⟨tracks.hooksFor, tracks.list, fun event => ?_, fun n object found event =>
    (tracks.inv.remove_hook found).2.2.1 event, fun accepts event =>
    ⟨matchingLoop_sublist .., fun hook mem => (matchingLoop_accepts _ _ _ hook mem).1,
      matchingLoop_keys .., fun object mem accepted => ?_⟩⟩
  · rw [tracks.summary]
    split
    case isTrue empty => rw [empty]; rfl
    case isFalse => rfl
  · have covered := matchingLoop_covers accepts [] ((engine.hooksFor event).map (·.hook))
      object.hook (List.mem_map_of_mem mem) accepted
    obtain ⟨hook, mem, same⟩ := covered.resolve_left (List.not_mem_nil)
    exact ⟨hook, mem, same, HookDef.eq_of_key same⟩

/-! ## Sample registrations -/

/-- Two hooks that differ in their environment only. -/
def lint (name : String) : HookObject :=
  { address := .given 0
    hook := { event := "Stop", command := "lint", env := some [("KIND", name)] } }

instance (engine : HookEngine) : ∀ label, Decidable (engine.KeepsSystem label)
  | .remove (.sys n) => inferInstanceAs (Decidable (engine.hookIds.lookup (.sys n) = none))
  | .remove (.hook _) | .register _ | .registerSystem _ => isTrue trivial

/-- One object is registered twice, and one of the registrations is removed. -/
def registrations : List HookStep :=
  [.register (lint "a"), .registerSystem (lint "b"), .register (lint "a"), .remove (.hook 1)]

theorem registrations_fire : ∃ engine, KeepsSystemRun [lint "a"] registrations engine ∧
    (engine.summary "Stop").getD 0 = 3 ∧ engine.list.map (·.1) = [.sys 2, .hook 3] := by
  obtain ⟨engine, exec⟩ : ∃ engine, Transition.exec (Transition.guarded step KeepsSystem)
      (create [lint "a"]) registrations = some engine :=
    Option.isSome_iff_exists.1 (by decide +kernel)
  have run := Transition.Run.of_exec exec
  obtain ⟨-, listed, counted, -⟩ := registered_hooks_fire run
  refine ⟨engine, run, ?_, ?_⟩
  · rw [counted]
    decide +kernel
  · rw [listed]
    decide +kernel

/-- The constructor's hooks are in no list, and of two hooks that differ in their environment only
the first one is run. -/
theorem create_unlisted :
    (create [lint "a", lint "b"]).summary "Stop" = some 2 ∧
      (create [lint "a", lint "b"]).list = [] ∧
      (lint "a").hook.env ≠ (lint "b").hook.env ∧
      (create [lint "a", lint "b"]).matchingHooks (fun _ => true) "Stop" = [(lint "a").hook] := by
  decide +kernel

end HookEngine

end KimiCli
