import KimiCli.Workspace.RegistryService

/-!
# Writes of the registry, one after the other

Every operation reads and replaces `workspaces.json` in an exclusive section, so that what it writes
is its change of the registry as it is at that moment (`Effect`).  After a run the registry is the
one at the start changed by the calls that have replaced the file, one after the other (`Written`).
-/

open Tasks

namespace KimiCli.WorkspaceRegistry

open RegistryTask RegistryHost

/-- `workspaces.json` and its temporary file. -/
structure Files where
  registry : JsonFile
  tmp : JsonFile

def RegistryOp.isGuarded : RegistryOp → Prop
  | .readRegistryFile | .writeTmp _ | .renameTmp => True
  | _ => False

def RegistryHost.files (host : RegistryHost) : Sharing host.service Files where
  view w := ⟨w.registry, w.tmp⟩
  guarded := RegistryOp.isGuarded
  keeps op w plain := by
    cases op with
    | readRegistryFile | writeTmp | renameTmp => exact absurd trivial plain
    | _ => rfl
  environment _ _ := rfl

/-- What a call makes of the registry. -/
inductive Effect (host : RegistryHost) :
    RegistryCall → WorkspaceRegistryFile → WorkspaceRegistryFile → Prop
  | createOrTouch {root : String} {name : Option String} {file : WorkspaceRegistryFile}
      (now : String) : Effect host (.createOrTouch root name) file
        (host.touch file (host.normalizeWorkDir root) name now)
  | update {workspaceId : String} {name : Option String} {file : WorkspaceRegistryFile}
      {existing : WorkspaceRegistryEntry} (found : file.entry workspaceId = some existing) :
      Effect host (.update workspaceId name) file
        (file.setEntry workspaceId (patched existing name))
  | delete {workspaceId : String} {file : WorkspaceRegistryFile} :
      Effect host (.delete workspaceId) file (remove file workspaceId)

/-- Only a renaming changes the registry, and then by the effect of the call. -/
def RegistryHost.guarantee (host : RegistryHost) (call : RegistryCall) :
    (op : RegistryOp) → op.Answer → Files → Files → Prop
  | .renameTmp, answer, g, g' =>
    match (answer : Except Errno Unit) with
    | .ok () => ∃ file file', readAs g.registry = .ok file ∧ readAs g'.registry = .ok file' ∧
        Effect host call file file'
    | .error _ => g'.registry = g.registry
  | _, _, g, g' => g'.registry = g.registry

/-- The rules of the sections of a call. -/
abbrev RegistryHost.guarding (host : RegistryHost) (call : RegistryCall) :
    Logic registrySignature (Mode Files) := host.files.excluding (host.guarantee call)

/-- The rest of the disk is not guarded. -/
abbrev RegistryHost.Outside (host : RegistryHost) (call : RegistryCall) {α : Type}
    (task : RegistryTask α) : Prop := host.files.Stays (host.guarantee call) task

variable {host : RegistryHost} {call : RegistryCall} {α β : Type} {g : Files}
  {file file' : WorkspaceRegistryFile}

/-! ## Outside of the sections -/

theorem outside_await (answer : Except Errno α) : host.Outside call (await answer) := by
  cases answer with
  | ok value => exact stays_pure value
  | error code => exact stays_fail (RegistryError.system code)

theorem outside_isSessionArchived (sessionDir : String) :
    host.Outside call (host.isSessionArchived sessionDir) := by
  refine stays_ask id fun (state : JsonFile) => ?_
  rcases state with code | content
  · exact stays_pure false
  · cases content with
    | none => exact stays_pure false
    | some =>
      dsimp only
      split
      case h_1 archived _ _ => exact stays_pure archived
      case h_2 => exact stays_pure false

theorem outside_countActiveSessions (dir : String) :
    host.Outside call (host.countActiveSessions dir) := by
  refine stays_ask id fun answer => ?_
  split
  · exact stays_pure _
  · exact stays_fail _
  · refine stays_bind (stays_collect (fun d => ?_) _) fun counted => stays_pure _
    rw [countDirent]
    split
    · exact stays_pure _
    · refine stays_bind (outside_isSessionArchived _) fun archived => ?_
      cases archived <;> exact stays_pure _

theorem outside_hydrate (workspaceId : String) (entry : WorkspaceRegistryEntry)
    (sessionCount : Option ℕ) :
    host.Outside call (host.hydrate workspaceId entry sessionCount) := by
  refine stays_ask id fun git => ?_
  cases sessionCount with
  | some => exact stays_pure _
  | none => exact stays_bind (outside_countActiveSessions _) fun count => stays_pure _

theorem outside_derivedRoot (workspaceId : String) :
    host.Outside call (host.derivedRoot workspaceId) := by
  refine stays_ask id fun index => ?_
  cases found : index.find? fun workDir => host.encodeWorkDirKey workDir = workspaceId with
  | some derived => exact stays_pure derived
  | none => exact stays_fail _

/-! ## In the sections -/

/-- The call is still in its section. -/
def Inside (x : Mode Files) (_ : Except RegistryError α) : Prop := ∃ g, x = .inside g

theorem inside_readRegistry {f : WorkspaceRegistryFile → RegistryTask α}
    (rest : ∀ file, readAs g.registry = .ok file →
      (f file).Meets (host.guarding call) Inside (.inside g)) :
    (readRegistry >>= f).Meets (host.guarding call) Inside (.inside g) := by
  refine ⟨fun _ => ⟨g, rfl, fun w same => by rw [← same]; rfl⟩, fun raw y moves => ?_⟩
  obtain ⟨w, here, answered, rfl⟩ := moves
  obtain rfl : g = ⟨w.registry, w.tmp⟩ := here
  obtain rfl : raw = w.registry := answered
  change ((await (readAs w.registry)).bind f).Meets _ _ _
  cases read : readAs w.registry with
  | ok file => exact rest file read
  | error => exact ⟨_, rfl⟩

theorem guarantee_rename {w : RegistryWorld} (read : readAs w.registry = .ok file)
    (tmp : w.tmp = .ok (some file'.toJson)) (effect : Effect host call file file') :
    host.guarantee call .renameTmp (w.act .renameTmp).1 ⟨w.registry, w.tmp⟩
      (host.files.view (w.act .renameTmp).2) := by
  rw [RegistryWorld.act, tmp]
  cases w.disk.renameTmp with
  | ok =>
    refine ⟨file, file', read, ?_, effect⟩
    exact congrArg Except.ok (fileOf_toJson file')
  | error => exact rfl

theorem inside_writeRegistry (read : readAs g.registry = .ok file)
    (effect : Effect host call file file') :
    (host.writeRegistry file').Meets (host.guarding call) Inside (.inside g) := by
  refine ⟨fun never => never.elim, fun (made : Except Errno Unit) y moves => ?_⟩
  rw [Mode.eq_of_moves id moves]
  cases made with
  | error => exact ⟨g, rfl⟩
  | ok =>
    refine ⟨fun _ => ⟨g, rfl, fun w same => ?_⟩, fun (written : Except Errno Unit) y moves => ?_⟩
    · subst same
      change (host.files.view (w.act (.writeTmp file'.toJson)).2).registry = w.registry
      rw [RegistryWorld.act]
      split <;> rfl
    · obtain ⟨w, here, answered, rfl⟩ := moves
      obtain rfl : g = ⟨w.registry, w.tmp⟩ := here
      change written = (w.act (.writeTmp file'.toJson)).1 at answered
      change ((await written).bind _).Meets _ _ (Mode.inside (host.files.view
        (w.act (.writeTmp file'.toJson)).2))
      rw [RegistryWorld.act] at answered ⊢
      cases there : w.disk.writeTmp with
      | error =>
        rw [there] at answered
        subst answered
        exact ⟨_, rfl⟩
      | ok =>
        rw [there] at answered
        subst answered
        refine ⟨fun _ => ⟨_, rfl, fun v same => ?_⟩,
          fun (renamed : Except Errno Unit) z moves => ?_⟩
        · have registry : v.registry = w.registry := congrArg Files.registry same
          have tmp : v.tmp = .ok (some file'.toJson) := congrArg Files.tmp same
          rw [← same]
          exact guarantee_rename (registry ▸ read) tmp effect
        · obtain ⟨v, -, -, rfl⟩ := moves
          cases renamed with
          | ok => exact ⟨_, rfl⟩
          | error => exact ⟨_, rfl⟩

/-! ## The operations -/

/-- The call begins and ends outside of its sections, and keeps the rules in them. -/
def Guarded (host : RegistryHost) (call : RegistryCall) (task : RegistryTask α) : Prop :=
  task.Meets (host.guarding call) (fun x _ => x = .out) .out

variable {task : RegistryTask α}

theorem Guarded.bind {f : α → RegistryTask β} (first : Guarded host call task)
    (rest : ∀ value, Guarded host call (f value)) :
    Guarded host call (task >>= f) := by
  refine Task.Meets.bind first ?_ fun y error out => out
  rintro y value rfl
  exact rest value

theorem Guarded.then {f : α → RegistryTask β} (first : Guarded host call task)
    (rest : ∀ value, host.Outside call (f value)) :
    Guarded host call (task >>= f) :=
  first.bind fun value => rest value .out

theorem guarded_ask {op : RegistryOp} {f : op.Answer → RegistryTask α} (plain : ¬op.isGuarded)
    (rest : ∀ answer, Guarded host call (f answer)) : Guarded host call (ask op >>= f) := by
  refine ⟨fun guarded => absurd guarded plain, fun answer y moves => ?_⟩
  rw [Mode.eq_of_moves plain moves]
  exact rest answer

theorem guarded_exclusive (meets : ∀ g, task.Meets (host.guarding call) Inside (.inside g)) :
    Guarded host call (Task.exclusive task) :=
  meets_exclusive_out meets

theorem outside_publish (event : WorkspaceRegistryEvent) :
    host.Outside call (ask (.publish event)) :=
  fun _ => ⟨fun never => never.elim, fun _ _ moves => Mode.eq_of_moves id moves⟩

theorem guarded_lookup (workspaceId : String) :
    Guarded host call (Task.exclusive (lookup workspaceId)) :=
  guarded_exclusive fun _ => inside_readRegistry fun _ _ => ⟨_, rfl⟩

theorem guarded_list : Guarded host call host.list := by
  have section' : Guarded host call (Task.exclusive readRegistry) := by
    refine guarded_exclusive fun g => ?_
    refine ⟨fun _ => ⟨g, rfl, fun w same => by rw [← same]; rfl⟩, fun raw y moves => ?_⟩
    obtain ⟨w, -, -, rfl⟩ := moves
    change (await (readAs raw)).Meets _ _ _
    cases readAs raw with
    | ok => exact ⟨_, rfl⟩
    | error => exact ⟨_, rfl⟩
  have counted : ∀ derived, host.Outside call (host.listDerived derived) := by
    intro derived
    refine stays_bind (outside_countActiveSessions _) fun count => ?_
    split
    · exact stays_pure _
    · exact stays_bind (outside_hydrate _ _ _) fun workspace => stays_pure _
  refine section'.then fun file => stays_bind (stays_collect (fun entry => ?_) _) fun registered =>
    stays_ask id fun index => stays_bind (stays_collect counted _) fun derived => stays_pure _
  exact stays_bind (outside_hydrate _ _ _) fun workspace => stays_pure _

theorem guarded_get (workspaceId : String) : Guarded host call (host.get workspaceId) := by
  refine (guarded_lookup workspaceId).then fun entry => ?_
  cases entry with
  | none => exact stays_fail _
  | some => exact outside_hydrate _ _ _

theorem guarded_resolveRoot (workspaceId : String) :
    Guarded host call (host.resolveRoot workspaceId) := by
  refine (guarded_lookup workspaceId).then fun entry => ?_
  cases entry with
  | none => exact outside_derivedRoot workspaceId
  | some entry => exact stays_pure entry.root

theorem inside_write {value : α} (read : readAs g.registry = .ok file)
    (effect : Effect host call file file') :
    (host.writeRegistry file' >>= fun _ => (pure value : RegistryTask α)).Meets
      (host.guarding call) Inside (.inside g) := by
  refine (inside_writeRegistry read effect).bind ?_ fun y error inside => inside
  exact fun y _ inside => inside

theorem guarded_createOrTouch (root : String) (name : Option String) :
    Guarded host (.createOrTouch root name) (host.createOrTouch root name) := by
  have section' : ∀ now, Guarded host (.createOrTouch root name)
      (Task.exclusive (host.createOrTouchSection (host.normalizeWorkDir root) name now)) :=
    fun now => guarded_exclusive fun _ => inside_readRegistry fun _ read =>
      inside_write read (.createOrTouch now)
  refine guarded_ask id fun answer => ?_
  split
  case h_1 | h_2 | h_3 | h_4 => exact stays_fail _ .out
  case h_5 =>
    refine guarded_ask id fun made => Guarded.bind (outside_await _ .out) fun _ => ?_
    refine guarded_ask id fun now => (section' now).then fun written => ?_
    refine stays_bind (outside_hydrate _ _ _) fun workspace => ?_
    cases written.2 with
    | true => exact stays_bind (outside_publish _) fun _ => stays_pure _
    | false => exact stays_pure workspace

theorem guarded_update (workspaceId : String) (name : Option String) :
    Guarded host (.update workspaceId name) (host.update workspaceId name) := by
  refine (guarded_exclusive fun g => inside_readRegistry fun file read => ?_).then fun entry =>
    stays_bind (outside_hydrate _ _ _) fun workspace => stays_bind (outside_publish _) fun _ =>
      stays_pure _
  cases found : file.entry workspaceId with
  | none => exact ⟨g, rfl⟩
  | some => exact inside_write read (.update found)

theorem guarded_delete (workspaceId : String) :
    Guarded host (.delete workspaceId) (host.delete workspaceId) := by
  refine (guarded_exclusive fun g => inside_readRegistry fun file read => ?_).then fun root =>
    outside_publish _
  cases found : file.entry workspaceId with
  | some => exact inside_write read .delete
  | none =>
    refine (outside_derivedRoot workspaceId _).bind ?_ ?_
    · rintro y root rfl
      exact inside_write read .delete
    · rintro y error rfl
      exact ⟨g, rfl⟩

theorem guarded_program (call : RegistryCall) : Guarded host call (host.program call) := by
  cases call with
  | list => exact guarded_list.then fun _ => stays_pure _
  | get workspaceId => exact (guarded_get workspaceId).then fun _ => stays_pure _
  | resolveRoot workspaceId => exact (guarded_resolveRoot workspaceId).then fun _ => stays_pure _
  | createOrTouch root name => exact (guarded_createOrTouch root name).then fun _ => stays_pure _
  | update workspaceId name => exact (guarded_update workspaceId name).then fun _ => stays_pure _
  | delete workspaceId => exact (guarded_delete workspaceId).then fun _ => stays_pure _

/-! ## The registry after a run -/

/-- `workspaces.json` after these calls have replaced it. -/
inductive Written (host : RegistryHost) (start : JsonFile) : List RegistryCall → JsonFile → Prop
  | nil : Written host start [] start
  | snoc {calls : List RegistryCall} {call : RegistryCall} {raw raw' : JsonFile}
      {file file' : WorkspaceRegistryFile} (before : Written host start calls raw)
      (read : readAs raw = .ok file) (read' : readAs raw' = .ok file')
      (effect : Effect host call file file') : Written host start (calls ++ [call]) raw'

/-- A renaming that has succeeded. -/
def replaces : Event registrySignature → Bool
  | ⟨.ask .renameTmp, answer⟩ => (show Except Errno Unit from answer).isOk
  | _ => false

/-- The service before its first call. -/
def Registry.idle (w : RegistryWorld) : Registry := ⟨w, [], fun _ => none⟩

def Registry.callsOf (m : Registry) (order : List ℕ) : List RegistryCall :=
  order.filterMap fun c => (m.calls c).map (·.call)

/-- The calls have replaced the file in this order, each as often as it has renamed the temporary
file. -/
structure Serialized (host : RegistryHost) (start : JsonFile) (m : Registry) (order : List ℕ) :
    Prop where
  counts : ∀ c, order.count c = (m.calls c).elim 0 fun run => run.past.countP replaces
  written : Written host start (m.callsOf order) m.world.registry

section

variable {m m' : Registry} {mode : ℕ → Mode Files} {c : ℕ} {order : List ℕ} {start : JsonFile}
  {run : Running registrySignature RegistryCall RegistryError RegistryAnswer}
  {event : Event registrySignature}

theorem registry_step (excluded : Excluded host.files host.guarantee m mode)
    (serves : host.service.Serves m c run event m') :
    if replaces event then ∃ file file', readAs m.world.registry = .ok file ∧
        readAs m'.world.registry = .ok file' ∧ Effect host run.call file file'
    else m'.world.registry = m.world.registry := by
  obtain ⟨request, answer⟩ := event
  have plain (other : ∀ op : RegistryOp, request = .ask op → ¬op.isGuarded) :
      m'.world.registry = m.world.registry :=
    congrArg Files.registry (serves.view (D := host.files) other)
  cases request with
  | enqueue | turn | leave => exact plain fun op no => by cases no
  | ask op =>
    cases op with
    | readRegistryFile | writeTmp =>
      exact excluded.guarantees (D := host.files) serves trivial
    | renameTmp =>
      have guarantee := excluded.guarantees (D := host.files) serves trivial
      rcases (answer : Except Errno Unit) with code | ⟨⟩ <;> exact guarantee
    | _ =>
      refine plain fun op same => ?_
      cases same
      exact id

theorem callsOf_step (serves : host.service.Serves m c run event m') :
    m'.callsOf order = m.callsOf order := by
  refine List.filterMap_congr fun c' _ => ?_
  by_cases same : c' = c
  · obtain ⟨running, next, -, -, calls⟩ := serves
    rw [same, calls, Function.update_self, running]
    rfl
  · rw [serves.calls_ne same]

theorem Serialized.step {label : Label Disk RegistryCall}
    (excluded : Excluded host.files host.guarantee m mode)
    (serialized : Serialized host start m order) (stepped : host.service.step m label = some m') :
    ∃ order, Serialized host start m' order := by
  cases label with
  | start c call =>
    obtain ⟨fresh, rfl⟩ := host.service.step_start stepped
    have none' := serialized.counts c
    rw [fresh, Option.elim_none, List.count_eq_zero] at none'
    refine ⟨order, fun c' => ?_, ?_⟩
    · change _ = (Function.update m.calls c (some ⟨call, [], host.program call⟩) c').elim 0 _
      by_cases same : c' = c
      · rw [same, List.count_eq_zero.2 none', Function.update_self]
        rfl
      · rw [serialized.counts c', Function.update_of_ne same]
    · have calls : Registry.callsOf { m with
          calls := Function.update m.calls c (some ⟨call, [], host.program call⟩) } order =
            m.callsOf order := by
        refine List.filterMap_congr fun c' mem => ?_
        have other : c' ≠ c := fun same => none' (same ▸ mem)
        exact congrArg (Option.map _) (Function.update_of_ne other _ m.calls)
      have written := serialized.written
      rw [← calls] at written
      exact written
  | environment =>
    cases stepped
    exact ⟨order, serialized.counts, serialized.written⟩
  | go c =>
    obtain ⟨run, event, serves⟩ := host.service.step_go stepped
    have counted (c' : ℕ) : (m'.calls c').elim 0 (fun run => run.past.countP replaces) =
        order.count c' + if c' = c ∧ replaces event then 1 else 0 := by
      rw [serialized.counts c']
      by_cases same : c' = c
      · obtain ⟨running, next, -, -, calls⟩ := serves
        rw [same, calls, Function.update_self, running]
        simp [Running.next, List.countP_append, List.countP_singleton]
      · rw [serves.calls_ne same, if_neg fun both => same both.1, Nat.add_zero]
    have replaced := registry_step excluded serves
    cases renamed : replaces event with
    | false =>
      rw [renamed] at replaced
      refine ⟨order, fun c' => ?_, ?_⟩
      · rw [counted, renamed, if_neg fun both => Bool.false_ne_true both.2, Nat.add_zero]
      · rw [callsOf_step serves, show m'.world.registry = _ from replaced]
        exact serialized.written
    | true =>
      rw [renamed] at replaced
      obtain ⟨file, file', read, read', effect⟩ := replaced
      refine ⟨order ++ [c], fun c' => ?_, ?_⟩
      · rw [counted, renamed, List.count_append, List.count_singleton]
        exact congrArg (order.count c' + ·)
          (if_congr (by rw [and_iff_left rfl, beq_iff_eq, eq_comm]) rfl rfl)
      · have last : m.callsOf [c] = [run.call] := by
          rw [Registry.callsOf, List.filterMap_cons_some (by rw [serves.calls]; rfl)]
          rfl
        have all : m'.callsOf (order ++ [c]) = m.callsOf order ++ [run.call] := by
          rw [callsOf_step serves, Registry.callsOf, List.filterMap_append]
          exact congrArg _ last
        rw [all]
        exact .snoc serialized.written read read' effect

variable {w : RegistryWorld} {labels : List (Label Disk RegistryCall)}

theorem serialized_of_run
    (run : Transition.Run host.service.step Transition.Always (Registry.idle w) labels m) :
    (∃ mode, Excluded host.files host.guarantee m mode) ∧
      ∃ order, Serialized host w.registry m order := by
  refine run.invariant (fun m => (∃ mode, Excluded host.files host.guarantee m mode) ∧
    ∃ order, Serialized host w.registry m order)
    ⟨⟨fun _ => .out, ?_⟩, [], fun c => rfl, .nil⟩ ?_
  · exact ⟨fun c run no => (by cases no), fun _ _ => rfl, List.nodup_nil,
      fun c => iff_of_false List.not_mem_nil fun out => out rfl, fun c g no => by cases no⟩
  · rintro m label m' ⟨⟨mode, excluded⟩, order, serialized⟩ - stepped
    exact ⟨excluded.step guarded_program stepped, serialized.step excluded stepped⟩

/-- Whatever runs at the same time, the file is the one at the start changed by the calls that have
replaced it, one after the other. -/
theorem writes_serialize
    (run : Transition.Run host.service.step Transition.Always (Registry.idle w) labels m) :
    ∃ order, (∀ c, order.count c =
        (m.calls c).elim 0 fun run => run.past.countP replaces) ∧
      Written host w.registry (m.callsOf order) m.world.registry := by
  obtain ⟨-, order, serialized⟩ := serialized_of_run run
  exact ⟨order, serialized.counts, serialized.written⟩

/-! ## Deleted workspaces -/

def WorkspaceRegistryFile.Gone (file : WorkspaceRegistryFile) (id : String) : Prop :=
  file.entry id = none ∧ id ∈ file.deleted_workspace_ids

/-- The call registers the workspace, if it succeeds. -/
def RegistryHost.Registers (host : RegistryHost) (id : String) : RegistryCall → Prop
  | .createOrTouch root _ => host.encodeWorkDirKey (host.normalizeWorkDir root) = id
  | _ => False

theorem gone_remove (file : WorkspaceRegistryFile) (id : String) : (remove file id).Gone id := by
  refine ⟨OrderedMap.get_delete_self _ _, ?_⟩
  unfold remove
  split
  case isTrue already => exact already
  case isFalse => exact List.mem_append_right _ (List.mem_singleton_self id)

theorem Effect.gone {id : String} (effect : Effect host call file file') (gone : file.Gone id)
    (other : ¬host.Registers id call) : file'.Gone id := by
  cases effect with
  | createOrTouch =>
    refine ⟨(WorkspaceRegistryFile.entry_setEntry_ne (Ne.symm other)).trans gone.1, ?_⟩
    exact List.mem_filter.2 ⟨gone.2, decide_eq_true (Ne.symm other)⟩
  | @update workspaceId _ _ _ found =>
    have ne : id ≠ workspaceId := fun same => by
      rw [← same, gone.1] at found
      cases found
    refine ⟨(WorkspaceRegistryFile.entry_setEntry_ne ne).trans gone.1, ?_⟩
    rw [WorkspaceRegistryFile.setEntry_deleted]
    exact gone.2
  | @delete workspaceId =>
    by_cases same : id = workspaceId
    · rw [same]
      exact gone_remove file workspaceId
    · refine ⟨(OrderedMap.get_delete_ne _ same).trans gone.1, ?_⟩
      unfold remove
      split
      · exact gone.2
      · exact List.mem_append_left _ gone.2

theorem started
    (steps : Transition.Run host.service.step Transition.Always (Registry.idle w) labels m)
    (called : m.calls c = some run) : .start c run.call ∈ labels := by
  refine steps.invariant_labels (fun labels m => ∀ c run, m.calls c = some run →
    .start c run.call ∈ labels) (fun c run no => by cases no) ?_ c run called
  intro labels m label m' before _ stepped c' run called
  refine List.mem_append.2 ?_
  cases label with
  | start c =>
    obtain ⟨fresh, rfl⟩ := host.service.step_start stepped
    change Function.update m.calls c _ c' = some run at called
    by_cases same : c' = c
    · rw [same, Function.update_self] at called
      cases called
      exact .inr (same ▸ List.mem_singleton_self _)
    · rw [Function.update_of_ne same] at called
      exact .inl (before c' run called)
  | environment =>
    cases stepped
    exact .inl (before c' run called)
  | go c =>
    obtain ⟨run', event, serves⟩ := host.service.step_go stepped
    by_cases same : c' = c
    · subst same
      obtain ⟨running, next, -, -, calls⟩ := serves
      rw [calls, Function.update_self] at called
      cases called
      exact .inl (before c' run' running)
    · exact .inl (before c' run ((serves.calls_ne same).symm.trans called))

/-- A workspace that is deleted stays deleted, whatever runs at the same time, until a call
registers its root again. -/
theorem deleted_stays {id : String}
    (run : Transition.Run host.service.step Transition.Always (Registry.idle w) labels m)
    (read : readAs w.registry = .ok file) (gone : file.Gone id)
    (others : ∀ c call, .start c call ∈ labels → ¬host.Registers id call) :
    ∃ file', readAs m.world.registry = .ok file' ∧ file'.Gone id := by
  obtain ⟨-, order, -, written⟩ := serialized_of_run run
  have never : ∀ call ∈ m.callsOf order, ¬host.Registers id call := fun call mem => by
    obtain ⟨c, -, called⟩ := List.mem_filterMap.1 mem
    obtain ⟨running, found, rfl⟩ := Option.map_eq_some_iff.1 called
    exact others c running.call (started run found)
  generalize m.callsOf order = calls at written never
  generalize m.world.registry = raw at written ⊢
  induction written with
  | nil => exact ⟨file, read, gone⟩
  | snoc before read' after effect ih =>
    rw [List.forall_mem_append, List.forall_mem_singleton] at never
    obtain ⟨old, read'', gone⟩ := ih never.1
    rw [read''] at read'
    cases read'
    exact ⟨_, after, effect.gone gone never.2⟩

end

/-! ## Two deletions at the same time -/

/-- A disk on which everything succeeds. -/
def plainDisk : Disk where
  stat _ := .ok true
  mkdir _ := .ok ()
  readdir _ := .ok []
  readJson _ := .error .ENOENT
  sessionIndex := ["/a", "/b"]
  detectGit _ := ⟨false, none⟩
  clock := ""
  writeTmp := .ok ()
  renameTmp := .ok ()

def plainHost : RegistryHost where
  homeDir := "/home"
  join base _ := base
  normalizeWorkDir root := root
  encodeWorkDirKey root := root
  posixBasename root := root
  sort := id
  sort_perm := List.Perm.refl

/-- The registry in which `/a` is deleted. -/
def withoutA : WorkspaceRegistryFile :=
  { WorkspaceRegistryFile.empty with deleted_workspace_ids := ["/a"] }

def plainWorld : RegistryWorld := ⟨plainDisk, .ok (some withoutA.toJson), .error .ENOENT, []⟩

/-- The second call gets its turn when the first has left its section. -/
def twoDeletions : List (Label Disk RegistryCall) :=
  [.start 0 (.delete "/b"), .start 1 (.delete "/a")] ++
    [0, 1, 0, 0, 0, 0, 0, 0, 0, 0, 1, 1, 1, 1, 1, 1, 1].map .go

theorem twoDeletions_run : ∃ m : Registry,
    Transition.Run plainHost.service.step Transition.Always (Registry.idle plainWorld)
      twoDeletions m :=
  ⟨_, Transition.Run.of_exec rfl⟩

theorem writes_serialize_twoDeletions : ∃ m : Registry,
    Transition.Run plainHost.service.step Transition.Always (Registry.idle plainWorld)
      twoDeletions m ∧
    ∃ order : List ℕ, (∀ c, order.count c =
        (m.calls c).elim 0 fun run => run.past.countP replaces) ∧
      Written plainHost plainWorld.registry (m.callsOf order) m.world.registry := by
  obtain ⟨m, run⟩ := twoDeletions_run
  exact ⟨m, run, writes_serialize run⟩

theorem deleted_stays_twoDeletions : ∃ m : Registry,
    Transition.Run plainHost.service.step Transition.Always (Registry.idle plainWorld)
      twoDeletions m ∧
    ∃ file', readAs m.world.registry = .ok file' ∧ file'.Gone "/a" := by
  obtain ⟨m, run⟩ := twoDeletions_run
  have read : readAs plainWorld.registry = .ok withoutA :=
    congrArg Except.ok (fileOf_toJson withoutA)
  refine ⟨m, run, deleted_stays run read ⟨rfl, List.mem_singleton_self _⟩ fun c call mem => ?_⟩
  simp only [twoDeletions, List.cons_append, List.nil_append, List.mem_cons, List.mem_map,
    Label.start.injEq, reduceCtorEq, and_false, exists_false, or_false] at mem
  rcases mem with ⟨-, rfl⟩ | ⟨-, rfl⟩ <;> exact id

end KimiCli.WorkspaceRegistry
