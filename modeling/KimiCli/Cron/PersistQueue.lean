import KimiCli.Cron.Scheduler
import KimiCli.Lib.KeyedQueues
import KimiCli.Lib.OrderedMap
import KimiCli.Lib.Run

/-!
# The cron tasks on disk

The manager keeps its tasks in memory and mirrors every change to a file of the task.  The writes
and the removals of a file are chained, and dropped from the map of the chains when they settle.
When all of them have settled, the files are the tasks (`persistence_converges`).
-/

namespace KimiCli

structure StoredCronTask extends CronTask where
  prompt : String

/-- `Omit<CronTask, 'id' | 'createdAt'>`. -/
structure SessionCronTaskInit where
  cron : String
  prompt : String
  recurring : Option Bool := none
  lastFiredAt : Option ℤ := none

/-- `CRON_ID_REGEX` and `ID_REGEX`. -/
def isCronId (id : String) : Bool :=
  id.toList.length = 8 && id.toList.all fun c => c.isDigit || 'a' ≤ c && c ≤ 'f'

/-! ## Files -/

/-- What a member of a parsed object is. -/
inductive CronField
  | string (value : String)
  | number (value : ℤ)
  | bool (value : Bool)
  | other

/-- The members of a parsed object that are read; `none` for one that is not there. -/
structure CronRecord where
  id : Option CronField := none
  cron : Option CronField := none
  prompt : Option CronField := none
  createdAt : Option CronField := none
  recurring : Option CronField := none
  lastFiredAt : Option CronField := none

/-- What `JSON.parse` gives for a file. -/
inductive CronFile
  | record (value : CronRecord)
  /-- Not JSON, or no object. -/
  | other

/-- `JSON.stringify(task)`; members that are `undefined` are not written. -/
def StoredCronTask.file (task : StoredCronTask) : CronFile :=
  .record {
    id := some (.string task.id)
    cron := some (.string task.cron)
    prompt := some (.string task.prompt)
    createdAt := some (.number task.createdAt)
    recurring := task.recurring.map .bool
    lastFiredAt := task.lastFiredAt.map .number }

namespace CronRecord

/-- The record as a task, if `isValidCronTask` holds of it. -/
def task? (o : CronRecord) : Option StoredCronTask :=
  match o.id, o.cron, o.prompt, o.createdAt with
  | some (.string id), some (.string cron), some (.string prompt), some (.number createdAt) =>
    if isCronId id then
      match o.recurring, o.lastFiredAt with
      | none, none => some { id, cron, prompt, createdAt }
      | some (.bool recurring), none => some { id, cron, prompt, createdAt, recurring }
      | none, some (.number lastFiredAt) => some { id, cron, prompt, createdAt, lastFiredAt }
      | some (.bool recurring), some (.number lastFiredAt) =>
        some { id, cron, prompt, createdAt, recurring, lastFiredAt }
      | _, _ => none
    else none
  | _, _, _, _ => none

end CronRecord

def CronFile.task? : CronFile → Option StoredCronTask
  | record value => value.task?
  | other => none

/-- `undefined` where the source throws. -/
def fileFor (id : String) : Option String := if isCronId id then some (id ++ ".json") else none

/-- The id of an entry that `list` reads. -/
def idOfEntry (entry : String) : Option String :=
  if ".json".toList <:+ entry.toList then
    let id := String.ofList (entry.toList.take (entry.toList.length - ".json".length))
    if isCronId id then some id else none
  else none

/-! ## The manager -/

def maxIdAttempts : ℕ := 8

/-- A manager with a store of files under its session. -/
structure CronManager where
  tasks : OrderedMap String StoredCronTask := ∅
  /-- The directory, by the names of its entries. -/
  files : String → Option CronFile := fun _ => none
  /-- The work of a job is the file that it leaves, `none` for a removal. -/
  persistQueues : KeyedQueues String (Option CronFile) := {}

namespace CronManager

/-- The first of the drawn ids that is not taken. -/
def generateUniqueId (tasks : OrderedMap String StoredCronTask) (drawn : List String) :
    Option String :=
  (drawn.take maxIdAttempts).find? fun candidate =>
    isCronId candidate && (tasks.get candidate).isNone

variable (s : CronManager)

def persistEnqueue (id : String) (file : Option CronFile) : CronManager :=
  { s with persistQueues := s.persistQueues.enqueue id file }

/-- Nothing happens when no id is found: `add` throws. -/
def addTask (init : SessionCronTaskInit) (drawn : List String) (nowMs : ℤ) : CronManager :=
  match generateUniqueId s.tasks drawn with
  | none => s
  | some id =>
    let task : StoredCronTask := {
      id
      cron := init.cron
      prompt := init.prompt
      createdAt := nowMs
      recurring := init.recurring
      lastFiredAt := init.lastFiredAt }
    persistEnqueue { s with tasks := s.tasks.set id task } id (some task.file)

/-- `SessionCronStore.remove`: what is left, and the ids that were there. -/
def removeIds : OrderedMap String StoredCronTask → List String →
    OrderedMap String StoredCronTask × List String
  | tasks, [] => (tasks, [])
  | tasks, id :: ids =>
    if (tasks.get id).isSome then
      let (rest, removed) := removeIds (tasks.delete id) ids
      (rest, id :: removed)
    else removeIds tasks ids

def removeTasks (ids : List String) : CronManager :=
  let (tasks, removed) := removeIds s.tasks ids
  removed.foldl (fun s id => s.persistEnqueue id none) { s with tasks }

def advanceCursor (id : String) (lastFiredAt : ℤ) : CronManager :=
  match s.tasks.get id with
  | none => s
  | some existing =>
    let updated := { existing with lastFiredAt := some lastFiredAt }
    persistEnqueue { s with tasks := s.tasks.set id updated } id (some updated.file)

/-- The directory after a job: it is what it was made to be, or anything if the job has failed
with it.  An id that is none makes the job fail before. -/
def afterJob (job : QueuedJob String (Option CronFile)) (ok : Bool) (left : Option CronFile) :
    Option (String → Option CronFile) :=
  match fileFor job.key with
  | some name => some (Function.update s.files name (if ok then job.work else left))
  | none => if ok then none else some s.files

def fileOf (id : String) : Option CronFile := (fileFor id).bind s.files

def read (id : String) : Option StoredCronTask := (s.fileOf id).bind CronFile.task?

/-- `list`, of the entries in the order in which `readdir` gives them. -/
def list (entries : List String) : List StoredCronTask :=
  entries.filterMap fun entry => (idOfEntry entry).bind s.read

def adopt (tasks : OrderedMap String StoredCronTask) (task : StoredCronTask) :
    OrderedMap String StoredCronTask := tasks.set task.id task

def loadFromDisk (entries : List String) : CronManager :=
  { s with tasks := (s.list entries).foldl adopt ∅ }

end CronManager

inductive CronStep
  | addTask (init : SessionCronTaskInit) (drawn : List String) (nowMs : ℤ)
  | removeTasks (ids : List String)
  | advanceCursor (id : String) (lastFiredAt : ℤ)
  /-- The job begins: the one before it has settled. -/
  | start (job : ℕ)
  /-- The job has done its work, or has failed and left something. -/
  | finish (job : ℕ) (ok : Bool) (left : Option CronFile)
  /-- The job settles. -/
  | leave (job : ℕ)
  /-- An entry that is no file of a task, such as the temporary file of a write. -/
  | stray (entry : String) (content : Option CronFile)

/-- The step sets the cursor of the task or removes it. -/
def CronStep.Touches (a : CronStep) (id : String) : Prop :=
  match a with
  | advanceCursor id' _ => id' = id
  | removeTasks ids => id ∈ ids
  | _ => False

namespace CronManager

def step (s : CronManager) : CronStep → Option CronManager
  | .addTask init drawn nowMs => some (s.addTask init drawn nowMs)
  | .removeTasks ids => some (s.removeTasks ids)
  | .advanceCursor id lastFiredAt => some (s.advanceCursor id lastFiredAt)
  | .start j => (s.persistQueues.start j).map fun q => { s with persistQueues := q }
  | .finish j ok left =>
    match s.persistQueues.jobs[j]?, s.persistQueues.finish j ok with
    | some job, some q => (s.afterJob job ok left).map fun files =>
        { s with files, persistQueues := q }
    | _, _ => none
  | .leave j => (s.persistQueues.leave j).map fun q => { s with persistQueues := q }
  | .stray entry content =>
    if idOfEntry entry = none then some { s with files := Function.update s.files entry content }
    else none

end CronManager

/-! ## What is written is read -/

theorem StoredCronTask.task?_file {task : StoredCronTask} (isId : isCronId task.id = true) :
    task.file.task? = some task := by
  obtain ⟨⟨id, cron, createdAt, recurring, lastFiredAt⟩, prompt⟩ := task
  dsimp only at isId
  rw [file, CronFile.task?, CronRecord.task?]
  dsimp only
  rw [if_pos isId]
  cases recurring <;> cases lastFiredAt <;> rfl

variable {id : String}

theorem fileFor_eq_some {name : String} :
    fileFor id = some name ↔ isCronId id = true ∧ id ++ ".json" = name := by
  rw [fileFor]
  by_cases isId : isCronId id = true
  · rw [if_pos isId, Option.some_inj]
    exact ⟨fun same => ⟨isId, same⟩, And.right⟩
  · rw [if_neg isId]
    exact ⟨nofun, fun both => absurd both.1 isId⟩

theorem idOfEntry_eq_some {entry : String} :
    idOfEntry entry = some id ↔ fileFor id = some entry := by
  rw [fileFor_eq_some, idOfEntry]
  constructor
  · intro found
    split at found
    case isTrue ending =>
      obtain ⟨before, whole⟩ := ending
      have taken : entry.toList.take (entry.toList.length - ".json".length) = before := by
        rw [← whole, List.length_append]
        exact List.take_left' (Nat.add_sub_cancel _ _).symm
      rw [taken] at found
      dsimp only at found
      split at found
      case isTrue isId =>
        cases found
        refine ⟨isId, String.toList_inj.1 ?_⟩
        rw [String.toList_append, String.toList_ofList, whole]
      case isFalse => cases found
    case isFalse => cases found
  · rintro ⟨isId, rfl⟩
    have taken : (id ++ ".json").toList.take ((id ++ ".json").toList.length - ".json".length) =
        id.toList := by
      rw [String.toList_append, List.length_append]
      exact List.take_left' (Nat.add_sub_cancel _ _).symm
    have ending : ".json".toList <:+ (id ++ ".json").toList := by
      rw [String.toList_append]
      exact List.suffix_append _ _
    rw [if_pos ending, taken, String.ofList_toList]
    exact if_pos isId

theorem fileFor_inj {id' name : String} (file : fileFor id = some name)
    (file' : fileFor id' = some name) : id = id' := by
  rw [← idOfEntry_eq_some] at file file'
  exact Option.some.inj (file.symm.trans file')

namespace CronManager

variable {s t : CronManager}

/-- The file that a task is to have. -/
def wanted (s : CronManager) (id : String) : Option CronFile :=
  (s.tasks.get id).map StoredCronTask.file

theorem fileOf_afterJob {job : QueuedJob String (Option CronFile)} {ok : Bool}
    {left : Option CronFile} {files : String → Option CronFile}
    (after : s.afterJob job ok left = some files) (q : KeyedQueues String (Option CronFile)) :
    (∀ id, id ≠ job.key →
      fileOf { s with files, persistQueues := q } id = s.fileOf id) ∧
    (ok = true → fileOf { s with files, persistQueues := q } job.key = job.work) := by
  unfold afterJob at after
  cases file : fileFor job.key with
  | none =>
    rw [file] at after
    cases ok with
    | true => cases after
    | false =>
      cases after
      exact ⟨fun _ _ => rfl, nofun⟩
  | some =>
    rw [file] at after
    cases after
    refine ⟨fun id ne => ?_, ?_⟩
    · rw [fileOf, fileOf]
      cases file' : fileFor id with
      | none => rfl
      | some =>
        refine Function.update_of_ne (fun same => ne ?_) _ _
        exact fileFor_inj file' (same ▸ file)
    · rintro rfl
      rw [fileOf, file]
      exact Function.update_self _ _ _

theorem fileOf_stray {entry : String} (stray : idOfEntry entry = none)
    (content : Option CronFile) :
    fileOf { s with files := Function.update s.files entry content } = s.fileOf := by
  funext id
  rw [fileOf, fileOf]
  cases file : fileFor id with
  | none => rfl
  | some =>
    refine Function.update_of_ne ?_ _ _
    rintro rfl
    rw [idOfEntry_eq_some.2 file] at stray
    cases stray

/-! ## The changes of the store -/

variable {id : String} {task : StoredCronTask}

theorem wanted_set {q : KeyedQueues String (Option CronFile)} :
    wanted { s with tasks := s.tasks.set id task, persistQueues := q } =
      Function.update s.wanted id (some task.file) := by
  funext id'
  rw [wanted]
  by_cases same : id' = id
  · rw [same, OrderedMap.get_set_self, Function.update_self]
    rfl
  · rw [OrderedMap.get_set_ne _ _ same, Function.update_of_ne same]
    rfl

theorem generateUniqueId_spec {tasks : OrderedMap String StoredCronTask} {drawn : List String}
    (found : generateUniqueId tasks drawn = some id) :
    tasks.get id = none := by
  have chosen := List.find?_some found
  rw [Bool.and_eq_true, Option.isNone_iff_eq_none] at chosen
  exact chosen.2

theorem get_removeIds (id : String) :
    ∀ (ids : List String) (tasks : OrderedMap String StoredCronTask),
      (removeIds tasks ids).1.get id =
        if id ∈ (removeIds tasks ids).2 then none else tasks.get id
  | [], _ => rfl
  | head :: ids, tasks => by
    rw [removeIds]
    split
    case isTrue =>
      rw [get_removeIds id ids]
      by_cases same : id = head
      · rw [same, OrderedMap.get_delete_self, ite_self, if_pos List.mem_cons_self]
      · rw [OrderedMap.get_delete_ne _ same]
        simp only [List.mem_cons, same, false_or]
    case isFalse => exact get_removeIds id ids tasks

theorem mem_of_mem_removeIds :
    ∀ {ids : List String} {tasks : OrderedMap String StoredCronTask},
      id ∈ (removeIds tasks ids).2 → id ∈ ids
  | [], _, inside => inside
  | head :: ids, tasks, inside => by
    rw [removeIds] at inside
    split at inside
    case isTrue =>
      rcases List.mem_cons.1 inside with rfl | inside
      · exact List.mem_cons_self
      · exact List.mem_cons_of_mem _ (mem_of_mem_removeIds inside)
    case isFalse => exact List.mem_cons_of_mem _ (mem_of_mem_removeIds inside)

theorem foldl_persistEnqueue :
    ∀ (removed : List String) (s : CronManager),
      let t := removed.foldl (fun s id => s.persistEnqueue id none) s
      t.tasks = s.tasks ∧ t.files = s.files
  | [], _ => ⟨rfl, rfl⟩
  | head :: removed, s => foldl_persistEnqueue removed (s.persistEnqueue head none)

theorem removeTasks_tasks (s : CronManager) (ids : List String) :
    (s.removeTasks ids).tasks = (removeIds s.tasks ids).1 :=
  (foldl_persistEnqueue _ _).1

theorem removeTasks_fileOf (s : CronManager) (ids : List String) :
    (s.removeTasks ids).fileOf = s.fileOf := by
  funext id
  exact congrArg (fileFor id).bind (foldl_persistEnqueue _ _).2

theorem chained_foldl {cell goal : String → Option CronFile} :
    ∀ (removed : List String) (s : CronManager), s.persistQueues.Chained →
      s.persistQueues.Follows cell goal →
      let t := removed.foldl (fun s id => s.persistEnqueue id none) s
      t.persistQueues.Chained ∧
        t.persistQueues.Follows cell fun id => if id ∈ removed then none else goal id
  | [], _, chained, follows => ⟨chained, follows⟩
  | head :: removed, s, chained, follows => by
    obtain ⟨chained', follows'⟩ :=
      chained_foldl removed (s.persistEnqueue head none) (chained.enqueue head none)
        (follows.enqueue head none)
    refine ⟨chained', ?_⟩
    have same : (fun id => if id ∈ removed then none else Function.update goal head none id) =
        fun id => if id ∈ head :: removed then none else goal id := by
      funext id
      by_cases isHead : id = head
      · rw [isHead, Function.update_self, ite_self, if_pos List.mem_cons_self]
      · rw [Function.update_of_ne isHead]
        simp only [List.mem_cons, isHead, false_or]
    rw [← same]
    exact follows'

/-! ## The files follow the store -/

structure Mirrored (s : CronManager) : Prop where
  chained : s.persistQueues.Chained
  follows : s.persistQueues.Follows s.fileOf s.wanted
  owned : ∀ id task, s.tasks.get id = some task → task.id = id

theorem owned_set (isId : task.id = id)
    (owned : ∀ id task, s.tasks.get id = some task → task.id = id) (id' : String)
    (task' : StoredCronTask) (found : (s.tasks.set id task).get id' = some task') :
    task'.id = id' := by
  by_cases same : id' = id
  · rw [same, OrderedMap.get_set_self] at found
    rw [← Option.some.inj found, isId, same]
  · rw [OrderedMap.get_set_ne _ _ same] at found
    exact owned id' task' found

theorem Mirrored.put (mirrored : s.Mirrored) (isId : task.id = id) :
    (persistEnqueue { s with tasks := s.tasks.set id task } id (some task.file)).Mirrored where
  chained := mirrored.chained.enqueue id _
  follows := by
    rw [persistEnqueue, wanted_set]
    exact mirrored.follows.enqueue id _
  owned := owned_set isId mirrored.owned

theorem Mirrored.addTask (mirrored : s.Mirrored) (init : SessionCronTaskInit)
    (drawn : List String) (nowMs : ℤ) :
    (s.addTask init drawn nowMs).Mirrored := by
  unfold CronManager.addTask
  split
  · exact mirrored
  · exact mirrored.put rfl

theorem Mirrored.advanceCursor (mirrored : s.Mirrored) (id : String) (lastFiredAt : ℤ) :
    (s.advanceCursor id lastFiredAt).Mirrored := by
  unfold CronManager.advanceCursor
  split
  · exact mirrored
  case h_2 existing found => exact mirrored.put (mirrored.owned id existing found)

theorem Mirrored.removeTasks (mirrored : s.Mirrored) (ids : List String) :
    (s.removeTasks ids).Mirrored := by
  obtain ⟨chained, follows⟩ :=
    chained_foldl (removeIds s.tasks ids).2 { s with tasks := (removeIds s.tasks ids).1 }
      mirrored.chained mirrored.follows
  have isWanted : (s.removeTasks ids).wanted =
      fun id => if id ∈ (removeIds s.tasks ids).2 then none else s.wanted id := by
    funext id
    rw [wanted, removeTasks_tasks, get_removeIds, apply_ite (Option.map StoredCronTask.file)]
    rfl
  refine ⟨chained, ?_, fun id task found => mirrored.owned id task ?_⟩
  · rw [removeTasks_fileOf, isWanted]
    exact follows
  · rw [removeTasks_tasks, get_removeIds] at found
    split at found
    · cases found
    · exact found

theorem Mirrored.step (mirrored : s.Mirrored) {a : CronStep} (next : s.step a = some t) :
    t.Mirrored := by
  cases a with
  | addTask init drawn nowMs =>
    cases next
    exact mirrored.addTask init drawn nowMs
  | removeTasks ids =>
    cases next
    exact mirrored.removeTasks ids
  | advanceCursor id lastFiredAt =>
    cases next
    exact mirrored.advanceCursor id lastFiredAt
  | start =>
    obtain ⟨q, started, rfl⟩ := Option.map_eq_some_iff.1 next
    exact ⟨mirrored.chained.start started, mirrored.follows.start started, mirrored.owned⟩
  | finish =>
    dsimp only [CronManager.step] at next
    split at next
    case h_1 job q here finished =>
      obtain ⟨files, after, rfl⟩ := Option.map_eq_some_iff.1 next
      obtain ⟨others, mine⟩ := fileOf_afterJob after q
      exact ⟨mirrored.chained.finish finished,
        mirrored.follows.finish mirrored.chained finished here others mine, mirrored.owned⟩
    case h_2 => cases next
  | leave =>
    obtain ⟨q, left, rfl⟩ := Option.map_eq_some_iff.1 next
    exact ⟨mirrored.chained.leave left, mirrored.follows.leave left, mirrored.owned⟩
  | stray =>
    dsimp only [CronManager.step] at next
    split at next
    case isTrue stray =>
      cases next
      refine ⟨mirrored.chained, ?_, mirrored.owned⟩
      rw [fileOf_stray stray]
      exact mirrored.follows
    case isFalse => cases next

/-- Nothing is queued, and the directory has a file for each task of the store and for no other
id. -/
structure Synced (s : CronManager) : Prop where
  idle : s.persistQueues = {}
  same : s.fileOf = s.wanted
  owned : ∀ id task, s.tasks.get id = some task → task.id = id

theorem synced_empty : Synced {} := by
  refine ⟨rfl, ?_, fun _ _ => nofun⟩
  funext id
  rw [fileOf]
  cases fileFor id <;> rfl

theorem Synced.mirrored (synced : s.Synced) : s.Mirrored where
  chained := by
    rw [synced.idle]
    exact KeyedQueues.chained_empty
  follows := by
    rw [synced.idle]
    exact KeyedQueues.follows_empty synced.same
  owned := synced.owned

/-! ## Loading -/

/-- The entries that `readdir` gives. -/
def Lists (s : CronManager) (entries : List String) : Prop :=
  ∀ entry, entry ∈ entries ↔ (s.files entry).isSome = true

theorem get_foldl_adopt (known : String → Option StoredCronTask) (id : String) :
    ∀ (loaded : List StoredCronTask) (tasks : OrderedMap String StoredCronTask),
      (∀ task ∈ loaded, known task.id = some task) →
      (loaded.foldl adopt tasks).get id =
        if id ∈ loaded.map (·.id) then known id else tasks.get id
  | [], _, _ => rfl
  | task :: loaded, tasks, isKnown => by
    rw [List.foldl_cons, get_foldl_adopt known id loaded _ fun task inside =>
      isKnown task (List.mem_cons_of_mem _ inside), adopt]
    by_cases same : id = task.id
    · rw [same, OrderedMap.get_set_self, ← isKnown task List.mem_cons_self, ite_self, List.map_cons,
        if_pos List.mem_cons_self]
    · rw [OrderedMap.get_set_ne _ _ same]
      simp only [List.map_cons, List.mem_cons, same, false_or]

theorem get_loadFromDisk {fresh : CronManager} (same : fresh.fileOf = s.wanted)
    (owned : ∀ id task, s.tasks.get id = some task → task.id = id) {entries : List String}
    (lists : fresh.Lists entries) (id : String) :
    (fresh.loadFromDisk entries).tasks.get id = s.tasks.get id := by
  have isRead (id : String) : fresh.read id = s.tasks.get id := by
    rw [read, same, wanted]
    cases found : s.tasks.get id with
    | none => rfl
    | some task =>
      have isId : isCronId task.id = true := by
        have file : fresh.fileOf id = some task.file := by rw [same, wanted, found]; rfl
        obtain ⟨name, file, -⟩ := Option.bind_eq_some_iff.1 file
        rw [owned id task found]
        exact (fileFor_eq_some.1 file).1
      exact StoredCronTask.task?_file isId
  have loaded (task : StoredCronTask) : task ∈ fresh.list entries ↔
      ∃ entry ∈ entries, ∃ id, idOfEntry entry = some id ∧ s.tasks.get id = some task := by
    simp only [CronManager.list, List.mem_filterMap, Option.bind_eq_some_iff, isRead]
  rw [loadFromDisk]
  rw [get_foldl_adopt s.tasks.get id _ _ fun task inside => ?_]
  · split
    case isTrue => rfl
    case isFalse absent =>
      rw [OrderedMap.get_empty]
      cases found : s.tasks.get id with
      | none => rfl
      | some task =>
        have file : fresh.fileOf id = some task.file := by rw [same, wanted, found]; rfl
        obtain ⟨name, isFile, content⟩ := Option.bind_eq_some_iff.1 file
        refine absurd (List.mem_map.2 ⟨task, (loaded task).2 ⟨name, ?_, id, ?_, found⟩, ?_⟩) absent
        · rw [lists, content]
          rfl
        · exact idOfEntry_eq_some.2 isFile
        · exact owned id task found
  · obtain ⟨-, -, id', -, found⟩ := (loaded task).1 inside
    rw [owned id' task found, found]

/-! ## The last cursor -/

theorem get_step {a : CronStep} (found : s.tasks.get id = some task) (untouched : ¬ a.Touches id)
    (next : s.step a = some t) :
    t.tasks.get id = some task := by
  cases a with
  | addTask =>
    cases next
    unfold addTask
    split
    · exact found
    case h_2 new chosen =>
      refine (OrderedMap.get_set_ne _ _ ?_).trans found
      rintro rfl
      rw [generateUniqueId_spec chosen] at found
      cases found
  | removeTasks =>
    cases next
    rw [removeTasks_tasks, get_removeIds, if_neg fun inside => untouched ?_]
    · exact found
    · exact mem_of_mem_removeIds inside
  | advanceCursor =>
    cases next
    unfold advanceCursor
    split
    · exact found
    · exact (OrderedMap.get_set_ne _ _ fun same => untouched same.symm).trans found
  | start | leave =>
    obtain ⟨q, -, rfl⟩ := Option.map_eq_some_iff.1 next
    exact found
  | finish =>
    dsimp only [CronManager.step] at next
    split at next
    case h_1 job q here finished =>
      obtain ⟨files, -, rfl⟩ := Option.map_eq_some_iff.1 next
      exact found
    case h_2 => cases next
  | stray =>
    dsimp only [CronManager.step] at next
    split at next
    case isTrue =>
      cases next
      exact found
    case isFalse => cases next

open Transition

theorem latest_cursor {s₀ s₁ : CronManager} {as bs : List CronStep} {lastFiredAt : ℤ}
    (before : Run step Always s₀ as s₁) (present : (s₁.tasks.get id).isSome)
    (run : Run step Always s₀ (as ++ .advanceCursor id lastFiredAt :: bs) s)
    (untouched : ∀ a ∈ bs, ¬ a.Touches id) :
    ∃ task, s.tasks.get id = some task ∧ task.lastFiredAt = some lastFiredAt := by
  induction bs using List.reverseRecOn generalizing s with
  | nil =>
    obtain ⟨s', before', -, next⟩ := run.last
    obtain rfl := before.unique before'
    cases next
    obtain ⟨task, found⟩ := Option.isSome_iff_exists.1 present
    refine ⟨{ task with lastFiredAt := some lastFiredAt }, ?_, rfl⟩
    rw [advanceCursor, found]
    exact OrderedMap.get_set_self _ _ _
  | append_singleton bs b ih =>
    rw [← List.cons_append, ← List.append_assoc] at run
    obtain ⟨s', before', -, next⟩ := run.last
    obtain ⟨task, found, cursor⟩ := ih before' fun a inside =>
      untouched a (List.mem_append_left _ inside)
    exact ⟨task, get_step found (untouched b List.mem_concat_self) next, cursor⟩

/-- The jobs of an id run one at a time in their order.  When the last one of every id has
succeeded, the files are those of the tasks in the store, whose cursors are the last ones, and
any manager that loads these files has the tasks. -/
theorem persistence_converges {s₀ s : CronManager} {steps : List CronStep} (synced : s₀.Synced)
    (run : Run step Always s₀ steps s) :
    (∀ (i j : ℕ) (a b : QueuedJob String (Option CronFile)),
      s.persistQueues.jobs[i]? = some a → s.persistQueues.jobs[j]? = some b → a.key = b.key →
        i < j → b.stage ≠ .queued → a.stage.isSettled = true) ∧
    ((∀ (j : ℕ) (b : QueuedJob String (Option CronFile)), s.persistQueues.IsLast j b →
        b.stage = .settled true) →
      (∀ id, s.fileOf id = (s.tasks.get id).map StoredCronTask.file) ∧
      (∀ id, s.persistQueues.tails id = none) ∧
      ∀ fresh : CronManager, fresh.files = s.files → ∀ entries, fresh.Lists entries →
        ∀ id, (fresh.loadFromDisk entries).tasks.get id = s.tasks.get id) ∧
    ∀ (as bs : List CronStep) (id : String) (lastFiredAt : ℤ) (s₁ : CronManager),
      steps = as ++ .advanceCursor id lastFiredAt :: bs → Run step Always s₀ as s₁ →
      (s₁.tasks.get id).isSome → (∀ a ∈ bs, ¬ a.Touches id) →
      ∃ task, s.tasks.get id = some task ∧ task.lastFiredAt = some lastFiredAt := by
  have mirrored : s.Mirrored :=
    run.invariant Mirrored synced.mirrored fun _ _ _ mirrored _ next => mirrored.step next
  refine ⟨fun i j a b first second key lt =>
    mirrored.chained.settled_of_started first second key lt, fun succeeded => ?_, ?_⟩
  · have same : s.fileOf = s.wanted := mirrored.follows.converged succeeded
    have shared {fresh : CronManager} (files : fresh.files = s.files) :
        fresh.fileOf = s.wanted := by
      rw [← same]
      funext id
      rw [fileOf, fileOf, files]
    refine ⟨congrFun same, fun id => ?_, fun fresh files entries lists =>
      get_loadFromDisk (shared files) mirrored.owned lists⟩
    cases tail : s.persistQueues.tails id with
    | none => rfl
    | some t =>
      obtain ⟨job, here, rfl, unsettled, last⟩ := mirrored.chained.tail id t tail
      rw [succeeded t job ⟨here, last⟩] at unsettled
      cases unsettled
  · rintro as bs id lastFiredAt s₁ rfl before present untouched
    exact latest_cursor before present run untouched

def hourly : SessionCronTaskInit where
  cron := "0 * * * *"
  prompt := "look"

/-- The first write fails, and the cursor is written after it. -/
def cursorAfterFailure : List CronStep :=
  [.addTask hourly ["deadbeef"] 0, .start 0, .advanceCursor "deadbeef" 5, .finish 0 false none,
    .leave 0, .start 1, .finish 1 true none, .leave 1]

theorem persistence_converges_cursor :
    ∃ s, exec step {} cursorAfterFailure = some s ∧
      ∀ entries, Lists { files := s.files } entries →
        ∀ id, (loadFromDisk { files := s.files } entries).tasks.get id = s.tasks.get id := by
  have run : Run step Always {} cursorAfterFailure _ := .of_exec rfl
  refine ⟨_, rfl, ((persistence_converges synced_empty run).2.1 fun j b last => ?_).2.2 _ rfl⟩
  obtain ⟨here, isLast⟩ := last
  match j, here with
  | 0, here =>
    cases here
    exact absurd (isLast 1 _ rfl rfl) (Nat.not_succ_le_zero 0)
  | 1, here =>
    cases here
    rfl

end CronManager

end KimiCli
