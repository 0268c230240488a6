import KimiCli.Lib.Run
import Mathlib.Logic.Function.Basic

/-!
# The server lock

The lock file of `server/src/lock.ts` under any number of processes.  Each call is cut at its file
operations; a file is known by its inode, since an open file is written to whatever its name.
-/

namespace KimiCli

structure LockContents where
  pid : ℕ
  startedAt : String
  host : Option String := none
  port : ℕ
  hostVersion : Option String := none
  entry : Option String := none
  deriving DecidableEq

/-- The file operation of a process that comes next. -/
inductive LockPhase
  | idle
  /-- `acquireLock` before its first exclusive create. -/
  | creating (contents : LockContents)
  | writing (inode : ℕ) (contents : LockContents)
  | inspecting (contents : LockContents)
  | probing (contents : LockContents) (existing : LockContents)
  | unlinking (contents : LockContents)
  /-- Before its second exclusive create. -/
  | recreating (contents : LockContents)
  | releaseChecking
  | releaseReading
  | releaseUnlinking
  | portChecking (port : ℕ)
  | portReading (port : ℕ)
  /-- `updatePort` before it opens the file, which truncates it. -/
  | portOpening (contents : LockContents)
  | portWriting (inode : ℕ) (contents : LockContents)
  deriving DecidableEq

structure LockProcess where
  alive : Bool := true
  phase : LockPhase := .idle
  /-- The locks that were acquired and are not released. -/
  holds : ℕ := 0

structure LockWorld where
  process : ℕ → LockProcess
  /-- The file at the lock path. -/
  path : Option ℕ := none
  inodes : ℕ := 0
  /-- What `readLockContents` makes of a file: `none` if it cannot be parsed. -/
  content : ℕ → Option LockContents := fun _ => none

inductive LockStep
  | acquireLock (pid : ℕ) (contents : LockContents)
  | release (pid : ℕ)
  | updatePort (pid : ℕ) (port : ℕ)
  /-- The process goes on with its next file operation. -/
  | proceed (pid : ℕ)
  | die (pid : ℕ)

def LockStep.pid : LockStep → ℕ
  | .acquireLock pid _ | .release pid | .updatePort pid _ | .proceed pid | .die pid => pid

namespace LockWorld

variable (w : LockWorld) (pid : ℕ)

def setProcess (process : LockProcess) : LockWorld :=
  { w with process := Function.update w.process pid process }

def setPhase (phase : LockPhase) : LockWorld :=
  w.setProcess pid { w.process pid with phase }

/-- `readLockContents(lockPath)`. -/
def readLockContents : Option LockContents := w.path.bind w.content

/-- `openSync(path, 'wx')` of `tryExclusiveCreate`; it fails when there is a file. -/
def exclusiveCreate (contents : LockContents) (taken : LockPhase) : LockWorld :=
  match w.path with
  | some _ => w.setPhase pid taken
  | none =>
    { w.setPhase pid (.writing w.inodes contents) with
      path := some w.inodes
      inodes := w.inodes + 1
      content := Function.update w.content w.inodes none }

def write (inode : ℕ) (contents : LockContents) : LockWorld :=
  { w with content := Function.update w.content inode (some contents) }

/-- The end of `release`. -/
def released : LockWorld :=
  w.setProcess pid { w.process pid with phase := .idle, holds := (w.process pid).holds - 1 }

def proceed : LockWorld :=
  match (w.process pid).phase with
  | .idle => w
  | .creating contents => w.exclusiveCreate pid contents (.inspecting contents)
  | .writing inode contents =>
    (w.write inode contents).setProcess pid
      { w.process pid with phase := .idle, holds := (w.process pid).holds + 1 }
  | .inspecting contents =>
    match w.readLockContents with
    | none => w.setPhase pid (.unlinking contents)
    | some existing => w.setPhase pid (.probing contents existing)
  | .probing contents existing =>
    -- `ServerLockedError` when the owner is alive
    w.setPhase pid (if (w.process existing.pid).alive then .idle else .unlinking contents)
  | .unlinking contents => { w.setPhase pid (.recreating contents) with path := none }
  | .recreating contents => w.exclusiveCreate pid contents .idle
  | .releaseChecking =>
    if w.path = none then w.released pid else w.setPhase pid .releaseReading
  | .releaseReading =>
    if w.readLockContents.any (·.pid ≠ pid) then w.released pid
    else w.setPhase pid .releaseUnlinking
  | .releaseUnlinking => { w.released pid with path := none }
  | .portChecking port => w.setPhase pid (if w.path = none then .idle else .portReading port)
  | .portReading port =>
    match w.readLockContents with
    | none => w.setPhase pid .idle
    | some contents =>
      w.setPhase pid (if contents.pid ≠ pid ∨ contents.port = port then .idle
        else .portOpening { contents with port })
  | .portOpening contents =>
    match w.path with
    | some inode =>
      { w.setPhase pid (.portWriting inode contents) with
        content := Function.update w.content inode none }
    | none =>
      { w.setPhase pid (.portWriting w.inodes contents) with
        path := some w.inodes
        inodes := w.inodes + 1
        content := Function.update w.content w.inodes none }
  | .portWriting inode contents => (w.write inode contents).setPhase pid .idle

def step (w : LockWorld) (label : LockStep) : Option LockWorld :=
  let process := w.process label.pid
  if process.alive = false then none
  else
    match label with
    | .acquireLock pid contents =>
      if process.phase = .idle then some (w.setPhase pid (.creating { contents with pid }))
      else none
    | .release pid =>
      if process.phase = .idle ∧ 0 < process.holds then some (w.setPhase pid .releaseChecking)
      else none
    | .updatePort pid port =>
      if process.phase = .idle then some (w.setPhase pid (.portChecking port)) else none
    | .proceed pid => if process.phase = .idle then none else some (w.proceed pid)
    | .die pid => some (w.setProcess pid { process with alive := false })

/-- No process holds the lock, and what is left of it is of a dead one. -/
structure Initial : Prop where
  idle : ∀ pid, (w.process pid).phase = .idle ∧ (w.process pid).holds = 0
  stale : ∀ contents, w.readLockContents = some contents → (w.process contents.pid).alive = false

end LockWorld

/-! ## Ordered take-overs -/

/-- The file that the process has opened and not written yet. -/
def LockPhase.opened : LockPhase → Option ℕ
  | .writing inode _ | .portWriting inode _ => some inode
  | _ => none

/-- The process has read the lock file in `acquireLock` and has neither given up nor unlinked it. -/
def LockPhase.takesOver : LockPhase → Bool
  | .probing .. | .unlinking _ => true
  | _ => false

/-- The process does not unlink the file of this owner. -/
def LockPhase.Safe (owner : ℕ) : LockPhase → Prop
  | .unlinking _ => False
  | .probing _ existing => existing.pid = owner
  | _ => True

/-- What a process knows of itself in its phase. -/
def LockProcess.Local (process : LockProcess) (pid : ℕ) : Prop :=
  process.holds ≤ 1 ∧
    match process.phase with
    | .idle | .portChecking _ | .portReading _ => True
    | .creating contents | .inspecting contents | .probing contents _ | .unlinking contents
    | .recreating contents => contents.pid = pid
    | .writing _ contents => contents.pid = pid ∧ process.holds = 0
    | .releaseChecking | .releaseReading | .releaseUnlinking => 0 < process.holds
    | .portOpening contents | .portWriting _ contents => contents.pid = pid ∧ 0 < process.holds

namespace LockWorld

/-- No live process has opened the lock file and not written it yet. -/
def Written (w : LockWorld) : Prop :=
  ∀ inode, w.path = some inode → ∀ pid, (w.process pid).alive = true →
    (w.process pid).phase.opened ≠ some inode

/-- `acquireLock` reads a written file, and creates the file only while no other live process is
between its read and its unlink. -/
def Ordered (w : LockWorld) : LockStep → Prop
  | .proceed pid =>
    match (w.process pid).phase with
    | .inspecting _ => w.Written
    | .creating _ | .recreating _ => w.path = none → ∀ other, other ≠ pid →
        (w.process other).alive = true → (w.process other).phase.takesOver = false
    | _ => True
  | _ => True

/-! ## The invariant -/

/-- The process has created the lock file, or holds the lock. -/
def Owner (w : LockWorld) (pid : ℕ) : Prop :=
  (w.process pid).alive = true ∧
    (0 < (w.process pid).holds ∨ ∃ inode contents, (w.process pid).phase = .writing inode contents)

/-- The file of an owner is at the lock path, and every other process will find it alive. -/
structure Owned (w : LockWorld) (owner inode : ℕ) : Prop where
  owns : w.Owner owner
  only : ∀ pid, w.Owner pid → pid = owner
  path : w.path = some inode
  file : match (w.process owner).phase.opened with
    | some opened => opened = inode ∧ w.content inode = none
    | none => ∃ contents, w.content inode = some contents ∧ contents.pid = owner
  safe : ∀ pid, (w.process pid).alive = true → (w.process pid).phase.Safe owner

/-- There is no owner, and what is left of one is of a dead one. -/
structure Free (w : LockWorld) : Prop where
  none : ∀ pid, ¬ w.Owner pid
  stale : ∀ contents, w.readLockContents = some contents →
    (w.process contents.pid).alive = false

structure Inv (w : LockWorld) : Prop where
  processes : ∀ pid, (w.process pid).alive = true → (w.process pid).Local pid
  state : w.Free ∨ ∃ owner inode, w.Owned owner inode

variable {w w' : LockWorld} {pid other owner inode : ℕ} {phase : LockPhase}
  {contents : LockContents}

@[simp]
theorem process_setProcess (process : LockProcess) :
    (w.setProcess pid process).process pid = process :=
  Function.update_self ..

theorem process_setProcess_ne (ne : other ≠ pid) (process : LockProcess) :
    (w.setProcess pid process).process other = w.process other :=
  Function.update_of_ne ne ..

variable {process : LockProcess} {label : LockStep}

theorem alive_setProcess (alive : process.alive = (w.process pid).alive) :
    ((w.setProcess pid process).process other).alive = (w.process other).alive := by
  by_cases same : other = pid
  · subst same
    rw [process_setProcess, alive]
  · rw [process_setProcess_ne same]

theorem alive_setPhase (phase : LockPhase) :
    ((w.setPhase pid phase).process other).alive = (w.process other).alive :=
  alive_setProcess rfl

theorem Inv.locals (inv : w.Inv) (own : process.alive = true → process.Local pid) (other : ℕ)
    (alive : ((w.setProcess pid process).process other).alive = true) :
    ((w.setProcess pid process).process other).Local other := by
  by_cases same : other = pid
  · subst same
    rw [process_setProcess] at alive ⊢
    exact own alive
  · rw [process_setProcess_ne same] at alive ⊢
    exact inv.processes other alive

theorem owner_setPhase (old : (w.process pid).phase.opened = none) (new : phase.opened = none) :
    (w.setPhase pid phase).Owner other ↔ w.Owner other := by
  by_cases same : other = pid
  · subst same
    unfold setPhase Owner
    rw [process_setProcess]
    have unwritten {phase : LockPhase} (none : phase.opened = none) :
        ¬ ∃ inode contents, phase = .writing inode contents := by
      rintro ⟨inode, contents, rfl⟩
      cases none
    simp only [unwritten old, unwritten new]
  · unfold setPhase Owner
    rw [process_setProcess_ne same]

theorem Inv.setPhase (inv : w.Inv)
    (own : ({ w.process pid with phase } : LockProcess).Local pid)
    (old : (w.process pid).phase.opened = none) (new : phase.opened = none)
    (safe : ∀ owner inode, w.Owned owner inode → phase.Safe owner) :
    (w.setPhase pid phase).Inv := by
  refine ⟨inv.locals fun _ => own, ?_⟩
  have alive (q : ℕ) : ((w.setPhase pid phase).process q).alive = (w.process q).alive :=
    alive_setPhase phase
  rcases inv.state with free | ⟨owner, inode, owned⟩
  · refine .inl ⟨fun q is => free.none q ((owner_setPhase old new).1 is), fun contents read => ?_⟩
    rw [alive]
    exact free.stale contents read
  · refine .inr ⟨owner, inode, (owner_setPhase old new).2 owned.owns,
      fun q is => owned.only q ((owner_setPhase old new).1 is), owned.path, ?_, fun q is => ?_⟩
    · have opened : ((w.setPhase pid phase).process owner).phase.opened =
          (w.process owner).phase.opened := by
        unfold LockWorld.setPhase
        by_cases same : owner = pid
        · subst same
          rw [process_setProcess, old]
          exact new
        · rw [process_setProcess_ne same]
      rw [opened]
      exact owned.file
    · rw [alive] at is
      unfold LockWorld.setPhase
      by_cases same : q = pid
      · subst same
        rw [process_setProcess]
        exact safe owner inode owned
      · rw [process_setProcess_ne same]
        exact owned.safe q is

theorem owner_setProcess_ne (ne : other ≠ pid) :
    (w.setProcess pid process).Owner other ↔ w.Owner other := by
  rw [Owner, Owner, process_setProcess_ne ne]

theorem Inv.create {taken : LockPhase} (inv : w.Inv) (alive : (w.process pid).alive = true)
    (old : (w.process pid).phase.opened = none) (own : contents.pid = pid)
    (ordered : w.path = none → ∀ other, other ≠ pid → (w.process other).alive = true →
      (w.process other).phase.takesOver = false)
    (new : taken.opened = none) (safe : ∀ owner, taken.Safe owner)
    (own' : ({ w.process pid with phase := taken } : LockProcess).Local pid) :
    (w.exclusiveCreate pid contents taken).Inv := by
  unfold exclusiveCreate
  split
  · exact inv.setPhase own' old new fun owner _ _ => safe owner
  case h_2 missing =>
  have free : w.Free := by
    rcases inv.state with free | ⟨owner, inode, owned⟩
    · exact free
    · rw [owned.path] at missing
      cases missing
  have holds : (w.process pid).holds = 0 := by
    by_contra some
    exact free.none pid ⟨alive, .inl (Nat.pos_of_ne_zero some)⟩
  refine ⟨inv.locals fun _ => ⟨Nat.le_succ_of_le (Nat.le_of_eq holds), own, holds⟩,
    .inr ⟨pid, w.inodes, ⟨?_, .inr ⟨w.inodes, contents, ?_⟩⟩, fun q is => ?_, rfl, ?_,
      fun q is => ?_⟩⟩
  · exact (congrArg LockProcess.alive (process_setProcess _)).trans alive
  · exact congrArg LockProcess.phase (process_setProcess _)
  · by_contra ne
    exact free.none q ((owner_setProcess_ne ne).1 is)
  · rw [show LockProcess.phase _ = .writing w.inodes contents from
      congrArg LockProcess.phase (process_setProcess _)]
    exact ⟨rfl, Function.update_self ..⟩
  · by_cases same : q = pid
    · subst same
      rw [show LockProcess.phase _ = .writing w.inodes contents from
        congrArg LockProcess.phase (process_setProcess _)]
      trivial
    · have frame := process_setProcess_ne (w := w) same
        { w.process pid with phase := .writing w.inodes contents }
      have quiet := ordered missing q same ((congrArg LockProcess.alive frame).symm.trans is)
      change LockPhase.Safe pid (Function.update w.process pid _ q).phase
      rw [Function.update_of_ne same]
      cases phase : (w.process q).phase <;> simp_all [LockPhase.takesOver, LockPhase.Safe]

theorem Owned.update {content : ℕ → Option LockContents} (owned : w.Owned pid inode)
    (alive : process.alive = true)
    (owns : 0 < process.holds ∨ ∃ inode contents, process.phase = .writing inode contents)
    (file : match process.phase.opened with
      | some opened => opened = inode ∧ content inode = none
      | none => ∃ contents, content inode = some contents ∧ contents.pid = pid)
    (safe : process.phase.Safe pid) :
    ({ w.setProcess pid process with content } : LockWorld).Owned pid inode := by
  refine ⟨?_, fun q is => ?_, owned.path, ?_, fun q is => ?_⟩
  · rw [Owner, show LockWorld.process _ pid = process from process_setProcess _]
    exact ⟨alive, owns⟩
  · by_contra ne
    exact ne (owned.only q ((owner_setProcess_ne ne).1 is))
  · rw [show LockWorld.process _ pid = process from process_setProcess _]
    exact file
  · by_cases same : q = pid
    · subst same
      rw [show LockWorld.process _ q = process from process_setProcess _]
      exact safe
    · rw [show LockWorld.process _ q = w.process q from process_setProcess_ne same _] at is ⊢
      exact owned.safe q is

theorem Inv.owned (inv : w.Inv) (owner : w.Owner pid) : ∃ inode, w.Owned pid inode := by
  rcases inv.state with free | ⟨other, inode, owned⟩
  · exact absurd owner (free.none pid)
  · obtain rfl := owned.only pid owner
    exact ⟨inode, owned⟩

theorem Inv.writing (inv : w.Inv) (alive : (w.process pid).alive = true)
    (phase : (w.process pid).phase = .writing inode contents) : (w.proceed pid).Inv := by
  have own := inv.processes pid alive
  rw [LockProcess.Local, phase] at own
  obtain ⟨inode', owned⟩ := inv.owned ⟨alive, .inr ⟨inode, contents, phase⟩⟩
  have file := owned.file
  rw [phase] at file
  obtain ⟨rfl, -⟩ := file
  unfold LockWorld.proceed
  rw [phase]
  refine ⟨inv.locals fun _ => ⟨?_, trivial⟩, .inr ⟨pid, inode, ?_⟩⟩
  · exact Nat.le_of_eq (congrArg (· + 1) own.2.2)
  · exact owned.update alive (.inl (Nat.succ_pos _)) ⟨contents, Function.update_self .., own.2.1⟩
      trivial

theorem Inv.unlinking (inv : w.Inv) (alive : (w.process pid).alive = true)
    (phase : (w.process pid).phase = .unlinking contents) : (w.proceed pid).Inv := by
  have own := inv.processes pid alive
  rw [LockProcess.Local, phase] at own
  have free : w.Free := by
    rcases inv.state with free | ⟨owner, inode, owned⟩
    · exact free
    · have safe := owned.safe pid alive
      rw [phase] at safe
      exact safe.elim
  have old : (w.process pid).phase.opened = none := by
    rw [phase]
    rfl
  unfold LockWorld.proceed
  rw [phase]
  refine ⟨inv.locals fun _ => own, .inl ⟨fun q is => ?_, fun contents read => ?_⟩⟩
  · have same : (w.setPhase pid (.recreating contents)).Owner q ↔ w.Owner q :=
      owner_setPhase old rfl
    exact free.none q (same.1 is)
  · cases read

theorem Inv.releaseUnlinking (inv : w.Inv) (alive : (w.process pid).alive = true)
    (phase : (w.process pid).phase = .releaseUnlinking) : (w.proceed pid).Inv := by
  have own := inv.processes pid alive
  rw [LockProcess.Local, phase] at own
  obtain ⟨inode, owned⟩ := inv.owned ⟨alive, .inl own.2⟩
  have holds : (w.process pid).holds - 1 = 0 := Nat.sub_eq_zero_of_le own.1
  unfold LockWorld.proceed
  rw [phase]
  refine ⟨inv.locals fun _ => ⟨?_, trivial⟩, .inl ⟨fun q is => ?_, fun contents read => ?_⟩⟩
  · exact Nat.le_succ_of_le (Nat.le_of_eq holds)
  · by_cases same : q = pid
    · subst same
      have process : (w.released q).process q =
          { w.process q with phase := .idle, holds := (w.process q).holds - 1 } :=
        process_setProcess _
      rw [Owner, show LockWorld.process _ q = _ from process] at is
      rcases is.2 with some | ⟨_, _, no⟩
      · exact absurd holds (Nat.ne_of_gt some)
      · cases no
    · exact same (owned.only q ((owner_setProcess_ne same).1 is))
  · cases read

theorem Inv.portOpening (inv : w.Inv) (alive : (w.process pid).alive = true)
    (phase : (w.process pid).phase = .portOpening contents) : (w.proceed pid).Inv := by
  have own := inv.processes pid alive
  rw [LockProcess.Local, phase] at own
  obtain ⟨inode, owned⟩ := inv.owned ⟨alive, .inl own.2.2⟩
  unfold LockWorld.proceed
  rw [phase]
  rw [owned.path]
  refine ⟨inv.locals fun _ => own, .inr ⟨pid, inode, ?_⟩⟩
  exact owned.update alive (.inl own.2.2) ⟨rfl, Function.update_self ..⟩ trivial

theorem Inv.portWriting (inv : w.Inv) (alive : (w.process pid).alive = true)
    (phase : (w.process pid).phase = .portWriting inode contents) : (w.proceed pid).Inv := by
  have own := inv.processes pid alive
  rw [LockProcess.Local, phase] at own
  obtain ⟨inode', owned⟩ := inv.owned ⟨alive, .inl own.2.2⟩
  have file := owned.file
  rw [phase] at file
  obtain ⟨rfl, -⟩ := file
  unfold LockWorld.proceed
  rw [phase]
  refine ⟨inv.locals fun _ => ⟨own.1, trivial⟩, .inr ⟨pid, inode, ?_⟩⟩
  exact owned.update alive (.inl own.2.2) ⟨contents, Function.update_self .., own.2.1⟩ trivial

theorem Owned.read (owned : w.Owned owner inode) (written : w.Written) :
    ∃ contents, w.readLockContents = some contents ∧ contents.pid = owner := by
  have file := owned.file
  split at file
  case h_1 opened eq =>
    obtain ⟨rfl, -⟩ := file
    exact absurd eq (written opened owned.path owner owned.owns.1)
  case h_2 =>
    obtain ⟨contents, eq, own⟩ := file
    exact ⟨contents, by rw [readLockContents, owned.path, Option.bind_some, eq], own⟩

theorem Inv.inspecting (inv : w.Inv) (alive : (w.process pid).alive = true)
    (phase : (w.process pid).phase = .inspecting contents) (written : w.Written) :
    (w.proceed pid).Inv := by
  have own := inv.processes pid alive
  rw [LockProcess.Local, phase] at own
  have old : (w.process pid).phase.opened = none := by
    rw [phase]
    rfl
  unfold LockWorld.proceed
  rw [phase]
  dsimp only
  split
  case h_1 missing =>
    refine inv.setPhase own old rfl fun owner inode owned => ?_
    obtain ⟨contents, read, -⟩ := owned.read written
    rw [missing] at read
    cases read
  case h_2 existing read =>
    refine inv.setPhase own old rfl fun owner inode owned => ?_
    obtain ⟨contents, read', same⟩ := owned.read written
    obtain rfl := Option.some.inj (read.symm.trans read')
    exact same

theorem Inv.probing {existing : LockContents} (inv : w.Inv) (alive : (w.process pid).alive = true)
    (phase : (w.process pid).phase = .probing contents existing) : (w.proceed pid).Inv := by
  have own := inv.processes pid alive
  rw [LockProcess.Local, phase] at own
  have old : (w.process pid).phase.opened = none := by
    rw [phase]
    rfl
  unfold LockWorld.proceed
  rw [phase]
  dsimp only
  split
  · exact inv.setPhase ⟨own.1, trivial⟩ old rfl fun _ _ _ => trivial
  case isFalse dead =>
    refine inv.setPhase own old rfl fun owner inode owned => dead ?_
    have safe := owned.safe pid alive
    rw [phase] at safe
    rw [show existing.pid = owner from safe]
    exact owned.owns.1

theorem Inv.proceed (inv : w.Inv) (alive : (w.process pid).alive = true)
    (ordered : w.Ordered (.proceed pid)) : (w.proceed pid).Inv := by
  have own := inv.processes pid alive
  rw [LockProcess.Local] at own
  rw [Ordered] at ordered
  cases phase : (w.process pid).phase with
  | writing => exact inv.writing alive phase
  | unlinking => exact inv.unlinking alive phase
  | releaseUnlinking => exact inv.releaseUnlinking alive phase
  | portOpening => exact inv.portOpening alive phase
  | portWriting => exact inv.portWriting alive phase
  | probing => exact inv.probing alive phase
  | inspecting =>
    rw [phase] at ordered
    exact inv.inspecting alive phase ordered
  | idle =>
    unfold LockWorld.proceed
    rw [phase]
    exact inv
  | creating =>
    rw [phase] at own ordered
    unfold LockWorld.proceed
    rw [phase]
    exact inv.create alive (by rw [phase]; rfl) own.2 ordered rfl (fun _ => trivial) own
  | recreating =>
    rw [phase] at own ordered
    unfold LockWorld.proceed
    rw [phase]
    exact inv.create alive (by rw [phase]; rfl) own.2 ordered rfl (fun _ => trivial)
      ⟨own.1, trivial⟩
  | releaseChecking =>
    rw [phase] at own
    obtain ⟨inode, owned⟩ := inv.owned ⟨alive, .inl own.2⟩
    unfold LockWorld.proceed
    rw [phase]
    rw [if_neg (by simp [owned.path])]
    exact inv.setPhase own (by rw [phase]; rfl) rfl fun _ _ _ => trivial
  | releaseReading =>
    rw [phase] at own
    obtain ⟨inode, owned⟩ := inv.owned ⟨alive, .inl own.2⟩
    have file := owned.file
    rw [phase] at file
    obtain ⟨contents, eq, same⟩ := file
    unfold LockWorld.proceed
    rw [phase]
    dsimp only
    rw [readLockContents, owned.path, Option.bind_some, eq, if_neg (by simp [same])]
    exact inv.setPhase own (by rw [phase]; rfl) rfl fun _ _ _ => trivial
  | portChecking =>
    unfold LockWorld.proceed
    rw [phase]
    dsimp only
    split <;> exact inv.setPhase ⟨own.1, trivial⟩ (by rw [phase]; rfl) rfl fun _ _ _ => trivial
  | portReading =>
    unfold LockWorld.proceed
    rw [phase]
    dsimp only
    split
    · exact inv.setPhase ⟨own.1, trivial⟩ (by rw [phase]; rfl) rfl fun _ _ _ => trivial
    case h_2 contents read =>
      split
      · exact inv.setPhase ⟨own.1, trivial⟩ (by rw [phase]; rfl) rfl fun _ _ _ => trivial
      case isFalse mine =>
        rw [not_or, not_not] at mine
        refine inv.setPhase ⟨own.1, mine.1, ?_⟩ (by rw [phase]; rfl) rfl fun _ _ _ => trivial
        -- the file records this process, so it is the owner
        rcases inv.state with free | ⟨owner, inode, owned⟩
        · have dead := free.stale contents read
          rw [mine.1, alive] at dead
          cases dead
        · have file := owned.file
          rw [readLockContents, owned.path, Option.bind_some] at read
          split at file
          · rw [file.2] at read
            cases read
          · obtain ⟨contents', eq, same⟩ := file
            cases read.symm.trans eq
            rw [mine.1] at same
            subst same
            rcases owned.owns.2 with holds | ⟨_, _, writing⟩
            · exact holds
            · rw [phase] at writing
              cases writing

theorem Inv.die (inv : w.Inv) :
    (w.setProcess pid { w.process pid with alive := false }).Inv := by
  refine ⟨inv.locals fun no => (nomatch no), ?_⟩
  have dead : ¬ (w.setProcess pid { w.process pid with alive := false }).Owner pid := by
    intro is
    have alive := is.1
    rw [process_setProcess] at alive
    cases alive
  have others {q : ℕ} (is : (w.setProcess pid { w.process pid with alive := false }).Owner q) :
      q ≠ pid ∧ w.Owner q := by
    have ne : q ≠ pid := fun same => dead (same ▸ is)
    exact ⟨ne, (owner_setProcess_ne ne).1 is⟩
  have stays {q : ℕ} (no : (w.process q).alive = false) :
      ((w.setProcess pid { w.process pid with alive := false }).process q).alive = false := by
    by_cases same : q = pid
    · subst same
      rw [process_setProcess]
    · rwa [process_setProcess_ne same]
  rcases inv.state with free | ⟨owner, inode, owned⟩
  · exact .inl ⟨fun q is => free.none q (others is).2, fun contents read =>
      stays (free.stale contents read)⟩
  by_cases same : owner = pid
  · subst same
    refine .inl ⟨fun q is => (others is).1 (owned.only q (others is).2), fun contents read => ?_⟩
    have file := owned.file
    have read : w.path.bind w.content = some contents := read
    rw [owned.path, Option.bind_some] at read
    split at file
    · rw [file.2] at read
      cases read
    · obtain ⟨contents', eq, own⟩ := file
      cases read.symm.trans eq
      rw [own, process_setProcess]
  · refine .inr ⟨owner, inode, (owner_setProcess_ne same).2 owned.owns,
      fun q is => owned.only q (others is).2, owned.path, ?_, fun q is => ?_⟩
    · rw [process_setProcess_ne same]
      exact owned.file
    · have ne : q ≠ pid := by
        rintro rfl
        rw [process_setProcess] at is
        cases is
      rw [process_setProcess_ne ne] at is ⊢
      exact owned.safe q is

theorem step_cases (next : w.step label = some w') :
    (w.process label.pid).alive = true ∧
      match label with
      | .acquireLock pid contents => (w.process pid).phase = .idle ∧
          w' = w.setPhase pid (.creating { contents with pid })
      | .release pid => (w.process pid).phase = .idle ∧ 0 < (w.process pid).holds ∧
          w' = w.setPhase pid .releaseChecking
      | .updatePort pid port => (w.process pid).phase = .idle ∧
          w' = w.setPhase pid (.portChecking port)
      | .proceed pid => w' = w.proceed pid
      | .die pid => w' = w.setProcess pid { w.process pid with alive := false } := by
  unfold LockWorld.step at next
  dsimp only at next
  by_cases dead : (w.process label.pid).alive = false
  · rw [if_pos dead] at next
    cases next
  rw [if_neg dead] at next
  refine ⟨Bool.not_eq_false _ ▸ dead, ?_⟩
  cases label with
  | acquireLock pid contents =>
    change (if (w.process pid).phase = .idle
      then some (w.setPhase pid (.creating { contents with pid })) else none) = some w' at next
    split at next
    case isFalse => cases next
    case isTrue idle => exact ⟨idle, (Option.some.inj next).symm⟩
  | release pid =>
    change (if (w.process pid).phase = .idle ∧ 0 < (w.process pid).holds
      then some (w.setPhase pid .releaseChecking) else none) = some w' at next
    split at next
    case isFalse => cases next
    case isTrue idle => exact ⟨idle.1, idle.2, (Option.some.inj next).symm⟩
  | updatePort pid port =>
    change (if (w.process pid).phase = .idle
      then some (w.setPhase pid (.portChecking port)) else none) = some w' at next
    split at next
    case isFalse => cases next
    case isTrue idle => exact ⟨idle, (Option.some.inj next).symm⟩
  | proceed pid =>
    change (if (w.process pid).phase = .idle then none else some (w.proceed pid)) = some w' at next
    split at next
    case isTrue => cases next
    case isFalse => exact (Option.some.inj next).symm
  | die => exact (Option.some.inj next).symm

theorem step_inv (inv : w.Inv) (ordered : w.Ordered label) (next : w.step label = some w') :
    w'.Inv := by
  obtain ⟨alive, next⟩ := step_cases next
  have own := inv.processes _ alive
  cases label with
  | acquireLock =>
    obtain ⟨idle, rfl⟩ := next
    exact inv.setPhase ⟨own.1, rfl⟩ (by rw [idle]; rfl) rfl fun _ _ _ => trivial
  | release =>
    obtain ⟨idle, holds, rfl⟩ := next
    exact inv.setPhase ⟨own.1, holds⟩ (by rw [idle]; rfl) rfl fun _ _ _ => trivial
  | updatePort =>
    obtain ⟨idle, rfl⟩ := next
    exact inv.setPhase ⟨own.1, trivial⟩ (by rw [idle]; rfl) rfl fun _ _ _ => trivial
  | proceed pid =>
    change w' = w.proceed pid at next
    subst next
    exact inv.proceed alive ordered
  | die pid =>
    change w' = w.setProcess pid { w.process pid with alive := false } at next
    subst next
    exact inv.die

theorem Initial.inv (initial : w.Initial) : w.Inv := by
  refine ⟨fun pid _ => ?_, .inl ⟨fun pid is => ?_, initial.stale⟩⟩
  · rw [LockProcess.Local, (initial.idle pid).1, (initial.idle pid).2]
    exact ⟨Nat.zero_le 1, trivial⟩
  · obtain ⟨idle, holds⟩ := initial.idle pid
    rcases is.2 with some | ⟨_, _, writing⟩
    · exact absurd holds (Nat.ne_of_gt some)
    · rw [idle] at writing
      cases writing

/-- Another process leaves the file of the owner alone. -/
theorem Owned.frame (owned : w.Owned owner inode) (inv : w.Inv) (ne : label.pid ≠ owner)
    (next : w.step label = some w') :
    w'.path = w.path ∧ w'.content inode = w.content inode := by
  obtain ⟨alive, next⟩ := step_cases next
  have own := inv.processes _ alive
  have free : ¬ w.Owner label.pid := fun is => ne (owned.only _ is)
  cases label with
  | acquireLock | updatePort =>
    obtain ⟨-, rfl⟩ := next
    exact ⟨rfl, rfl⟩
  | release =>
    obtain ⟨-, -, rfl⟩ := next
    exact ⟨rfl, rfl⟩
  | die pid =>
    change w' = w.setProcess pid { w.process pid with alive := false } at next
    subst next
    exact ⟨rfl, rfl⟩
  | proceed pid =>
    change w' = w.proceed pid at next
    subst next
    have safe := owned.safe pid alive
    have own : (w.process pid).Local pid := own
    have holds : ¬ 0 < (w.process pid).holds := fun some => free ⟨alive, .inl some⟩
    rw [LockProcess.Local] at own
    unfold LockWorld.proceed
    cases phase : (w.process pid).phase with
    | writing inode contents => exact absurd ⟨alive, .inr ⟨inode, contents, phase⟩⟩ free
    | unlinking =>
      rw [phase] at safe
      exact safe.elim
    | releaseChecking | releaseReading | releaseUnlinking =>
      rw [phase] at own
      exact absurd own.2 holds
    | portOpening | portWriting =>
      rw [phase] at own
      exact absurd own.2.2 holds
    | creating | recreating =>
      dsimp only
      rw [exclusiveCreate, owned.path]
      exact ⟨owned.path, rfl⟩
    | inspecting | portReading =>
      dsimp only
      split <;> exact ⟨rfl, rfl⟩
    | idle | probing | portChecking => exact ⟨rfl, rfl⟩

/-! ## A process by itself -/

/-- The process acquires the lock when only it goes on. -/
def Acquires (w : LockWorld) (pid : ℕ) : Prop :=
  ∃ n w', Transition.exec step w (List.replicate n (.proceed pid)) = some w' ∧
    (w'.process pid).phase = .idle ∧ 0 < (w'.process pid).holds

section

variable (alive : (w.process pid).alive = true)
include alive

theorem Acquires.proceed (busy : (w.process pid).phase ≠ .idle)
    (after : (w.proceed pid).Acquires pid) :
    w.Acquires pid := by
  obtain ⟨n, w', run, result⟩ := after
  refine ⟨n + 1, w', ?_, result⟩
  have next : w.step (.proceed pid) = some (w.proceed pid) := by
    unfold LockWorld.step
    dsimp only [LockStep.pid]
    rw [alive, if_neg (by decide), if_neg busy]
  rw [List.replicate_succ, Transition.exec, next, Option.bind_some, run]

theorem acquires_writing (phase : (w.process pid).phase = .writing inode contents) :
    w.Acquires pid := by
  refine .proceed alive (by simp [phase]) ⟨0, _, rfl, ?_⟩
  unfold LockWorld.proceed
  rw [phase]
  simp

theorem acquires_create {taken : LockPhase} (missing : w.path = none) :
    (w.exclusiveCreate pid contents taken).Acquires pid := by
  have process : (w.exclusiveCreate pid contents taken).process pid =
      { w.process pid with phase := .writing w.inodes contents } := by
    unfold exclusiveCreate
    rw [missing]
    exact process_setProcess _
  have phase := congrArg LockProcess.phase process
  refine acquires_writing ?_ phase
  rw [process]
  exact alive

theorem acquires_recreating (phase : (w.process pid).phase = .recreating contents)
    (missing : w.path = none) :
    w.Acquires pid := by
  refine .proceed alive (by simp [phase]) ?_
  unfold LockWorld.proceed
  rw [phase]
  exact acquires_create alive missing

theorem acquires_unlinking (phase : (w.process pid).phase = .unlinking contents) :
    w.Acquires pid := by
  refine .proceed alive (by simp [phase]) ?_
  unfold LockWorld.proceed
  rw [phase]
  have process : (w.setPhase pid (.recreating contents)).process pid =
      { w.process pid with phase := .recreating contents } := process_setProcess _
  refine acquires_recreating ?_ (congrArg LockProcess.phase process) rfl
  exact (congrArg LockProcess.alive process).trans alive

theorem acquires_inspecting
    (phase : (w.process pid).phase = .inspecting contents)
    (stale : ∀ contents, w.readLockContents = some contents →
      (w.process contents.pid).alive = false) : w.Acquires pid := by
  refine .proceed alive (by simp [phase]) ?_
  unfold LockWorld.proceed
  rw [phase]
  dsimp only
  have process (phase : LockPhase) : (w.setPhase pid phase).process pid =
      { w.process pid with phase } := process_setProcess _
  have alive' (phase : LockPhase) : ((w.setPhase pid phase).process pid).alive = true :=
    (congrArg LockProcess.alive (process phase)).trans alive
  have phase' (phase : LockPhase) : ((w.setPhase pid phase).process pid).phase = phase :=
    congrArg LockProcess.phase (process phase)
  split
  · exact acquires_unlinking (alive' _) (phase' _)
  case h_2 existing read =>
    have dead : ((w.setPhase pid (.probing contents existing)).process existing.pid).alive =
        false := (alive_setPhase _).trans (stale existing read)
    refine .proceed (alive' _) (by simp [phase']) ?_
    rw [LockWorld.proceed, phase']
    dsimp only
    rw [dead, if_neg (by decide)]
    let w' := w.setPhase pid (.probing contents existing)
    have again : (w'.setPhase pid (.unlinking contents)).process pid =
        { w'.process pid with phase := .unlinking contents } := process_setProcess _
    exact acquires_unlinking ((congrArg LockProcess.alive again).trans (alive' _))
      (congrArg LockProcess.phase again)

theorem acquires_creating
    (phase : (w.process pid).phase = .creating contents)
    (stale : ∀ contents, w.readLockContents = some contents →
      (w.process contents.pid).alive = false) : w.Acquires pid := by
  refine .proceed alive (by simp [phase]) ?_
  unfold LockWorld.proceed
  rw [phase]
  dsimp only
  cases path : w.path with
  | none => exact acquires_create alive path
  | some =>
    rw [exclusiveCreate, path]
    have process : (w.setPhase pid (.inspecting contents)).process pid =
        { w.process pid with phase := .inspecting contents } := process_setProcess _
    refine acquires_inspecting ((congrArg LockProcess.alive process).trans alive)
      (congrArg LockProcess.phase process) fun contents' read => ?_
    exact (alive_setPhase _).trans (stale contents' read)

end

/-- A process changes no other one. -/
theorem step_frame (ne : other ≠ label.pid) (next : w.step label = some w') :
    w'.process other = w.process other := by
  obtain ⟨-, next⟩ := step_cases next
  have frame (process : LockProcess) :
      (w.setProcess label.pid process).process other = w.process other :=
    process_setProcess_ne ne process
  cases label with
  | acquireLock | updatePort =>
    obtain ⟨-, rfl⟩ := next
    exact frame _
  | release =>
    obtain ⟨-, -, rfl⟩ := next
    exact frame _
  | die pid =>
    change w' = w.setProcess pid { w.process pid with alive := false } at next
    subst next
    exact frame _
  | proceed pid =>
    change w' = w.proceed pid at next
    subst next
    unfold LockWorld.proceed exclusiveCreate
    cases (w.process pid).phase <;> dsimp only <;> repeat' split
    all_goals first | rfl | exact frame _

/-- What a process does by itself is ordered. -/
theorem ordered_solo (quiet : ∀ other, other ≠ label.pid → (w.process other).phase = .idle) :
    w.Ordered label := by
  cases label with
  | proceed pid =>
    have takesOver : w.path = none → ∀ other, other ≠ pid → (w.process other).alive = true →
        (w.process other).phase.takesOver = false := by
      intro _ other ne _
      rw [quiet other ne]
      rfl
    rw [Ordered]
    cases phase : (w.process pid).phase with
    | creating => exact takesOver
    | recreating => exact takesOver
    | inspecting =>
      intro inode _ other _
      by_cases same : other = pid
      · subst same
        rw [phase]
        simp [LockPhase.opened]
      · rw [quiet other same]
        simp [LockPhase.opened]
    | _ => trivial
  | _ => trivial

theorem solo_run {labels : List LockStep} (own : ∀ label ∈ labels, label.pid = pid)
    (quiet : ∀ other, other ≠ pid → (w.process other).phase = .idle)
    (exec : Transition.exec step w labels = some w') : Transition.Run step Ordered w labels w' := by
  induction labels generalizing w with
  | nil =>
    cases exec
    exact .nil
  | cons label labels ih =>
    obtain rfl := own label (List.mem_cons_self ..)
    obtain ⟨w₁, next, rest⟩ := Option.bind_eq_some_iff.1 exec
    refine .cons (ordered_solo quiet) next
      (ih (fun label mem => own label (List.mem_cons_of_mem _ mem)) (fun other ne => ?_) rest)
    rw [step_frame ne next]
    exact quiet other ne

/-- Runs from a lock that no live process holds in which take-overs do not overlap. -/
abbrev OrderedRun (initial : LockWorld) : List LockStep → LockWorld → Prop :=
  Transition.Run step Ordered initial

/-- In every ordered run: two live holders are the same, no other process changes the lock file of
a live holder, and a process that tries while no live one holds the lock and all others are idle
acquires it. -/
theorem lock_exclusive {initial : LockWorld} (clean : initial.Initial) {labels : List LockStep}
    (run : OrderedRun initial labels w) :
    (∀ p q, (w.process p).alive = true → (w.process q).alive = true → 0 < (w.process p).holds →
      0 < (w.process q).holds → p = q) ∧
    (∀ p label w', (w.process p).alive = true → 0 < (w.process p).holds → label.pid ≠ p →
      w.step label = some w' →
        w'.path = w.path ∧ ∀ inode, w.path = some inode → w'.content inode = w.content inode) ∧
    ∀ p contents, (w.process p).alive = true →
      (∀ q, (w.process q).alive = true →
        (w.process q).phase = .idle ∧ (w.process q).holds = 0) →
      ∃ w', w.step (.acquireLock p contents) = some w' ∧ w'.Acquires p := by
  have inv : w.Inv := run.invariant Inv clean.inv fun _ _ _ => step_inv
  refine ⟨fun p q alive alive' holds holds' => ?_, fun p label w' alive holds ne next => ?_,
    fun p contents alive quiet => ?_⟩
  · obtain ⟨inode, owned⟩ := inv.owned ⟨alive', .inl holds'⟩
    exact owned.only p ⟨alive, .inl holds⟩
  · obtain ⟨inode, owned⟩ := inv.owned ⟨alive, .inl holds⟩
    obtain ⟨path, content⟩ := owned.frame inv ne next
    refine ⟨path, fun inode' eq => ?_⟩
    cases owned.path.symm.trans eq
    exact content
  · have free : w.Free := by
      rcases inv.state with free | ⟨owner, inode, owned⟩
      · exact free
      · obtain ⟨idle, none⟩ := quiet owner owned.owns.1
        rcases owned.owns.2 with holds | ⟨_, _, writing⟩
        · exact absurd none (Nat.ne_of_gt holds)
        · rw [idle] at writing
          cases writing
    obtain ⟨idle, -⟩ := quiet p alive
    refine ⟨w.setPhase p (.creating { contents with pid := p }), ?_, ?_⟩
    · unfold LockWorld.step
      dsimp only [LockStep.pid]
      rw [alive, if_neg (by decide), if_pos idle]
    · have process : (w.setPhase p (.creating { contents with pid := p })).process p =
          { w.process p with phase := .creating { contents with pid := p } } :=
        process_setProcess _
      refine acquires_creating ((congrArg LockProcess.alive process).trans alive)
        (congrArg LockProcess.phase process) fun contents' read => ?_
      exact (alive_setPhase _).trans (free.stale contents' read)

/-! ## Sample runs -/

/-- What a server writes. -/
def server (pid : ℕ) : LockContents :=
  { pid, startedAt := "2026-01-01T00:00:00.000Z", port := 58627 }

/-- Processes 1 and 2 are alive, and the file of process 0 is left. -/
def crashed : LockWorld :=
  { process := fun pid => { alive := pid = 1 || pid = 2 }
    path := some 0
    inodes := 1
    content := fun _ => some (server 0) }

theorem crashed_initial : crashed.Initial := by
  refine ⟨fun _ => ⟨rfl, rfl⟩, fun contents read => ?_⟩
  cases read
  rfl

/-- Process 1 has taken the lock over, and process 2 tries in vain. -/
def takeOver : List LockStep :=
  [.acquireLock 1 (server 1), .proceed 1, .proceed 1, .proceed 1, .proceed 1, .proceed 1,
    .proceed 1]

theorem takeOver_exclusive : ∃ w, OrderedRun crashed takeOver w ∧ 0 < (w.process 1).holds ∧
    ∀ w', w.step (.acquireLock 2 (server 2)) = some w' → w'.path = w.path := by
  have reached : ((Transition.exec step crashed takeOver).map fun w =>
      ((w.process 1).alive, (w.process 1).holds)) = some (true, 1) := by
    decide +kernel
  obtain ⟨w, exec, eq⟩ := Option.map_eq_some_iff.1 reached
  simp only [Prod.mk.injEq] at eq
  have holds : 0 < (w.process 1).holds := by omega
  have own : ∀ label ∈ takeOver, label.pid = 1 := by decide
  have run : OrderedRun crashed takeOver w := solo_run own (fun _ _ => rfl) exec
  obtain ⟨-, frame, -⟩ := lock_exclusive crashed_initial run
  exact ⟨w, run, holds, fun w' next => (frame 1 _ w' eq.1 holds (by decide) next).1⟩

/-- Both processes have found the file of the dead one before the first of them removes it. -/
def bothTakeOver : List LockStep :=
  [.acquireLock 1 (server 1), .acquireLock 2 (server 2), .proceed 1, .proceed 2, .proceed 1,
    .proceed 2, .proceed 1, .proceed 2, .proceed 1, .proceed 1, .proceed 1, .proceed 2, .proceed 2,
    .proceed 2]

theorem bothTakeOver_hold : ∃ w, Transition.exec step crashed bothTakeOver = some w ∧
    (w.process 1).alive = true ∧ (w.process 2).alive = true ∧
    0 < (w.process 1).holds ∧ 0 < (w.process 2).holds := by
  have reached : ((Transition.exec step crashed bothTakeOver).map fun w =>
      ((w.process 1).alive, (w.process 2).alive, (w.process 1).holds, (w.process 2).holds)) =
        some (true, true, 1, 1) := by
    decide +kernel
  obtain ⟨w, exec, eq⟩ := Option.map_eq_some_iff.1 reached
  simp only [Prod.mk.injEq] at eq
  obtain ⟨alive, alive', holds, holds'⟩ := eq
  exact ⟨w, exec, alive, alive', by omega, by omega⟩

end LockWorld

end KimiCli
