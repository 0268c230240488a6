import KimiCli.Fs.WatchBooks

/-!
# What the file watcher service keeps exact

A run of the service is compared with the set of the watches that its calls ask for.  When no
accepted call of `addPaths` names a new path twice, every watcher holds exactly the watched paths,
every count is the number of watches, and a watcher that nobody uses is closed
(`fs_watcher_exact`).  A path that is named twice is referenced twice, but only one of the two
references is kept, so that the path is held for ever.
-/

namespace KimiCli.Fs

open Transition

namespace FsWatcherService

/-! ## The watches of a run -/

/-- The new watches of an `addPaths` call. -/
def newWatches (w : Finset Watch) (sessionId connectionId : String) (absPaths : List String) :
    List Watch :=
  (absPaths.map fun p => (connectionId, sessionId, p)).filter (· ∉ w)

def watchStep (maxPathsPerConnection : ℕ) (w : Finset Watch) : FsCall → Finset Watch
  | .addPaths sessionId connectionId absPaths =>
    let added := newWatches w sessionId connectionId absPaths
    if maxPathsPerConnection < (w.filter (·.1 = connectionId)).card + added.length then w
    else w ∪ added.toFinset
  | .removePaths sessionId connectionId absPaths => unwatch w sessionId connectionId absPaths
  | .forgetConnection connectionId => w.filter (·.1 ≠ connectionId)
  | .bindSessionCwd _ => w

/-- What is watched after the calls: what was added and neither removed nor forgotten. -/
def watching (maxPathsPerConnection : ℕ) (calls : List FsCall) : Finset Watch :=
  calls.foldl (watchStep maxPathsPerConnection) ∅

/-- An `addPaths` call that is not refused names no new path twice. -/
def Distinct (maxPathsPerConnection : ℕ) (s : FsWatcherService) : FsCall → Prop
  | .addPaths sessionId connectionId absPaths =>
    maxPathsPerConnection < s.projectedTotal sessionId connectionId absPaths ∨
      (s.newlyAdded sessionId connectionId absPaths).Nodup
  | _ => True

instance (maxPathsPerConnection : ℕ) (s : FsWatcherService) :
    ∀ call, Decidable (s.Distinct maxPathsPerConnection call)
  | .addPaths _ _ _ => inferInstanceAs (Decidable (_ ∨ _))
  | .removePaths _ _ _ | .forgetConnection _ | .bindSessionCwd _ => .isTrue trivial

/-- The service `s` is exact for the watches `w`. -/
structure Exact (maxPathsPerConnection : ℕ) (s : FsWatcherService) (w : Finset Watch) : Prop where
  entry : ∀ c t p, (c, t, p) ∈ w → ∃ e, s.entryOf t = some e
  held : ∀ t e, s.entryOf t = some e → e.pathRefs.held.Nodup ∧
    ∀ p, p ∈ e.pathRefs.held ↔ ∃ c, (c, t, p) ∈ w
  watched : ∀ c t, (s.watchedPaths c t).Nodup ∧ ∀ p, p ∈ s.watchedPaths c t ↔ (c, t, p) ∈ w
  count : ∀ c, s.countForConnection c = (w.filter (·.1 = c)).card
  limit : ∀ c, s.countForConnection c ≤ maxPathsPerConnection
  indexes : ∀ c t, s.connSessionRefs c t = (s.entryOf t).bind (·.connectionPathRefs.get c)
  closed : ∀ (ref : ℕ) e, s.entries[ref]? = some e →
    e.pathRefs.watcher.getLast? = some .close ∨
    ∃ t, s.sessions.get t = some ref ∧ ((∃ c p, (c, t, p) ∈ w) ∨ e.pathRefs.watcher = [])

variable {s s' : FsWatcherService} {w : Finset Watch} {sessionId connectionId path : String}
  {ref id maxPathsPerConnection : ℕ} {e : SessionEntry} {absPaths : List String}

/-! ## Reading the books -/

theorem Books.mem_watchedPaths (books : Books s w) (c t p : String) :
    p ∈ s.watchedPaths c t ↔ (c, t, p) ∈ w := by
  rw [books.watches, watchedPaths]
  cases s.connSessionRefs c t with
  | none => simp
  | some =>
    rw [OrderedMap.mem_keys]
    simp

theorem nodup_watchedPaths (c t : String) : (s.watchedPaths c t).Nodup := by
  rw [watchedPaths]
  split
  case h_1 id _ => exact (s.pathMap id).nodup
  · exact List.nodup_nil

/-- The watches of a connection, as its maps list them. -/
def listed (s : FsWatcherService) (connectionId : String) : List Watch :=
  ((s.connections.get connectionId).getD ∅).entries.flatMap fun entry =>
    (s.pathMap entry.2).entries.map fun e => (connectionId, entry.1, e.1)

theorem length_listed : (s.listed connectionId).length = s.countForConnection connectionId := by
  rw [listed, List.length_flatMap, countForConnection]
  simp only [List.length_map]
  cases s.connections.get connectionId <;> rfl

theorem nodup_listed : (s.listed connectionId).Nodup := by
  rw [listed, List.nodup_flatMap]
  constructor
  · intro entry _
    have paths := (s.pathMap entry.2).nodup
    refine List.Nodup.of_map (fun x : Watch => x.2.2) ?_
    rwa [List.map_map]
  · have sessions := ((s.connections.get connectionId).getD ∅).nodup
    refine (List.pairwise_map.1 sessions).imp fun {a b} different => ?_
    rw [Function.onFun_apply, List.disjoint_left]
    intro x first second
    obtain ⟨e, -, rfl⟩ := List.mem_map.1 first
    obtain ⟨e', -, same⟩ := List.mem_map.1 second
    exact different (congrArg (fun x : Watch => x.2.1) same).symm

theorem Books.mem_listed (books : Books s w) (x : Watch) :
    x ∈ s.listed connectionId ↔ x ∈ w ∧ x.1 = connectionId := by
  obtain ⟨c, t, p⟩ := x
  rw [listed, List.mem_flatMap, books.watches]
  simp only [List.mem_map, Prod.exists, OrderedMap.mem_entries, ← connSessionRefs_eq]
  constructor
  · rintro ⟨t', id, refs, p', ref, found, same⟩
    cases same
    exact ⟨⟨id, ref, refs, found⟩, rfl⟩
  · rintro ⟨⟨id, ref, refs, found⟩, rfl⟩
    exact ⟨t, id, refs, p, ref, found, rfl⟩

theorem Books.count (books : Books s w) (c : String) :
    s.countForConnection c = (w.filter (·.1 = c)).card := by
  have same : w.filter (·.1 = c) = (s.listed c).toFinset := by
    ext x
    rw [Finset.mem_filter, List.mem_toFinset, books.mem_listed]
  rw [same, List.toFinset_card_of_nodup nodup_listed, length_listed]

theorem Books.exact (books : Books s w) (tidy : Tidy s w)
    (limit : ∀ c, (w.filter (·.1 = c)).card ≤ maxPathsPerConnection) :
    Exact maxPathsPerConnection s w where
  entry := by
    intro c t p mem
    obtain ⟨id, ref, refs, -⟩ := (books.watches _ _ _).1 mem
    rw [books.indexes] at refs
    obtain ⟨e, found, -⟩ := Option.bind_eq_some_iff.1 refs
    exact ⟨e, found⟩
  held := by
    intro t e found
    have counts := books.counts _ _ found
    refine ⟨counts.heldNodup, fun p => (counts.held p).trans ?_⟩
    rw [watchers, Finset.card_ne_zero]
    constructor
    · rintro ⟨⟨c, t', p'⟩, inside⟩
      obtain ⟨mem, same⟩ := Finset.mem_filter.1 inside
      cases same
      exact ⟨c, mem⟩
    · rintro ⟨c, mem⟩
      exact ⟨_, Finset.mem_filter.2 ⟨mem, rfl⟩⟩
  watched := fun c t => ⟨nodup_watchedPaths c t, books.mem_watchedPaths c t⟩
  count := books.count
  limit := fun c => (books.count c).le.trans (limit c)
  indexes := books.indexes
  closed := by
    intro ref e found
    by_cases kept : ∃ t, s.sessions.get t = some ref
    · obtain ⟨t, session⟩ := kept
      have here : s.entryOf t = some e := by rw [entryOf, session, Option.bind_some, found]
      exact .inr ⟨t, session, tidy.opened _ _ here⟩
    · exact .inl (books.closed _ _ found (not_exists.1 kept))

/-! ## Removing -/

/-- Only the entry of one session is touched. -/
theorem Books.entryOf_frame (books : Books s w) (session : s.sessions.get sessionId = some ref)
    (sessions : s'.sessions = s.sessions)
    (entries : ∀ (ref' : ℕ), ref' ≠ ref → s'.entries[ref']? = s.entries[ref']?) (t : String)
    (other : t ≠ sessionId) : s'.entryOf t = s.entryOf t := by
  rw [entryOf, entryOf, sessions]
  cases found : s.sessions.get t with
  | none => rfl
  | some ref' =>
    refine entries ref' ?_
    rintro rfl
    exact other (books.sole _ _ _ found session)

theorem takeRefs_owner {refs : OrderedMap String ℕ} (owner : ∀ p r, refs.get p = some r → r = ref)
    {reference : String × ℕ} (mem : reference ∈ (takeRefs refs absPaths).1) :
    reference.2 = ref := by
  induction absPaths generalizing refs with
  | nil => cases mem
  | cons abs absPaths ih =>
    rw [takeRefs] at mem
    split at mem
    case h_1 r found =>
      rcases List.mem_cons.1 mem with rfl | later
      · exact owner _ _ found
      · refine ih (fun p r' h => ?_) later
        rw [← OrderedMap.mem_entries, OrderedMap.mem_entries_delete] at h
        exact owner _ _ (OrderedMap.mem_entries.1 h.2)
    case h_2 => exact ih owner mem

theorem getElem?_disposeRefs {references : List (String × ℕ)} {entries : List SessionEntry}
    (owner : ∀ reference ∈ references, reference.2 = ref) {ref' : ℕ} (other : ref' ≠ ref) :
    (references.foldl disposeRef entries)[ref']? = entries[ref']? := by
  induction references generalizing entries with
  | nil => rfl
  | cons reference references ih =>
    rw [List.foldl_cons, ih fun r mem => owner r (List.mem_cons_of_mem _ mem), disposeRef,
      owner reference List.mem_cons_self, List.getElem?_modify_ne _ _ other.symm]

theorem getElem?_dropPathMap {ref' : ℕ} (other : ref' ≠ ref) :
    (s.dropPathMap ref id connectionId sessionId).entries[ref']? = s.entries[ref']? := by
  rw [dropPathMap]
  split
  · exact List.getElem?_modify_ne _ _ other.symm
  · rfl

theorem sessions_dropPathMap :
    (s.dropPathMap ref id connectionId sessionId).sessions = s.sessions := by
  rw [dropPathMap]
  split <;> rfl

section

variable (books : Books s w)
include books

theorem removePaths_exact (tidy : Tidy s w) (sessionId connectionId : String)
    (absPaths : List String) :
    Books (s.removePaths sessionId connectionId absPaths).2
      (unwatch w sessionId connectionId absPaths) ∧
    Tidy (s.removePaths sessionId connectionId absPaths).2
      (unwatch w sessionId connectionId absPaths) ∧
    ∀ c t, ¬(c = connectionId ∧ t = sessionId) →
      (s.removePaths sessionId connectionId absPaths).2.connSessionRefs c t =
        s.connSessionRefs c t := by
  rw [removePaths]
  cases refs : s.connSessionRefs connectionId sessionId with
  | none =>
    have same : unwatch w sessionId connectionId absPaths = w := by
      refine Finset.filter_true_of_mem ?_
      rintro ⟨c, t, p⟩ mem ⟨conn, sess, -⟩
      obtain ⟨id, ref, h, -⟩ := (books.watches _ _ _).1 mem
      dsimp only at conn sess
      rw [conn, sess, refs] at h
      cases h
    rw [same]
    cases s.sessions.get sessionId <;> exact ⟨books, tidy, fun _ _ _ => rfl⟩
  | some id =>
    obtain ⟨ref, session⟩ := books.session refs
    have taken := books.takeRefs refs absPaths
    have untouched : ∀ (ref' : ℕ), ref' ≠ ref →
        ((takeRefs (s.pathMap id) absPaths).1.foldl disposeRef s.entries)[ref']? =
          s.entries[ref']? := fun ref' other => by
      refine getElem?_disposeRefs (fun r mem => takeRefs_owner (fun p r' found => ?_) mem) other
      exact Option.some.inj ((books.owner _ _ _ _ _ refs found).symm.trans session)
    rw [session]
    dsimp only
    generalize hs : ({ s with
      pathMaps := s.pathMaps.set id (takeRefs (s.pathMap id) absPaths).2
      entries := (takeRefs (s.pathMap id) absPaths).1.foldl disposeRef s.entries } :
        FsWatcherService) = s₁ at taken ⊢
    have refs₁ : ∀ c t, s₁.connSessionRefs c t = s.connSessionRefs c t := by
      subst hs
      exact fun _ _ => rfl
    have sessions₁ : s₁.sessions = s.sessions := by
      subst hs
      rfl
    have entries₁ : ∀ (ref' : ℕ), ref' ≠ ref → s₁.entries[ref']? = s.entries[ref']? := by
      subst hs
      exact untouched
    have session₁ : s₁.sessions.get sessionId = some ref := sessions₁ ▸ session
    have left := taken.dropPathMap session₁ ((refs₁ _ _).trans refs)
    have sessions₂ : (s₁.dropPathMap ref id connectionId sessionId).sessions = s₁.sessions :=
      sessions_dropPathMap
    have nonempty : ∀ c t id',
        (s₁.dropPathMap ref id connectionId sessionId).connSessionRefs c t = some id' →
        ∃ p, (c, t, p) ∈ unwatch w sessionId connectionId absPaths := by
      intro c t id' h
      rw [connSessionRefs_dropPathMap] at h
      split at h
      · cases h
      case isFalse kept =>
        by_cases both : c = connectionId ∧ t = sessionId
        · obtain ⟨rfl, rfl⟩ := both
          have full : (s₁.pathMap id).entries ≠ [] := fun empty => kept ⟨empty, rfl, rfl⟩
          obtain ⟨⟨p, r⟩, inside⟩ := List.exists_mem_of_ne_nil _ full
          exact ⟨p, (taken.watches _ _ _).2
            ⟨id, r, (refs₁ _ _).trans refs, OrderedMap.mem_entries.1 inside⟩⟩
        · obtain ⟨p, mem⟩ := tidy.nonempty _ _ _ ((refs₁ _ _).symm.trans h)
          exact ⟨p, mem_unwatch.2 ⟨mem, fun all => both ⟨all.1, all.2.1⟩⟩⟩
    obtain ⟨dropped, entry⟩ := left.dropSession nonempty (sessions₂ ▸ session₁)
    refine ⟨dropped, ⟨fun c t id' h => ?_, fun t e found => ?_⟩, fun c t other => ?_⟩
    · rw [connSessionRefs_dropSession] at h
      exact nonempty _ _ _ h
    · obtain ⟨found, used⟩ := entry _ _ found
      by_cases same : t = sessionId
      · obtain ⟨c, p, mem⟩ := used same
        exact .inl ⟨c, p, same ▸ mem⟩
      · rw [books.entryOf_frame session (sessions₂.trans sessions₁) (fun ref' other =>
          (getElem?_dropPathMap other).trans (entries₁ ref' other)) t same] at found
        refine (tidy.opened _ _ found).imp_left ?_
        rintro ⟨c, p, mem⟩
        exact ⟨c, p, mem_unwatch.2 ⟨mem, fun all => same all.2.1⟩⟩
    · rw [connSessionRefs_dropSession, connSessionRefs_dropPathMap,
        if_neg fun all => other all.2, refs₁]

/-! ## Forgetting a connection -/

theorem forgetSessions_exact (tidy : Tidy s w) (sessions : List (String × ℕ))
    (distinct : (sessions.map Prod.fst).Nodup)
    (refs : ∀ entry ∈ sessions, s.connSessionRefs connectionId entry.1 = some entry.2) :
    let s' := sessions.foldl
      (fun s entry => (s.removePaths entry.1 connectionId (s.pathMap entry.2).keys).2) s
    let w' := w.filter fun x => ¬(x.1 = connectionId ∧ x.2.1 ∈ sessions.map Prod.fst)
    Books s' w' ∧ Tidy s' w' := by
  induction sessions generalizing s w with
  | nil =>
    have same : (w.filter fun x => ¬(x.1 = connectionId ∧ x.2.1 ∈ ([] : List String))) = w :=
      Finset.filter_true_of_mem fun x _ both => List.not_mem_nil both.2
    rw [List.map_nil, same]
    exact ⟨books, tidy⟩
  | cons entry sessions ih =>
    obtain ⟨sessionId, id⟩ := entry
    rw [List.map_cons, List.nodup_cons] at distinct
    have here := refs _ List.mem_cons_self
    obtain ⟨books₁, tidy₁, kept⟩ :=
      removePaths_exact books tidy sessionId connectionId (s.pathMap id).keys
    have rest := ih books₁ tidy₁ distinct.2 fun entry mem => by
      have other : entry.1 ≠ sessionId := fun same =>
        distinct.1 (List.mem_map.2 ⟨entry, mem, same⟩)
      rw [kept _ _ fun both => other both.2]
      exact refs _ (List.mem_cons_of_mem _ mem)
    have same : (unwatch w sessionId connectionId (s.pathMap id).keys).filter
        (fun x => ¬(x.1 = connectionId ∧ x.2.1 ∈ sessions.map Prod.fst)) =
        w.filter fun x =>
          ¬(x.1 = connectionId ∧ x.2.1 ∈ ((sessionId, id) :: sessions).map Prod.fst) := by
      ext ⟨c, t, p⟩
      rw [Finset.mem_filter, Finset.mem_filter, mem_unwatch, and_assoc]
      refine and_congr_right fun mem => ?_
      rw [List.map_cons, List.mem_cons]
      constructor
      · rintro ⟨notHere, notRest⟩ ⟨conn, first | later⟩
        · obtain ⟨id', ref, h, found⟩ := (books.watches _ _ _).1 mem
          dsimp only at conn first here
          rw [conn, first, here, Option.some_inj] at h
          subst h
          exact notHere ⟨conn, first, OrderedMap.mem_keys.2 ⟨ref, found⟩⟩
        · exact notRest ⟨conn, later⟩
      · intro outside
        exact ⟨fun all => outside ⟨all.1, .inl all.2.1⟩, fun both => outside ⟨both.1, .inr both.2⟩⟩
    rw [same] at rest
    exact rest

theorem forgetConnection_exact (tidy : Tidy s w) (connectionId : String) :
    Books (s.forgetConnection connectionId) (w.filter (·.1 ≠ connectionId)) ∧
      Tidy (s.forgetConnection connectionId) (w.filter (·.1 ≠ connectionId)) := by
  rw [forgetConnection]
  cases found : s.connections.get connectionId with
  | none =>
    have same : w.filter (·.1 ≠ connectionId) = w := by
      refine Finset.filter_true_of_mem ?_
      rintro ⟨c, t, p⟩ mem rfl
      obtain ⟨id, ref, h, -⟩ := (books.watches _ _ _).1 mem
      rw [connSessionRefs, found] at h
      cases h
    rw [same]
    exact ⟨books, tidy⟩
  | some m =>
    have refs : ∀ t, s.connSessionRefs connectionId t = m.get t := fun t => by
      rw [connSessionRefs, found, Option.bind_some]
    have forgotten := forgetSessions_exact books tidy m.entries m.nodup fun entry mem =>
      (refs _).trans (OrderedMap.mem_entries.1 mem)
    have same : (w.filter fun x => ¬(x.1 = connectionId ∧ x.2.1 ∈ m.entries.map Prod.fst)) =
        w.filter (·.1 ≠ connectionId) := by
      refine Finset.filter_congr ?_
      rintro ⟨c, t, p⟩ mem
      refine not_congr (and_iff_left_of_imp ?_)
      rintro rfl
      obtain ⟨id, ref, h, -⟩ := (books.watches _ _ _).1 mem
      exact OrderedMap.mem_keys.2 ⟨id, (refs _).symm.trans h⟩
    rw [same] at forgotten
    obtain ⟨books', tidy'⟩ := forgotten
    have unchanged := connSessionRefs_forget fun t => by
      refine Option.eq_none_iff_forall_ne_some.2 fun id h => ?_
      obtain ⟨p, mem⟩ := tidy'.nonempty connectionId t id h
      exact (Finset.mem_filter.1 mem).2 rfl
    exact ⟨books'.congr rfl rfl rfl unchanged, tidy'.congr rfl rfl unchanged⟩

/-! ## Adding -/

theorem acquirePaths_exact (session : s.sessions.get sessionId = some ref)
    (refs : s.connSessionRefs connectionId sessionId = some id) (distinct : absPaths.Nodup)
    (new : ∀ p ∈ absPaths, (connectionId, sessionId, p) ∉ w) :
    let s' := absPaths.foldl (acquirePath ref id) s
    Books s' (w ∪ (absPaths.map fun p => (connectionId, sessionId, p)).toFinset) ∧
      s'.connections = s.connections ∧ s'.sessions = s.sessions ∧
      ∀ (ref' : ℕ), ref' ≠ ref → s'.entries[ref']? = s.entries[ref']? := by
  induction absPaths generalizing s w with
  | nil =>
    rw [List.map_nil, List.toFinset_nil, Finset.union_empty]
    exact ⟨books, rfl, rfl, fun _ _ => rfl⟩
  | cons p absPaths ih =>
    rw [List.nodup_cons] at distinct
    have first := books.acquirePath session refs (new p List.mem_cons_self)
    obtain ⟨books', connections, sessions, entries⟩ := ih first session refs distinct.2
      fun q mem inside => by
        rcases Finset.mem_insert.1 inside with same | old
        · cases same
          exact distinct.1 mem
        · exact new q (List.mem_cons_of_mem _ mem) old
    rw [List.map_cons, List.toFinset_cons, Finset.union_insert, ← Finset.insert_union]
    refine ⟨books', connections, sessions, fun ref' other => (entries ref' other).trans ?_⟩
    exact List.getElem?_modify_ne _ _ other.symm

theorem Books.newWatches_eq :
    newWatches w sessionId connectionId absPaths =
      (s.newlyAdded sessionId connectionId absPaths).map fun p => (connectionId, sessionId, p) := by
  rw [newWatches, newlyAdded, List.filter_map]
  refine congrArg (List.map _) (List.filter_congr fun p _ => ?_)
  exact decide_eq_decide.2 (not_congr (books.mem_watchedPaths _ _ _).symm)

theorem Books.projectedTotal_eq :
    s.projectedTotal sessionId connectionId absPaths =
      (w.filter (·.1 = connectionId)).card +
        (newWatches w sessionId connectionId absPaths).length := by
  rw [projectedTotal, books.count, books.newWatches_eq, List.length_map]

theorem Books.getOrCreateSession (sessionId : String) : ∃ ref s',
    s.getOrCreateSession sessionId = (ref, s') ∧ Books s' w ∧ s'.sessions.get sessionId = some ref ∧
    (∀ c t, s'.connSessionRefs c t = s.connSessionRefs c t) ∧
    ∀ t, t ≠ sessionId → s'.entryOf t = s.entryOf t := by
  rw [FsWatcherService.getOrCreateSession]
  cases session : s.sessions.get sessionId with
  | some ref => exact ⟨ref, s, rfl, books, session, fun _ _ => rfl, fun _ _ => rfl⟩
  | none =>
    refine ⟨_, _, rfl, books.createSession session, OrderedMap.get_set_self _ _ _, fun _ _ => rfl,
      fun t other => ?_⟩
    rw [books.entryOf_createSession, if_neg other]

theorem Books.getOrCreatePathMap (session : s.sessions.get sessionId = some ref)
    (connectionId : String) : ∃ id s',
    s.getOrCreatePathMap ref connectionId sessionId = (id, s') ∧ Books s' w ∧
    s'.sessions.get sessionId = some ref ∧
    s'.connSessionRefs connectionId sessionId = some id ∧
    (∀ c t, ¬(c = connectionId ∧ t = sessionId) → s'.connSessionRefs c t = s.connSessionRefs c t) ∧
    ∀ t, t ≠ sessionId → s'.entryOf t = s.entryOf t := by
  rw [FsWatcherService.getOrCreatePathMap]
  cases refs : s.connSessionRefs connectionId sessionId with
  | some id => exact ⟨id, s, rfl, books, session, refs, fun _ _ _ => rfl, fun _ _ => rfl⟩
  | none =>
    obtain ⟨books', refs'⟩ := books.createPathMap session refs
    refine ⟨_, _, rfl, books', session, ?_, fun c t other => ?_, fun t other => ?_⟩
    · rw [refs', if_pos ⟨rfl, rfl⟩]
    · rw [refs', if_neg other]
    · have entries : ∀ (ref' : ℕ), ref' ≠ ref →
          (s.createPathMap ref connectionId sessionId).entries[ref']? = s.entries[ref']? :=
        fun ref' different => List.getElem?_modify_ne _ _ different.symm
      have sessions : (s.createPathMap ref connectionId sessionId).sessions = s.sessions := rfl
      exact books.entryOf_frame session sessions entries t other

theorem addPaths_exact (tidy : Tidy s w)
    (distinct : s.Distinct maxPathsPerConnection (.addPaths sessionId connectionId absPaths)) :
    let s' := (s.addPaths maxPathsPerConnection sessionId connectionId absPaths).2
    let w' := watchStep maxPathsPerConnection w (.addPaths sessionId connectionId absPaths)
    Books s' w' ∧ Tidy s' w' := by
  have books₁ := books.getOrCreate connectionId
  have tidy₁ := tidy.getOrCreate connectionId
  have watched : (s.getOrCreateConnection connectionId).newlyAdded sessionId connectionId absPaths =
      s.newlyAdded sessionId connectionId absPaths :=
    List.filter_congr fun p _ => decide_eq_decide.2 <| not_congr <|
      (books₁.mem_watchedPaths _ _ _).trans (books.mem_watchedPaths _ _ _).symm
  rw [addPaths, watchStep]
  rw [books₁.projectedTotal_eq, watched]
  split
  case isTrue => exact ⟨books₁, tidy₁⟩
  case isFalse fits =>
    have nodup : (s.newlyAdded sessionId connectionId absPaths).Nodup := by
      refine distinct.resolve_left ?_
      rwa [books.projectedTotal_eq]
    rw [books.newWatches_eq]
    split
    case isTrue none' =>
      rw [none', List.map_nil, List.toFinset_nil, Finset.union_empty]
      exact ⟨books₁, tidy₁⟩
    case isFalse some' =>
      obtain ⟨ref, s₂, sessionStage, books₂, session₂, refs₂, entry₂⟩ :=
        books₁.getOrCreateSession sessionId
      rw [sessionStage]
      dsimp only
      obtain ⟨id, s₃, mapStage, books₃, session₃, refs₃, others₃, entry₃⟩ :=
        books₂.getOrCreatePathMap session₂ connectionId
      rw [mapStage]
      have new : ∀ p ∈ s.newlyAdded sessionId connectionId absPaths,
          (connectionId, sessionId, p) ∉ w := by
        intro p mem inside
        have outside := (List.mem_filter.1 mem).2
        exact of_decide_eq_true outside ((books.mem_watchedPaths _ _ _).2 inside)
      obtain ⟨books₄, connections, sessions, entries⟩ :=
        acquirePaths_exact books₃ session₃ refs₃ nodup new
      obtain ⟨p, first⟩ := List.exists_mem_of_ne_nil _ some'
      have here : (connectionId, sessionId, p) ∈ w ∪
          ((s.newlyAdded sessionId connectionId absPaths).map
            fun p => (connectionId, sessionId, p)).toFinset :=
        Finset.mem_union_right _ (List.mem_toFinset.2 (List.mem_map.2 ⟨p, first, rfl⟩))
      refine ⟨books₄, fun c t id' h => ?_, fun t e found => ?_⟩
      · by_cases both : c = connectionId ∧ t = sessionId
        · rw [both.1, both.2]
          exact ⟨p, here⟩
        · rw [connSessionRefs, connections] at h
          obtain ⟨q, mem⟩ := tidy₁.nonempty c t id' <|
            (refs₂ c t).symm.trans ((others₃ c t both).symm.trans h)
          exact ⟨q, Finset.mem_union_left _ mem⟩
      · by_cases same : t = sessionId
        · exact .inl ⟨connectionId, p, same ▸ here⟩
        · rw [books₃.entryOf_frame session₃ sessions entries t same, entry₃ t same,
            entry₂ t same] at found
          refine (tidy₁.opened t e found).imp_left ?_
          rintro ⟨c, q, mem⟩
          exact ⟨c, q, Finset.mem_union_left _ mem⟩

theorem bindSessionCwd_exact (tidy : Tidy s w) (sessionId : String) :
    Books (s.bindSessionCwd sessionId) w ∧ Tidy (s.bindSessionCwd sessionId) w := by
  rw [bindSessionCwd]
  cases session : s.sessions.get sessionId with
  | some => exact ⟨books, tidy⟩
  | none =>
    refine ⟨books.createSession session, tidy.nonempty, fun t e found => ?_⟩
    rw [books.entryOf_createSession] at found
    split at found
    · cases found
      exact .inr rfl
    · exact tidy.opened _ _ found

end

/-! ## Every run -/

theorem watchStep_limit (limit : ∀ c, (w.filter (·.1 = c)).card ≤ maxPathsPerConnection)
    (call : FsCall) (c : String) :
    ((watchStep maxPathsPerConnection w call).filter (·.1 = c)).card ≤ maxPathsPerConnection := by
  have fewer : ∀ {w' : Finset Watch}, w' ⊆ w →
      (w'.filter (·.1 = c)).card ≤ maxPathsPerConnection := fun sub =>
    (Finset.card_le_card (Finset.filter_subset_filter _ sub)).trans (limit c)
  cases call with
  | addPaths sessionId connectionId absPaths =>
    rw [watchStep]
    split
    case isTrue => exact limit c
    case isFalse fits =>
      rw [Finset.filter_union]
      refine (Finset.card_union_le _ _).trans ?_
      by_cases same : c = connectionId
      · subst same
        refine le_trans (Nat.add_le_add_left ?_ _) (not_lt.1 fits)
        exact (Finset.card_filter_le _ _).trans (List.toFinset_card_le _)
      · have nothing : (newWatches w sessionId connectionId absPaths).toFinset.filter (·.1 = c) =
            ∅ := by
          refine Finset.filter_false_of_mem ?_
          rintro x mem rfl
          obtain ⟨p, -, rfl⟩ := List.mem_map.1 (List.mem_filter.1 (List.mem_toFinset.1 mem)).1
          exact same rfl
        rw [nothing, Finset.card_empty, Nat.add_zero]
        exact limit c
  | removePaths | forgetConnection => exact fewer (Finset.filter_subset _ _)
  | bindSessionCwd => exact limit c

theorem step_exact {call : FsCall} (books : Books s w) (tidy : Tidy s w)
    (distinct : s.Distinct maxPathsPerConnection call)
    (next : step maxPathsPerConnection s call = some s') :
    Books s' (watchStep maxPathsPerConnection w call) ∧
      Tidy s' (watchStep maxPathsPerConnection w call) := by
  cases call with
  | addPaths =>
    cases next
    exact addPaths_exact books tidy distinct
  | removePaths sessionId connectionId absPaths =>
    cases next
    obtain ⟨books', tidy', -⟩ := removePaths_exact books tidy sessionId connectionId absPaths
    exact ⟨books', tidy'⟩
  | forgetConnection connectionId =>
    cases next
    exact forgetConnection_exact books tidy connectionId
  | bindSessionCwd sessionId =>
    cases next
    exact bindSessionCwd_exact books tidy sessionId

theorem run_exact {calls : List FsCall}
    (run : Run (step maxPathsPerConnection) (Distinct maxPathsPerConnection) {} calls s) :
    Books s (watching maxPathsPerConnection calls) ∧ Tidy s (watching maxPathsPerConnection calls) ∧
      ∀ c, ((watching maxPathsPerConnection calls).filter (·.1 = c)).card ≤
        maxPathsPerConnection := by
  refine run.invariant_labels (fun calls s => Books s (watching maxPathsPerConnection calls) ∧
    Tidy s (watching maxPathsPerConnection calls) ∧
      ∀ c, ((watching maxPathsPerConnection calls).filter (·.1 = c)).card ≤
        maxPathsPerConnection) ⟨books_init, tidy_init, by simp [watching]⟩ ?_
  rintro calls s call t ⟨books, tidy, limit⟩ distinct next
  have unfold : watching maxPathsPerConnection (calls ++ [call]) =
      watchStep maxPathsPerConnection (watching maxPathsPerConnection calls) call := by
    rw [watching, List.foldl_append, List.foldl_cons, List.foldl_nil, watching]
  obtain ⟨books', tidy'⟩ := step_exact books tidy distinct next
  rw [unfold]
  exact ⟨books', tidy', watchStep_limit limit call⟩

/-- A call that throws on the limit gives no watcher anything to do, and changes no watched path. -/
theorem addPaths_refused {error : FsWatchLimitError}
    (refused : (s.addPaths maxPathsPerConnection sessionId connectionId absPaths).1 =
      .error error) :
    (s.addPaths maxPathsPerConnection sessionId connectionId absPaths).2.entries = s.entries ∧
      ∀ c t, (s.addPaths maxPathsPerConnection sessionId connectionId absPaths).2.watchedPaths c t =
        s.watchedPaths c t := by
  rw [addPaths] at refused ⊢
  dsimp only at refused ⊢
  split at refused
  case isFalse => split at refused <;> cases refused
  case isTrue beyond =>
    rw [if_pos beyond]
    refine ⟨entries_getOrCreate, fun c t => ?_⟩
    rw [watchedPaths, watchedPaths, connSessionRefs_getOrCreate]
    cases s.connSessionRefs c t with
    | none => rfl
    | some =>
      dsimp only
      rw [pathMap, pathMap, pathMaps_getOrCreate]

theorem fs_watcher_exact (maxPathsPerConnection : ℕ) {calls : List FsCall} {s : FsWatcherService}
    (run : Run (step maxPathsPerConnection) (Distinct maxPathsPerConnection) {} calls s) :
    Exact maxPathsPerConnection s (watching maxPathsPerConnection calls) ∧
    ∀ sessionId connectionId absPaths error,
      (s.addPaths maxPathsPerConnection sessionId connectionId absPaths).1 = .error error →
      (s.addPaths maxPathsPerConnection sessionId connectionId absPaths).2.entries = s.entries ∧
      ∀ c t, (s.addPaths maxPathsPerConnection sessionId connectionId absPaths).2.watchedPaths c t =
        s.watchedPaths c t := by
  obtain ⟨books, tidy, limit⟩ := run_exact run
  exact ⟨books.exact tidy limit, fun _ _ _ _ refused => addPaths_refused refused⟩

/-- Two connections watch a path, and leave it one after the other. -/
theorem fs_watcher_exact_shared : ∃ s, s.watchedPaths "b" "s" = [] ∧ Exact 2 s ∅ := by
  let calls : List FsCall := [.addPaths "s" "a" ["/p", "/q"], .addPaths "s" "b" ["/p"],
    .removePaths "s" "a" ["/p", "/q"], .forgetConnection "b"]
  obtain ⟨s, executed⟩ : ∃ s, exec (guarded (step 2) (Distinct 2)) {} calls = some s :=
    ⟨_, rfl⟩
  have nothing : watching 2 calls = ∅ := by decide
  have exact' := (fs_watcher_exact 2 (Run.of_exec executed)).1
  rw [nothing] at exact'
  exact ⟨s, List.eq_nil_iff_forall_not_mem.2 fun p mem =>
    Finset.notMem_empty _ (((exact'.watched _ _).2 p).1 mem), exact'⟩

/-- After a path that was named twice is removed, nobody watches it, and it is still held. -/
theorem path_named_twice_leaks : ¬∀ calls s, Run (step 100) Always {} calls s →
    Exact 100 s (watching 100 calls) := by
  intro all
  let added := (addPaths {} 100 "s" "c" ["/p", "/p"]).2
  let removed := (added.removePaths "s" "c" ["/p"]).2
  have run : Run (step 100) Always {}
      [.addPaths "s" "c" ["/p", "/p"], .removePaths "s" "c" ["/p"]] removed :=
    .snoc (.snoc .nil trivial rfl) trivial rfl
  have nothing : watching 100
      [.addPaths "s" "c" ["/p", "/p"], .removePaths "s" "c" ["/p"]] = ∅ := by decide
  have held : (removed.entryOf "s").map (·.pathRefs.held) = some ["/p"] := by decide
  obtain ⟨e, found, watcher⟩ := Option.map_eq_some_iff.1 held
  have exact' := all _ _ run
  rw [nothing] at exact'
  have inside : "/p" ∈ e.pathRefs.held := by
    rw [watcher]
    exact List.mem_singleton_self _
  obtain ⟨c, mem⟩ := ((exact'.held _ _ found).2 "/p").1 inside
  exact Finset.notMem_empty _ mem

end FsWatcherService

end KimiCli.Fs
