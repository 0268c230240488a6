import KimiCli.Fs.WatcherService
import Mathlib.Data.Finset.Card

/-!
# The books of the file watcher service

The indexes, the maps of references and the reference counts of a state all say the same as one set
of watches, each a connection, a session and a path (`Books`).  Every part of an operation keeps
them so.
-/

namespace KimiCli.Fs

/-- A connection, a session, and a path that the connection watches in the session. -/
abbrev Watch := String × String × String

namespace FsWatcherService

/-- The number of connections that watch a path. -/
def watchers (w : Finset Watch) (sessionId path : String) : ℕ :=
  (w.filter fun x => x.2 = (sessionId, path)).card

def entryOf (s : FsWatcherService) (sessionId : String) : Option SessionEntry :=
  (s.sessions.get sessionId).bind (s.entries[·]?)

structure Books (s : FsWatcherService) (w : Finset Watch) : Prop where
  indexes : ∀ c t, s.connSessionRefs c t = (s.entryOf t).bind (·.connectionPathRefs.get c)
  injective : ∀ c t c' t' id, s.connSessionRefs c t = some id → s.connSessionRefs c' t' = some id →
    c = c' ∧ t = t'
  valid : ∀ c t id, s.connSessionRefs c t = some id → id < s.pathMaps.length
  sole : ∀ t t' ref, s.sessions.get t = some ref → s.sessions.get t' = some ref → t = t'
  live : ∀ t ref, s.sessions.get t = some ref → ∃ e, s.entries[ref]? = some e ∧ e.disposed = false
  owner : ∀ c t id p ref, s.connSessionRefs c t = some id → (s.pathMap id).get p = some ref →
    s.sessions.get t = some ref
  watches : ∀ c t p, (c, t, p) ∈ w ↔
    ∃ id ref, s.connSessionRefs c t = some id ∧ (s.pathMap id).get p = some ref
  counts : ∀ t e, s.entryOf t = some e → e.pathRefs.Counts (watchers w t)
  closed : ∀ (ref : ℕ) e, s.entries[ref]? = some e → (∀ t, s.sessions.get t ≠ some ref) →
    e.pathRefs.watcher.getLast? = some .close

/-- Nothing is kept for a connection that watches nothing, and a watcher that nobody uses was never
given a path. -/
structure Tidy (s : FsWatcherService) (w : Finset Watch) : Prop where
  nonempty : ∀ c t id, s.connSessionRefs c t = some id → ∃ p, (c, t, p) ∈ w
  opened : ∀ t e, s.entryOf t = some e →
    (∃ c p, (c, t, p) ∈ w) ∨ e.pathRefs.watcher = []

variable {s s' : FsWatcherService} {w : Finset Watch} {sessionId connectionId path : String}
  {ref id : ℕ} {e : SessionEntry}

theorem books_init : Books {} ∅ where
  indexes := by simp [connSessionRefs, entryOf]
  injective := by simp [connSessionRefs]
  valid := by simp [connSessionRefs]
  sole := by simp
  live := by simp
  owner := by simp [connSessionRefs]
  watches := by simp [connSessionRefs]
  counts := by simp [entryOf]
  closed := by simp

theorem tidy_init : Tidy {} ∅ where
  nonempty := by simp [connSessionRefs]
  opened := by simp [entryOf]

theorem Books.entry (books : Books s w) (session : s.sessions.get sessionId = some ref) :
    ∃ e, s.entryOf sessionId = some e ∧ s.entries[ref]? = some e ∧ e.disposed = false := by
  obtain ⟨e, found, open'⟩ := books.live _ _ session
  exact ⟨e, by rw [entryOf, session, Option.bind_some, found], found, open'⟩

theorem Books.session (books : Books s w)
    (refs : s.connSessionRefs connectionId sessionId = some id) :
    ∃ ref, s.sessions.get sessionId = some ref := by
  rw [books.indexes] at refs
  obtain ⟨e, found, -⟩ := Option.bind_eq_some_iff.1 refs
  obtain ⟨ref, session, -⟩ := Option.bind_eq_some_iff.1 found
  exact ⟨ref, session⟩

theorem Books.congr (books : Books s w) (entries : s'.entries = s.entries)
    (sessions : s'.sessions = s.sessions) (pathMaps : s'.pathMaps = s.pathMaps)
    (refs : ∀ c t, s'.connSessionRefs c t = s.connSessionRefs c t) : Books s' w := by
  have entry : ∀ t, s'.entryOf t = s.entryOf t := fun t => by
    rw [entryOf, entryOf, entries, sessions]
  have map : ∀ id, s'.pathMap id = s.pathMap id := fun id => by rw [pathMap, pathMap, pathMaps]
  constructor
  · simpa only [refs, entry] using books.indexes
  · simpa only [refs] using books.injective
  · simpa only [refs, pathMaps] using books.valid
  · simpa only [sessions] using books.sole
  · simpa only [sessions, entries] using books.live
  · simpa only [refs, map, sessions] using books.owner
  · simpa only [refs, map] using books.watches
  · simpa only [entry] using books.counts
  · simpa only [entries, sessions] using books.closed

theorem Tidy.congr (tidy : Tidy s w) (entries : s'.entries = s.entries)
    (sessions : s'.sessions = s.sessions)
    (refs : ∀ c t, s'.connSessionRefs c t = s.connSessionRefs c t) : Tidy s' w := by
  have entry : ∀ t, s'.entryOf t = s.entryOf t := fun t => by
    rw [entryOf, entryOf, entries, sessions]
  constructor
  · simpa only [refs] using tidy.nonempty
  · simpa only [entry] using tidy.opened

theorem Books.entryOf_modify (books : Books s w) {update : SessionEntry → SessionEntry}
    (session : s.sessions.get sessionId = some ref) (sessions : s'.sessions = s.sessions)
    (entries : s'.entries = s.entries.modify ref update) (t : String) :
    s'.entryOf t = if t = sessionId then (s.entryOf t).map update else s.entryOf t := by
  rw [entryOf, entryOf, sessions, entries]
  split
  case isTrue same =>
    subst same
    rw [session, Option.bind_some, Option.bind_some, List.getElem?_modify_eq]
    rfl
  case isFalse other =>
    cases found : s.sessions.get t with
    | none => rfl
    | some ref' =>
      have different : ref ≠ ref' := by
        rintro rfl
        exact other (books.sole _ _ _ found session)
      rw [Option.bind_some, Option.bind_some, List.getElem?_modify_ne _ _ different]

/-! ## Indexes -/

theorem connSessionRefs_set (m : OrderedMap String ℕ) (c t : String) :
    ({ s with connections := s.connections.set connectionId m } : FsWatcherService).connSessionRefs
      c t = if c = connectionId then m.get t else s.connSessionRefs c t := by
  rw [connSessionRefs]
  split
  case isTrue same => rw [same, OrderedMap.get_set_self, Option.bind_some]
  case isFalse other => rw [OrderedMap.get_set_ne _ _ other, connSessionRefs]

theorem connSessionRefs_delete (c t : String) :
    ({ s with connections := s.connections.delete connectionId } :
      FsWatcherService).connSessionRefs c t =
        if c = connectionId then none else s.connSessionRefs c t := by
  rw [connSessionRefs]
  split
  case isTrue same => rw [same, OrderedMap.get_delete_self, Option.bind_none]
  case isFalse other => rw [OrderedMap.get_delete_ne _ other, connSessionRefs]

theorem connSessionRefs_eq (c t : String) :
    s.connSessionRefs c t = ((s.connections.get c).getD ∅).get t := by
  rw [connSessionRefs]
  cases s.connections.get c <;> rfl

theorem connSessionRefs_getOrCreate (c t : String) :
    (s.getOrCreateConnection connectionId).connSessionRefs c t = s.connSessionRefs c t := by
  rw [getOrCreateConnection]
  split
  · rfl
  case h_2 absent =>
    rw [connSessionRefs_set]
    split
    case isTrue same => rw [same, connSessionRefs, absent, Option.bind_none, OrderedMap.get_empty]
    case isFalse => rfl

theorem entries_getOrCreate : (s.getOrCreateConnection connectionId).entries = s.entries := by
  rw [getOrCreateConnection]
  split <;> rfl

theorem sessions_getOrCreate : (s.getOrCreateConnection connectionId).sessions = s.sessions := by
  rw [getOrCreateConnection]
  split <;> rfl

theorem pathMaps_getOrCreate : (s.getOrCreateConnection connectionId).pathMaps = s.pathMaps := by
  rw [getOrCreateConnection]
  split <;> rfl

theorem Books.getOrCreate (books : Books s w) (connectionId : String) :
    Books (s.getOrCreateConnection connectionId) w :=
  books.congr entries_getOrCreate sessions_getOrCreate pathMaps_getOrCreate
    connSessionRefs_getOrCreate

theorem Tidy.getOrCreate (tidy : Tidy s w) (connectionId : String) :
    Tidy (s.getOrCreateConnection connectionId) w :=
  tidy.congr entries_getOrCreate sessions_getOrCreate connSessionRefs_getOrCreate

theorem connSessionRefs_forget (free : ∀ t, s.connSessionRefs connectionId t = none)
    (c t : String) :
    ({ s with connections := s.connections.delete connectionId } :
      FsWatcherService).connSessionRefs c t = s.connSessionRefs c t := by
  rw [connSessionRefs_delete]
  split
  case isTrue same => rw [same, free]
  case isFalse => rfl

/-! ## New entries and maps -/

theorem Books.entryOf_createSession (books : Books s w) (t : String) :
    (s.createSession sessionId).entryOf t = if t = sessionId then some {} else s.entryOf t := by
  rw [entryOf, FsWatcherService.createSession]
  split
  case isTrue same => rw [same, OrderedMap.get_set_self, Option.bind_some,
    List.getElem?_concat_length]
  case isFalse other =>
    rw [OrderedMap.get_set_ne _ _ other, entryOf]
    cases found : s.sessions.get t with
    | none => rfl
    | some =>
      obtain ⟨e, inside, -⟩ := books.live _ _ found
      have bound := (List.getElem?_eq_some_iff.1 inside).1
      rw [Option.bind_some, Option.bind_some, List.getElem?_append_left bound]

theorem Books.createSession (books : Books s w) (absent : s.sessions.get sessionId = none) :
    Books (s.createSession sessionId) w := by
  have entry : ∀ t, (s.createSession sessionId).entryOf t =
      if t = sessionId then some {} else s.entryOf t := books.entryOf_createSession
  have free : ∀ c, s.connSessionRefs c sessionId = none := fun c => by
    rw [books.indexes, entryOf, absent, Option.bind_none, Option.bind_none]
  have unwatched : ∀ c p, (c, sessionId, p) ∉ w := fun c p mem => by
    obtain ⟨id, ref, refs, -⟩ := (books.watches _ _ _).1 mem
    rw [free] at refs
    cases refs
  have bound : ∀ t ref, s.sessions.get t = some ref → ref < s.entries.length := fun t ref found =>
    let ⟨_, inside, _⟩ := books.live _ _ found
    (List.getElem?_eq_some_iff.1 inside).1
  refine ⟨fun c t => ?_, books.injective, books.valid, fun t t' ref h h' => ?_, fun t ref h => ?_,
    fun c t id p ref refs found => ?_, books.watches, fun t e found => ?_, fun ref e found no => ?_⟩
  · rw [entry]
    split
    case isTrue same =>
      subst same
      exact free c
    case isFalse => exact books.indexes c t
  · rw [FsWatcherService.createSession] at h h'
    by_cases same : t = sessionId <;> by_cases same' : t' = sessionId
    · rw [same, same']
    · subst same
      rw [OrderedMap.get_set_self, Option.some_inj] at h
      rw [OrderedMap.get_set_ne _ _ same'] at h'
      exact absurd (bound _ _ h') (h ▸ lt_irrefl _)
    · subst same'
      rw [OrderedMap.get_set_self, Option.some_inj] at h'
      rw [OrderedMap.get_set_ne _ _ same] at h
      exact absurd (bound _ _ h) (h' ▸ lt_irrefl _)
    · rw [OrderedMap.get_set_ne _ _ same] at h
      rw [OrderedMap.get_set_ne _ _ same'] at h'
      exact books.sole _ _ _ h h'
  · rw [FsWatcherService.createSession] at h ⊢
    by_cases same : t = sessionId
    · subst same
      rw [OrderedMap.get_set_self, Option.some_inj] at h
      subst h
      exact ⟨{}, List.getElem?_concat_length, rfl⟩
    · rw [OrderedMap.get_set_ne _ _ same] at h
      obtain ⟨e, inside, open'⟩ := books.live _ _ h
      exact ⟨e, by rw [List.getElem?_append_left (bound _ _ h), inside], open'⟩
  · have session := books.owner _ _ _ _ _ refs found
    have other : t ≠ sessionId := by
      rintro rfl
      rw [absent] at session
      cases session
    rw [FsWatcherService.createSession, OrderedMap.get_set_ne _ _ other]
    exact session
  · rw [entry] at found
    split at found
    case isTrue same =>
      subst same
      cases found
      have none' : watchers w t = fun _ => 0 := by
        funext p
        rw [watchers, Finset.card_eq_zero, Finset.filter_eq_empty_iff]
        rintro ⟨c, t', p'⟩ mem same
        cases same
        exact unwatched c _ mem
      rw [none']
      exact PathReferenceCollection.counts_init
    case isFalse => exact books.counts _ _ found
  · rw [FsWatcherService.createSession] at found no
    have old : ref < s.entries.length := by
      by_contra new
      have inside := (List.getElem?_eq_some_iff.1 found).1
      rw [List.length_append, List.length_singleton] at inside
      have last : ref = s.entries.length := by omega
      exact no sessionId (by rw [OrderedMap.get_set_self, last])
    rw [List.getElem?_append_left old] at found
    refine books.closed _ _ found fun t h => no t ?_
    rw [OrderedMap.get_set_ne]
    · exact h
    · rintro rfl
      rw [absent] at h
      cases h

theorem Books.createPathMap (books : Books s w) (session : s.sessions.get sessionId = some ref)
    (free : s.connSessionRefs connectionId sessionId = none) :
    Books (s.createPathMap ref connectionId sessionId) w ∧ ∀ c t,
      (s.createPathMap ref connectionId sessionId).connSessionRefs c t =
        if c = connectionId ∧ t = sessionId then some s.pathMaps.length
        else s.connSessionRefs c t := by
  have refs : ∀ c t, (s.createPathMap ref connectionId sessionId).connSessionRefs c t =
      if c = connectionId ∧ t = sessionId then some s.pathMaps.length
      else s.connSessionRefs c t := by
    intro c t
    refine (connSessionRefs_set _ c t).trans ?_
    by_cases conn : c = connectionId
    · subst conn
      rw [if_pos rfl]
      by_cases sess : t = sessionId
      · rw [if_pos ⟨rfl, sess⟩, sess, OrderedMap.get_set_self]
      · rw [if_neg fun both => sess both.2, OrderedMap.get_set_ne _ _ sess, ← connSessionRefs_eq]
    · rw [if_neg conn, if_neg fun both => conn both.1]
  have entry : ∀ t, (s.createPathMap ref connectionId sessionId).entryOf t =
      if t = sessionId then (s.entryOf t).map fun e => { e with
        connectionPathRefs := e.connectionPathRefs.set connectionId s.pathMaps.length }
      else s.entryOf t := books.entryOf_modify session rfl rfl
  have map : ∀ id, (s.createPathMap ref connectionId sessionId).pathMap id = s.pathMap id := by
    intro id
    rw [pathMap, pathMap, FsWatcherService.createPathMap]
    rcases lt_trichotomy id s.pathMaps.length with inside | last | outside
    · rw [List.getElem?_append_left inside]
    · rw [last, List.getElem?_concat_length, List.getElem?_eq_none le_rfl]
      rfl
    · rw [List.getElem?_eq_none, List.getElem?_eq_none outside.le]
      rw [List.length_append, List.length_singleton]
      exact outside
  have fresh : ∀ c t, s.connSessionRefs c t ≠ some s.pathMaps.length := fun c t h =>
    lt_irrefl _ (books.valid _ _ _ h)
  have empty : ∀ p, (s.pathMap s.pathMaps.length).get p = none := fun p => by
    rw [pathMap, List.getElem?_eq_none le_rfl]
    rfl
  refine ⟨⟨fun c t => ?_, fun c t c' t' id h h' => ?_, fun c t id h => ?_, books.sole,
    fun t ref' h => ?_, fun c t id p ref' h found => ?_, fun c t p => ?_, fun t e found => ?_,
    fun ref' e found no => ?_⟩, refs⟩
  · rw [refs, entry, books.indexes]
    obtain ⟨e, found, -⟩ := books.entry session
    by_cases sess : t = sessionId
    · subst sess
      rw [if_pos rfl, found]
      by_cases conn : c = connectionId
      · subst conn
        rw [if_pos ⟨rfl, rfl⟩]
        exact (OrderedMap.get_set_self _ _ _).symm
      · rw [if_neg fun both => conn both.1]
        exact (OrderedMap.get_set_ne _ _ conn).symm
    · rw [if_neg sess, if_neg fun both => sess both.2]
  · rw [refs] at h h'
    split at h <;> split at h'
    case isTrue.isTrue same same' => exact ⟨same.1.trans same'.1.symm, same.2.trans same'.2.symm⟩
    case isTrue.isFalse => exact absurd (h'.trans h.symm) (fresh _ _)
    case isFalse.isTrue => exact absurd (h.trans h'.symm) (fresh _ _)
    case isFalse.isFalse => exact books.injective _ _ _ _ _ h h'
  · rw [refs] at h
    have grown : (s.createPathMap ref connectionId sessionId).pathMaps.length =
        s.pathMaps.length + 1 := List.length_append
    rw [grown]
    split at h
    · cases h
      exact Nat.lt_succ_self _
    · exact Nat.lt_succ_of_lt (books.valid _ _ _ h)
  · obtain ⟨e, inside, open'⟩ := books.live _ _ h
    change ∃ e', (s.entries.modify ref _)[ref']? = some e' ∧ _
    rw [List.getElem?_modify, inside]
    split
    · exact ⟨_, rfl, open'⟩
    · exact ⟨_, rfl, open'⟩
  · rw [map] at found
    rw [refs] at h
    split at h
    · cases h
      rw [empty] at found
      cases found
    · exact books.owner _ _ _ _ _ h found
  · rw [books.watches]
    simp only [map, refs]
    split
    case isTrue same =>
      rw [same.1, same.2, free]
      simp [empty]
    case isFalse => rfl
  · rw [entry] at found
    split at found
    · obtain ⟨e', found', rfl⟩ := Option.map_eq_some_iff.1 found
      exact books.counts _ e' found'
    · exact books.counts _ _ found
  · have other : ref ≠ ref' := fun same => no sessionId (same ▸ session)
    change (s.entries.modify ref _)[ref']? = _ at found
    rw [List.getElem?_modify_ne _ _ other] at found
    exact books.closed _ _ found no

/-! ## References -/

/-- The map of one connection in one session, and the reference counts of its entry, are exchanged
for those of other watches. -/
theorem Books.modifyPaths {w' : Finset Watch} {m : OrderedMap String ℕ}
    {u : PathReferenceCollection → PathReferenceCollection} (books : Books s w)
    (session : s.sessions.get sessionId = some ref)
    (refs : s.connSessionRefs connectionId sessionId = some id)
    (sessions : s'.sessions = s.sessions) (connections : s'.connections = s.connections)
    (entries : s'.entries =
      s.entries.modify ref fun e => { e with pathRefs := u e.pathRefs })
    (pathMaps : s'.pathMaps = s.pathMaps.set id m)
    (owner : ∀ p ref', m.get p = some ref' → ref' = ref)
    (same : ∀ p, (connectionId, sessionId, p) ∈ w' ↔ ∃ ref', m.get p = some ref')
    (others : ∀ c t p, ¬(c = connectionId ∧ t = sessionId) → ((c, t, p) ∈ w' ↔ (c, t, p) ∈ w))
    (counts : ∀ c : PathReferenceCollection, c.Counts (watchers w sessionId) →
      (u c).Counts (watchers w' sessionId)) : Books s' w' := by
  have refs' : ∀ c t, s'.connSessionRefs c t = s.connSessionRefs c t := fun c t => by
    rw [connSessionRefs, connSessionRefs, connections]
  have entry := books.entryOf_modify session sessions entries
  have map : ∀ c t id', s.connSessionRefs c t = some id' →
      ¬(c = connectionId ∧ t = sessionId) → s'.pathMap id' = s.pathMap id' := by
    intro c t id' h other
    rw [pathMap, pathMap, pathMaps, List.getElem?_set_ne]
    rintro rfl
    exact other (books.injective _ _ _ _ _ h refs)
  have here : s'.pathMap id = m := by
    rw [pathMap, pathMaps, List.getElem?_set_self (books.valid _ _ _ refs)]
    rfl
  refine ⟨fun c t => ?_, ?_, ?_, ?_, fun t ref' h => ?_, fun c t id' p ref' h found => ?_,
    fun c t p => ?_, fun t e found => ?_, fun ref' e found no => ?_⟩
  · rw [refs', entry, books.indexes]
    split
    · cases s.entryOf t <;> rfl
    · rfl
  · simpa only [refs'] using books.injective
  · simpa only [refs', pathMaps, List.length_set] using books.valid
  · simpa only [sessions] using books.sole
  · rw [sessions] at h
    obtain ⟨e, inside, open'⟩ := books.live _ _ h
    rw [entries, List.getElem?_modify, inside]
    split
    · exact ⟨_, rfl, open'⟩
    · exact ⟨_, rfl, open'⟩
  · rw [refs'] at h
    rw [sessions]
    by_cases both : c = connectionId ∧ t = sessionId
    · obtain ⟨rfl, rfl⟩ := both
      cases refs.symm.trans h
      rw [here] at found
      rw [owner _ _ found]
      exact session
    · rw [map _ _ _ h both] at found
      exact books.owner _ _ _ _ _ h found
  · by_cases both : c = connectionId ∧ t = sessionId
    · obtain ⟨rfl, rfl⟩ := both
      rw [same]
      constructor
      · rintro ⟨ref', found⟩
        exact ⟨id, ref', (refs' _ _).trans refs, by rwa [here]⟩
      · rintro ⟨id', ref', h, found⟩
        rw [refs', refs, Option.some_inj] at h
        subst h
        exact ⟨ref', by rwa [here] at found⟩
    · rw [others _ _ _ both, books.watches]
      constructor
      · rintro ⟨id', ref', h, found⟩
        exact ⟨id', ref', (refs' _ _).trans h, by rwa [map _ _ _ h both]⟩
      · rintro ⟨id', ref', h, found⟩
        rw [refs'] at h
        exact ⟨id', ref', h, by rwa [map _ _ _ h both] at found⟩
  · rw [entry] at found
    split at found
    case isTrue same' =>
      subst same'
      obtain ⟨e', found', rfl⟩ := Option.map_eq_some_iff.1 found
      exact counts _ (books.counts _ e' found')
    case isFalse other =>
      have unchanged : watchers w' t = watchers w t := by
        funext p
        refine congrArg Finset.card (Finset.ext ?_)
        rintro ⟨c, t', p'⟩
        rw [Finset.mem_filter, Finset.mem_filter]
        refine and_congr_left fun this => ?_
        cases this
        exact others _ _ _ fun both => other both.2
      rw [unchanged]
      exact books.counts _ _ found
  · rw [sessions] at no
    have other : ref ≠ ref' := fun eq => no sessionId (eq ▸ session)
    rw [entries, List.getElem?_modify_ne _ _ other] at found
    exact books.closed _ _ found no

theorem watchers_insert {w : Finset Watch} (new : (connectionId, sessionId, path) ∉ w) :
    watchers (insert (connectionId, sessionId, path) w) sessionId =
      Function.update (watchers w sessionId) path (watchers w sessionId path + 1) := by
  funext p
  rw [watchers, Finset.filter_insert]
  by_cases same : p = path
  · subst same
    rw [if_pos rfl, Function.update_self, Finset.card_insert_of_notMem, watchers]
    exact fun mem => new (Finset.mem_of_mem_filter _ mem)
  · rw [if_neg fun eq => same (Prod.mk.inj eq).2.symm, Function.update_of_ne same, watchers]

theorem watchers_erase {w : Finset Watch} (mem : (connectionId, sessionId, path) ∈ w) :
    watchers (w.erase (connectionId, sessionId, path)) sessionId =
      Function.update (watchers w sessionId) path (watchers w sessionId path - 1) ∧
    watchers w sessionId path ≠ 0 := by
  have inside : (connectionId, sessionId, path) ∈ w.filter (·.2 = (sessionId, path)) :=
    Finset.mem_filter.2 ⟨mem, rfl⟩
  refine ⟨?_, Finset.card_ne_zero_of_mem inside⟩
  funext p
  rw [watchers, Finset.filter_erase]
  by_cases same : p = path
  · subst same
    rw [Function.update_self, Finset.card_erase_of_mem inside, watchers]
  · rw [Function.update_of_ne same, Finset.erase_eq_of_notMem, watchers]
    intro other
    have eq := (Finset.mem_filter.1 other).2
    exact same (Prod.mk.inj eq).2.symm

theorem Books.acquirePath (books : Books s w) (session : s.sessions.get sessionId = some ref)
    (refs : s.connSessionRefs connectionId sessionId = some id)
    (new : (connectionId, sessionId, path) ∉ w) :
    Books (acquirePath ref id s path) (insert (connectionId, sessionId, path) w) := by
  have bound := books.valid _ _ _ refs
  refine books.modifyPaths (m := (s.pathMap id).set path ref)
    (u := fun c => c.acquire path) session refs rfl rfl rfl ?_ ?_ ?_ ?_ ?_
  · change s.pathMaps.modify id _ = _
    rw [List.modify_eq_set_getElem?, pathMap, List.getElem?_eq_getElem bound]
    rfl
  · intro p ref' found
    by_cases same : p = path
    · subst same
      rw [OrderedMap.get_set_self] at found
      exact (Option.some.inj found).symm
    · rw [OrderedMap.get_set_ne _ _ same] at found
      have owner := books.owner _ _ _ _ _ refs found
      exact Option.some.inj (owner.symm.trans session)
  · intro p
    rw [Finset.mem_insert]
    by_cases same : p = path
    · subst same
      exact iff_of_true (.inl rfl) ⟨ref, OrderedMap.get_set_self _ _ _⟩
    · rw [OrderedMap.get_set_ne _ _ same, books.watches]
      constructor
      · rintro (eq | ⟨id', ref', h, found⟩)
        · exact absurd (by cases eq; rfl) same
        · rw [refs, Option.some_inj] at h
          subst h
          exact ⟨ref', found⟩
      · rintro ⟨ref', found⟩
        exact .inr ⟨id, ref', refs, found⟩
  · intro c t p other
    rw [Finset.mem_insert]
    refine or_iff_right fun eq => other ?_
    cases eq
    exact ⟨rfl, rfl⟩
  · intro c counts
    rw [watchers_insert new]
    exact counts.acquire path

theorem Books.releasePath (books : Books s w)
    (refs : s.connSessionRefs connectionId sessionId = some id)
    (found : (s.pathMap id).get path = some ref) :
    Books { s with
      pathMaps := s.pathMaps.set id ((s.pathMap id).delete path)
      entries := disposeRef s.entries (path, ref) } (w.erase (connectionId, sessionId, path)) := by
  have mem : (connectionId, sessionId, path) ∈ w := (books.watches _ _ _).2 ⟨id, ref, refs, found⟩
  have session := books.owner _ _ _ _ _ refs found
  obtain ⟨erased, positive⟩ := watchers_erase mem
  refine books.modifyPaths (m := (s.pathMap id).delete path)
    (u := fun c => c.release path) session refs rfl rfl rfl rfl ?_ ?_ ?_ ?_
  · intro p ref' found'
    by_cases same : p = path
    · subst same
      rw [OrderedMap.get_delete_self] at found'
      cases found'
    · rw [OrderedMap.get_delete_ne _ same] at found'
      have owner := books.owner _ _ _ _ _ refs found'
      exact Option.some.inj (owner.symm.trans session)
  · intro p
    rw [Finset.mem_erase, books.watches]
    by_cases same : p = path
    · subst same
      rw [OrderedMap.get_delete_self]
      exact iff_of_false (fun both => both.1 rfl) (by simp)
    · rw [OrderedMap.get_delete_ne _ same]
      constructor
      · rintro ⟨-, id', ref', h, found'⟩
        rw [refs, Option.some_inj] at h
        subst h
        exact ⟨ref', found'⟩
      · rintro ⟨ref', found'⟩
        exact ⟨fun eq => same (by cases eq; rfl), id, ref', refs, found'⟩
  · intro c t p other
    rw [Finset.mem_erase]
    refine and_iff_right fun eq => other ?_
    cases eq
    exact ⟨rfl, rfl⟩
  · intro c counts
    rw [erased]
    exact counts.release positive

/-- The watches without those of one connection for some paths of a session. -/
def unwatch (w : Finset Watch) (sessionId connectionId : String) (absPaths : List String) :
    Finset Watch :=
  w.filter fun x => ¬(x.1 = connectionId ∧ x.2.1 = sessionId ∧ x.2.2 ∈ absPaths)

variable {absPaths : List String}

theorem mem_unwatch {w : Finset Watch} {x : Watch} :
    x ∈ unwatch w sessionId connectionId absPaths ↔
      x ∈ w ∧ ¬(x.1 = connectionId ∧ x.2.1 = sessionId ∧ x.2.2 ∈ absPaths) := Finset.mem_filter

theorem unwatch_nil (w : Finset Watch) : unwatch w sessionId connectionId [] = w := by
  simp [unwatch]

theorem unwatch_cons_of_notMem {w : Finset Watch} (absent : (connectionId, sessionId, path) ∉ w) :
    unwatch w sessionId connectionId (path :: absPaths) =
      unwatch w sessionId connectionId absPaths := by
  ext ⟨c, t, p⟩
  simp only [mem_unwatch, List.mem_cons]
  refine and_congr_right fun mem => not_congr (and_congr_right fun conn =>
    and_congr_right fun sess => or_iff_right fun same => absent ?_)
  rwa [← conn, ← sess, ← same]

theorem unwatch_erase {w : Finset Watch} :
    unwatch (w.erase (connectionId, sessionId, path)) sessionId connectionId absPaths =
      unwatch w sessionId connectionId (path :: absPaths) := by
  ext ⟨c, t, p⟩
  simp only [mem_unwatch, Finset.mem_erase, List.mem_cons, ne_eq, Prod.mk.injEq]
  tauto

/-- The references that `removePaths` disposes of are those of the paths that the connection
watches. -/
theorem Books.takeRefs (books : Books s w)
    (refs : s.connSessionRefs connectionId sessionId = some id) (absPaths : List String) :
    Books { s with
      pathMaps := s.pathMaps.set id (takeRefs (s.pathMap id) absPaths).2
      entries := (takeRefs (s.pathMap id) absPaths).1.foldl disposeRef s.entries }
      (unwatch w sessionId connectionId absPaths) := by
  have bound := books.valid _ _ _ refs
  induction absPaths generalizing s w with
  | nil =>
    have same : s.pathMaps.set id (s.pathMap id) = s.pathMaps := by
      rw [pathMap, List.getElem?_eq_getElem bound, Option.getD_some, List.set_getElem_self]
    rw [unwatch_nil]
    exact books.congr rfl rfl same fun _ _ => rfl
  | cons path absPaths ih =>
    rw [FsWatcherService.takeRefs]
    split
    case h_1 ref found =>
      have step := books.releasePath refs found
      have here : (pathMap { s with
          pathMaps := s.pathMaps.set id ((s.pathMap id).delete path)
          entries := disposeRef s.entries (path, ref) } id) = (s.pathMap id).delete path := by
        rw [pathMap, List.getElem?_set_self bound]
        rfl
      have rest := ih step refs (by rwa [List.length_set])
      rw [here, unwatch_erase] at rest
      refine rest.congr rfl rfl ?_ fun _ _ => rfl
      rw [List.set_set]
    case h_2 absent =>
      rw [unwatch_cons_of_notMem]
      · exact ih books refs bound
      · intro mem
        obtain ⟨id', ref', h, found⟩ := (books.watches _ _ _).1 mem
        rw [refs, Option.some_inj] at h
        subst h
        rw [absent] at found
        cases found

/-! ## Leaving the indexes -/

theorem connSessionRefs_leave (m : OrderedMap String ℕ) (c t : String) :
    ({ s with connections :=
      if m.entries = [] then s.connections.delete connectionId
      else s.connections.set connectionId m } : FsWatcherService).connSessionRefs c t =
        if c = connectionId then m.get t else s.connSessionRefs c t := by
  by_cases last : m.entries = []
  · have nothing : m = ∅ := OrderedMap.ext last
    rw [if_pos last, connSessionRefs_delete, nothing, OrderedMap.get_empty]
  · rw [if_neg last, connSessionRefs_set]

theorem connSessionRefs_dropPathMap (c t : String) :
    (s.dropPathMap ref id connectionId sessionId).connSessionRefs c t =
      if (s.pathMap id).entries = [] ∧ c = connectionId ∧ t = sessionId then none
      else s.connSessionRefs c t := by
  rw [dropPathMap]
  by_cases empty : (s.pathMap id).entries = []
  · rw [if_pos empty]
    have deleted : (((s.connections.get connectionId).getD ∅).delete sessionId).get t =
        if t = sessionId then none else s.connSessionRefs connectionId t := by
      split
      case isTrue same => rw [same, OrderedMap.get_delete_self]
      case isFalse other => rw [OrderedMap.get_delete_ne _ other, ← connSessionRefs_eq]
    refine (connSessionRefs_leave _ c t).trans ?_
    rw [deleted]
    by_cases conn : c = connectionId
    · subst conn
      simp [empty]
    · rw [if_neg conn, if_neg fun all => conn all.2.1]
      rfl
  · rw [if_neg empty, if_neg fun all => empty all.1]

theorem Books.dropPathMap (books : Books s w) (session : s.sessions.get sessionId = some ref)
    (refs : s.connSessionRefs connectionId sessionId = some id) :
    Books (s.dropPathMap ref id connectionId sessionId) w := by
  by_cases empty : (s.pathMap id).entries = []
  swap
  · rwa [FsWatcherService.dropPathMap, if_neg empty]
  have refs' : ∀ c t, (s.dropPathMap ref id connectionId sessionId).connSessionRefs c t =
      if c = connectionId ∧ t = sessionId then none else s.connSessionRefs c t := fun c t => by
    rw [connSessionRefs_dropPathMap]
    exact if_congr (and_iff_right empty) rfl rfl
  have sub : ∀ c t id', (s.dropPathMap ref id connectionId sessionId).connSessionRefs c t =
      some id' → s.connSessionRefs c t = some id' ∧ ¬(c = connectionId ∧ t = sessionId) := by
    intro c t id' h
    rw [refs'] at h
    split at h
    · cases h
    case isFalse other => exact ⟨h, other⟩
  have parts : (s.dropPathMap ref id connectionId sessionId).sessions = s.sessions ∧
      (s.dropPathMap ref id connectionId sessionId).pathMaps = s.pathMaps ∧
      (s.dropPathMap ref id connectionId sessionId).entries = s.entries.modify ref fun e =>
        { e with connectionPathRefs := e.connectionPathRefs.delete connectionId } := by
    rw [FsWatcherService.dropPathMap, if_pos empty]
    exact ⟨rfl, rfl, rfl⟩
  obtain ⟨sessions, pathMaps, entries⟩ := parts
  have entry := books.entryOf_modify session sessions entries
  have map : ∀ id', (s.dropPathMap ref id connectionId sessionId).pathMap id' = s.pathMap id' :=
    fun id' => by rw [pathMap, pathMap, pathMaps]
  refine ⟨fun c t => ?_, fun c t c' t' id' h h' => ?_, fun c t id' h => ?_, ?_,
    fun t ref' h => ?_, fun c t id' p ref' h found => ?_, fun c t p => ?_, fun t e found => ?_,
    fun ref' e found no => ?_⟩
  · rw [refs', entry, books.indexes]
    obtain ⟨e, found, -⟩ := books.entry session
    by_cases sess : t = sessionId
    · subst sess
      rw [if_pos rfl, found]
      by_cases conn : c = connectionId
      · subst conn
        rw [if_pos ⟨rfl, rfl⟩]
        exact (OrderedMap.get_delete_self _ _).symm
      · rw [if_neg fun both => conn both.1]
        exact (OrderedMap.get_delete_ne _ conn).symm
    · rw [if_neg sess, if_neg fun both => sess both.2]
  · exact books.injective _ _ _ _ _ (sub _ _ _ h).1 (sub _ _ _ h').1
  · rw [pathMaps]
    exact books.valid _ _ _ (sub _ _ _ h).1
  · rw [sessions]
    exact books.sole
  · rw [sessions] at h
    obtain ⟨e, inside, open'⟩ := books.live _ _ h
    rw [entries, List.getElem?_modify, inside]
    split
    · exact ⟨_, rfl, open'⟩
    · exact ⟨_, rfl, open'⟩
  · rw [map] at found
    rw [sessions]
    exact books.owner _ _ _ _ _ (sub _ _ _ h).1 found
  · rw [books.watches]
    simp only [map]
    constructor
    · rintro ⟨id', ref', h, found⟩
      refine ⟨id', ref', ?_, found⟩
      rw [refs', if_neg]
      · exact h
      · rintro ⟨rfl, rfl⟩
        rw [refs, Option.some_inj] at h
        subst h
        have mem := OrderedMap.mem_entries.2 found
        rw [empty] at mem
        cases mem
    · rintro ⟨id', ref', h, found⟩
      exact ⟨id', ref', (sub _ _ _ h).1, found⟩
  · rw [entry] at found
    split at found
    · obtain ⟨e', found', rfl⟩ := Option.map_eq_some_iff.1 found
      exact books.counts _ e' found'
    · exact books.counts _ _ found
  · rw [sessions] at no
    have other : ref ≠ ref' := fun eq => no sessionId (eq ▸ session)
    rw [entries, List.getElem?_modify_ne _ _ other] at found
    exact books.closed _ _ found no

theorem connSessionRefs_dropSession (c t : String) :
    (s.dropSession ref sessionId).connSessionRefs c t = s.connSessionRefs c t := by
  rw [dropSession]
  split <;> rfl

theorem Books.size_eq_zero (books : Books s w) (found : s.entryOf sessionId = some e) :
    e.pathRefs.size = 0 ↔ ∀ c p, (c, sessionId, p) ∉ w := by
  have counts := books.counts _ _ found
  rw [PathReferenceCollection.size, List.length_eq_zero_iff, List.eq_nil_iff_forall_not_mem]
  constructor
  · intro none' c p mem
    refine none' p ((counts.active p).2 ?_)
    exact Finset.card_ne_zero_of_mem (Finset.mem_filter.2 ⟨mem, rfl⟩)
  · intro unwatched p active
    obtain ⟨⟨c, t, p'⟩, inside⟩ := Finset.card_ne_zero.1 ((counts.active p).1 active)
    obtain ⟨mem, same⟩ := Finset.mem_filter.1 inside
    cases same
    exact unwatched c _ mem

theorem Books.dropSession (books : Books s w)
    (nonempty : ∀ c t id, s.connSessionRefs c t = some id → ∃ p, (c, t, p) ∈ w)
    (session : s.sessions.get sessionId = some ref) :
    Books (s.dropSession ref sessionId) w ∧ ∀ t e,
      (s.dropSession ref sessionId).entryOf t = some e →
        s.entryOf t = some e ∧ (t = sessionId → ∃ c p, (c, sessionId, p) ∈ w) := by
  obtain ⟨e, found, inside, open'⟩ := books.entry session
  have size : (s.entries[ref]?.map (·.pathRefs.size)) = some 0 ↔ ∀ c p, (c, sessionId, p) ∉ w := by
    rw [inside, Option.map_some, Option.some_inj]
    exact books.size_eq_zero found
  rw [FsWatcherService.dropSession]
  split
  case isFalse used =>
    refine ⟨books, fun t e h => ⟨h, fun same => ?_⟩⟩
    by_contra unwatched
    push Not at unwatched
    exact used (size.2 unwatched)
  case isTrue unused =>
    have unwatched := size.1 unused
    have free : ∀ c, s.connSessionRefs c sessionId = none := fun c => by
      cases refs : s.connSessionRefs c sessionId with
      | none => rfl
      | some =>
        obtain ⟨p, mem⟩ := nonempty _ _ _ refs
        exact absurd mem (unwatched c p)
    have kept : ∀ (ref' : ℕ), ref' ≠ ref →
        (s.entries.modify ref SessionEntry.dispose)[ref']? = s.entries[ref']? := fun ref' other =>
      List.getElem?_modify_ne _ _ other.symm
    have distinct : ∀ t ref', t ≠ sessionId → s.sessions.get t = some ref' → ref' ≠ ref := by
      rintro t ref' other h rfl
      exact other (books.sole _ _ _ h session)
    have entry : ∀ t, ({ s.modifyEntry ref SessionEntry.dispose with
        sessions := s.sessions.delete sessionId } : FsWatcherService).entryOf t =
        if t = sessionId then none else s.entryOf t := by
      intro t
      rw [entryOf, entryOf]
      split
      case isTrue same => rw [same, OrderedMap.get_delete_self, Option.bind_none]
      case isFalse other =>
        rw [OrderedMap.get_delete_ne _ other]
        cases h : s.sessions.get t with
        | none => rfl
        | some ref' => exact kept ref' (distinct t ref' other h)
    have sub : ∀ t ref', (s.sessions.delete sessionId).get t = some ref' →
        s.sessions.get t = some ref' ∧ t ≠ sessionId := by
      intro t ref' h
      have other : t ≠ sessionId := by
        rintro rfl
        rw [OrderedMap.get_delete_self] at h
        cases h
      rw [OrderedMap.get_delete_ne _ other] at h
      exact ⟨h, other⟩
    refine ⟨⟨fun c t => ?_, books.injective, books.valid, fun t t' ref' h h' => ?_,
      fun t ref' h => ?_, fun c t id p ref' refs here => ?_, books.watches, fun t e' h => ?_,
      fun ref' e' here no => ?_⟩, fun t e' h => ?_⟩
    · rw [entry]
      split
      case isTrue same =>
        subst same
        exact free c
      case isFalse => exact books.indexes c t
    · exact books.sole _ _ _ (sub _ _ h).1 (sub _ _ h').1
    · obtain ⟨h, other⟩ := sub _ _ h
      obtain ⟨e', here, open'⟩ := books.live _ _ h
      exact ⟨e', (kept _ (distinct _ _ other h)).trans here, open'⟩
    · have other : t ≠ sessionId := by
        rintro rfl
        exact absurd ((free c).symm.trans refs) (Option.some_ne_none _).symm
      exact (OrderedMap.get_delete_ne _ other).trans (books.owner _ _ _ _ _ refs here)
    · rw [entry] at h
      split at h
      · cases h
      · exact books.counts _ _ h
    · by_cases same : ref' = ref
      · subst same
        change (s.entries.modify ref' SessionEntry.dispose)[ref']? = _ at here
        rw [List.getElem?_modify_eq, inside] at here
        cases here
        rw [SessionEntry.dispose, open', if_neg Bool.false_ne_true]
        exact List.getLast?_concat
      · refine books.closed ref' e' ((kept ref' same).symm.trans here) fun t h => no t ?_
        refine (OrderedMap.get_delete_ne _ ?_).trans h
        rintro rfl
        exact same (Option.some.inj (h.symm.trans session))
    · rw [entry] at h
      split at h
      · cases h
      case isFalse other => exact ⟨h, fun same => absurd same other⟩

end FsWatcherService

end KimiCli.Fs
