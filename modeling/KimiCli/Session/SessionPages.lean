import KimiCli.Lib.CursorPages
import KimiCli.Server.SessionStatus

/-!
# Pages of sessions

`SessionService.list` and `listChildren` answer one page of the sessions, the newest first.  While
the set of the sessions does not change, a walk over the pages follows `before_id` to the older ones
or `after_id` to the newer ones.
-/

namespace KimiCli.SessionPages

open CursorPages

/-- What is read of `core.rpc.listSessions`; of the metadata only the strings. -/
structure SessionSummary where
  id : String
  updatedAt : ℤ
  parentSessionId : Option String
  childSessionKind : Option String

structure ListSessionsPayload where
  workDir : Option String := none
  includeArchive : Option Bool := none

/-- The sessions as they are, each of which has an id of its own. -/
structure SessionCore where
  listSessions : ListSessionsPayload → List SessionSummary
  nodup : ∀ payload, ((listSessions payload).map SessionSummary.id).Nodup

/-- A summary with its status. -/
structure Session extends SessionSummary where
  status : SessionStatus

structure SessionListQuery where
  beforeId : Option String := none
  afterId : Option String := none
  pageSize : Option ℤ := none
  status : Option SessionStatus := none
  workDir : Option String := none
  includeArchive : Option Bool := none

def DEFAULT_PAGE_SIZE : ℤ := 20
def MAX_PAGE_SIZE : ℤ := 100
def CHILD_SESSION_KIND : String := "child"

def pageSize (query : SessionListQuery) : ℕ :=
  (min (max (query.pageSize.getD DEFAULT_PAGE_SIZE) 1) MAX_PAGE_SIZE).toNat

/-- `toSorted((a, b) => b.updatedAt - a.updatedAt)` -/
def sorted (sessions : List SessionSummary) : List SessionSummary :=
  sessions.mergeSort fun a b => b.updatedAt ≤ a.updatedAt

/-- The page of sorted sessions, as both functions cut it. -/
def cutPage (statusOf : String → SessionStatus) (sorted : List SessionSummary)
    (query : SessionListQuery) : Page Session :=
  let pivotIndex :=
    match query.beforeId, query.afterId with
    | some beforeId, _ => sorted.findIdx? fun s => s.id = beforeId
    | none, some afterId => sorted.findIdx? fun s => s.id = afterId
    | none, none => none
  let slice :=
    match query.beforeId, query.afterId, pivotIndex with
    | some _, _, some pivotIndex => sorted.drop (pivotIndex + 1)
    | none, some _, some pivotIndex => sorted.take pivotIndex
    | _, _, _ => sorted
  let pageSummaries := slice.take (pageSize query)
  let hasMore := slice.length > pageSize query
  let items := pageSummaries.map fun s => Session.mk s (statusOf s.id)
  let filtered :=
    match query.status with
    | some status => items.filter fun s => s.status = status
    | none => items
  ⟨filtered, hasMore⟩

variable (core : SessionCore) (statusOf : String → SessionStatus)

def list (query : SessionListQuery) : Page Session :=
  cutPage statusOf (sorted (core.listSessions ⟨query.workDir, query.includeArchive⟩)) query

def isChildOf (id : String) (summary : SessionSummary) : Bool :=
  summary.parentSessionId = some id && summary.childSessionKind = some CHILD_SESSION_KIND

/-- `none` is `SessionNotFoundError`. -/
def listChildren (id : String) (query : SessionListQuery) : Option (Page Session) :=
  if (core.listSessions {}).any fun s => s.id = id then
    some (cutPage statusOf ((sorted (core.listSessions {})).filter (isChildOf id)) query)
  else none

/-! ## Walks -/

/-- The sessions that are older than the one with this id, in a list with the newest first. -/
def olderThan (sessions : List Session) : Option String → List Session
  | none => sessions
  | some id => (sessions.dropWhile (·.id ≠ id)).tail

def newerThan (sessions : List Session) : Option String → List Session
  | none => sessions
  | some id => sessions.takeWhile (·.id ≠ id)

/-- Following `before_id`, the last id of each page, visits all sessions in the order of their
updates; following `after_id`, the first id of each page, from the oldest session on visits all
newer ones once.  `fetch` is given both ids. -/
def Travels (fetch : Option String → Option String → Page Session) (all : List Session) : Prop :=
  ∃ order : List Session, order.Perm all ∧
    order.Pairwise (fun newer older => older.updatedAt ≤ newer.updatedAt) ∧
    Visits (·.id) (fun beforeId => fetch beforeId none) List.getLast? (olderThan order) none
      (· = order) ∧
    ∀ oldest, order.getLast? = some oldest →
      Visits (·.id) (fun afterId => fetch none afterId) List.head? (newerThan order)
        (some oldest.id) (·.Perm (newerThan order (some oldest.id)))

section

variable {statusOf} {order : List SessionSummary} {sessions front back : List Session}
  {item : Session} {size : Option ℤ}

def hydrate (statusOf : String → SessionStatus) (summary : SessionSummary) : Session :=
  ⟨summary, statusOf summary.id⟩

theorem others_of_split (distinct : (sessions.map (·.id)).Nodup)
    (whole : sessions = front ++ item :: back) : ∀ other ∈ front, other.id ≠ item.id := by
  intro other mem same
  rw [whole, List.map_append, List.map_cons] at distinct
  have apart := (List.nodup_append.1 distinct).2.2
  exact apart _ (List.mem_map_of_mem mem) _ (List.mem_cons_self ..) same

theorem olderThan_split (distinct : (sessions.map (·.id)).Nodup)
    (whole : sessions = front ++ item :: back) : olderThan sessions (some item.id) = back := by
  have others := others_of_split distinct whole
  have passed : ∀ other ∈ front, decide (other.id ≠ item.id) = true :=
    fun other mem => decide_eq_true (others other mem)
  rw [olderThan, whole, List.dropWhile_append_of_pos passed,
    List.dropWhile_cons_of_neg (by simp), List.tail_cons]

theorem newerThan_split (distinct : (sessions.map (·.id)).Nodup)
    (whole : sessions = front ++ item :: back) : newerThan sessions (some item.id) = front := by
  have others := others_of_split distinct whole
  have passed : ∀ other ∈ front, decide (other.id ≠ item.id) = true :=
    fun other mem => decide_eq_true (others other mem)
  rw [newerThan, whole, List.takeWhile_append_of_pos passed,
    List.takeWhile_cons_of_neg (by simp), List.append_nil]

/-! ## What the code cuts off -/

def sliceBefore (order : List SessionSummary) : Option String → List SessionSummary
  | none => order
  | some id =>
    match order.findIdx? fun s => s.id = id with
    | some pivotIndex => order.drop (pivotIndex + 1)
    | none => order

def sliceAfter (order : List SessionSummary) : Option String → List SessionSummary
  | none => order
  | some id =>
    match order.findIdx? fun s => s.id = id with
    | some pivotIndex => order.take pivotIndex
    | none => order

theorem page_of_slice (slice : List SessionSummary) (n : ℕ) :
    Page.mk ((slice.take n).map (hydrate statusOf)) (decide (slice.length > n)) =
      Page.of n (slice.map (hydrate statusOf)) := by
  rw [Page.of, List.map_take, List.length_map]

theorem cutPage_before (query : SessionListQuery) (plain : query.status = none)
    (before : query.afterId = none) : cutPage statusOf order query =
      Page.of (pageSize query) ((sliceBefore order query.beforeId).map (hydrate statusOf)) := by
  rw [← page_of_slice, cutPage, plain, before]
  cases query.beforeId with
  | none => rfl
  | some id =>
    refine congrArg (fun slice : List SessionSummary => Page.mk
      ((slice.take (pageSize query)).map (hydrate statusOf))
      (decide (slice.length > pageSize query))) ?_
    simp only [sliceBefore]
    cases order.findIdx? fun s => s.id = id <;> rfl

theorem cutPage_after (query : SessionListQuery) (plain : query.status = none)
    (after : query.beforeId = none) : cutPage statusOf order query =
      Page.of (pageSize query) ((sliceAfter order query.afterId).map (hydrate statusOf)) := by
  rw [← page_of_slice, cutPage, plain, after]
  cases query.afterId with
  | none => rfl
  | some id =>
    refine congrArg (fun slice : List SessionSummary => Page.mk
      ((slice.take (pageSize query)).map (hydrate statusOf))
      (decide (slice.length > pageSize query))) ?_
    simp only [sliceAfter]
    cases order.findIdx? fun s => s.id = id <;> rfl

theorem hydrate_map_id : (order.map (hydrate statusOf)).map (·.id) = order.map (·.id) := by
  rw [List.map_map]
  rfl

theorem slices_split (distinct : (order.map SessionSummary.id).Nodup)
    (whole : order.map (hydrate statusOf) = front ++ item :: back) :
    (sliceBefore order (some item.id)).map (hydrate statusOf) = back ∧
      (sliceAfter order (some item.id)).map (hydrate statusOf) = front := by
  obtain ⟨front', rest, rfl, rfl, shown⟩ := List.map_eq_append_iff.1 whole
  obtain ⟨item', back', rfl, rfl, rfl⟩ := List.map_eq_cons_iff.1 shown
  have others := others_of_split (by rw [hydrate_map_id]; exact distinct) whole
  have found : (front' ++ item' :: back').findIdx? (fun s => s.id = (hydrate statusOf item').id) =
      some front'.length := by
    rw [List.findIdx?_append, List.findIdx?_eq_none_iff.2, List.findIdx?_cons, if_pos]
    · simp
    · exact decide_eq_true rfl
    · exact fun other mem => decide_eq_false (others _ (List.mem_map_of_mem mem))
  refine ⟨?_, ?_⟩
  · simp only [sliceBefore, found]
    rw [← List.singleton_append, ← List.append_assoc, List.drop_left' (by simp)]
  · simp only [sliceAfter, found]
    rw [List.take_left]

theorem pageSize_pos (query : SessionListQuery) : 0 < pageSize query := by
  rw [pageSize, Int.lt_toNat, MAX_PAGE_SIZE]
  omega

/-- Both walks over the pages of an order are right exactly when everything but the oldest fits
into one page. -/
theorem travels_cutPage_iff {all : List Session} (statusOf : String → SessionStatus)
    (query : SessionListQuery) (plain : query.status = none)
    (distinct : (order.map SessionSummary.id).Nodup)
    (descends : order.Pairwise fun newer older => older.updatedAt ≤ newer.updatedAt)
    (same : (order.map (hydrate statusOf)).Perm all) :
    Travels (fun beforeId afterId => cutPage statusOf order { query with beforeId, afterId }) all ↔
      order.length ≤ pageSize query + 1 := by
  have down (beforeId : Option String) :
      cutPage statusOf order { query with beforeId, afterId := none } = Page.of (pageSize query)
        ((sliceBefore order beforeId).map (hydrate statusOf)) := cutPage_before _ plain rfl
  have up (afterId : Option String) :
      cutPage statusOf order { query with beforeId := none, afterId } = Page.of (pageSize query)
        ((sliceAfter order afterId).map (hydrate statusOf)) := cutPage_after _ plain rfl
  have distinct' : ((order.map (hydrate statusOf)).map (·.id)).Nodup := by
    rw [hydrate_map_id]
    exact distinct
  have visited : Visits (·.id) (fun beforeId => Page.of (pageSize query)
      ((sliceBefore order beforeId).map (hydrate statusOf))) List.getLast?
      (olderThan (order.map (hydrate statusOf))) none (· = order.map (hydrate statusOf)) :=
    visits_below (pageSize_pos query) (fun _ _ _ whole => (slices_split distinct whole).1)
      (fun _ _ _ whole => olderThan_split distinct' whole) rfl List.suffix_rfl
  have newer {front : List Session} {oldest : Session}
      (whole : order.map (hydrate statusOf) = front ++ [oldest]) :
      Visits (·.id) (fun afterId => Page.of (pageSize query)
        ((sliceAfter order afterId).map (hydrate statusOf))) List.head?
        (newerThan (order.map (hydrate statusOf))) (some oldest.id) (·.Perm front) ↔
      front.length ≤ pageSize query :=
    visits_above_iff (pageSize_pos query) (fun _ _ _ whole => (slices_split distinct whole).2)
      (fun _ _ _ whole => newerThan_split distinct' whole) whole
  simp only [Travels, down, up]
  constructor
  · rintro ⟨order', -, -, ⟨pages, walk, rfl, -⟩, above⟩
    obtain ⟨pages', walk', whole, -⟩ := visited
    rw [walk_unique walk walk', whole] at above
    rcases List.eq_nil_or_concat (order.map (hydrate statusOf)) with none | ⟨front, oldest, parts⟩
    · rw [List.map_eq_nil_iff.1 none]
      exact Nat.zero_le _
    · rw [List.concat_eq_append] at parts
      have last := above oldest (by rw [parts, List.getLast?_concat])
      rw [newerThan_split distinct' parts, newer parts] at last
      rw [← List.length_map (hydrate statusOf), parts, List.length_append, List.length_singleton]
      exact Nat.succ_le_succ last
  · intro few
    refine ⟨_, same, List.pairwise_map.2 descends, visited, fun oldest last => ?_⟩
    obtain ⟨front, parts⟩ := List.getLast?_eq_some_iff.1 last
    rw [newerThan_split distinct' parts, newer parts]
    rw [← List.length_map (hydrate statusOf), parts, List.length_append,
      List.length_singleton] at few
    exact Nat.le_of_succ_le_succ few

end

/-! ## The service -/

theorem sorted_perm (sessions : List SessionSummary) : (sorted sessions).Perm sessions :=
  List.mergeSort_perm _ _

theorem sorted_descends (sessions : List SessionSummary) :
    (sorted sessions).Pairwise fun newer older => older.updatedAt ≤ newer.updatedAt := by
  have trans (a b c : SessionSummary) (ab : decide (b.updatedAt ≤ a.updatedAt) = true)
      (bc : decide (c.updatedAt ≤ b.updatedAt) = true) :
      decide (c.updatedAt ≤ a.updatedAt) = true :=
    decide_eq_true (le_trans (of_decide_eq_true bc) (of_decide_eq_true ab))
  have total (a b : SessionSummary) :
      (decide (b.updatedAt ≤ a.updatedAt) || decide (a.updatedAt ≤ b.updatedAt)) = true := by
    rw [Bool.or_eq_true, decide_eq_true_iff, decide_eq_true_iff]
    exact le_total _ _
  exact (List.pairwise_mergeSort trans total sessions).imp fun ab => of_decide_eq_true ab

/-- A query without a status, of which the ids are set for each page. -/
def listQuery (payload : ListSessionsPayload) (size : Option ℤ) (beforeId afterId : Option String) :
    SessionListQuery :=
  { beforeId, afterId, pageSize := size, workDir := payload.workDir
    includeArchive := payload.includeArchive }

/-- The children of a session. -/
def childrenOf (id : String) : List SessionSummary :=
  (core.listSessions {}).filter (isChildOf id)

/-- The walks are right in both directions, for all sessions and for the children of each. -/
def PagesTravel (payload : ListSessionsPayload) (size : Option ℤ) : Prop :=
  Travels (fun beforeId afterId => list core statusOf (listQuery payload size beforeId afterId))
      ((core.listSessions payload).map (hydrate statusOf)) ∧
    ∀ parent ∈ core.listSessions {}, ∃ fetch,
      (∀ beforeId afterId, listChildren core statusOf parent.id
        (listQuery {} size beforeId afterId) = some (fetch beforeId afterId)) ∧
      Travels fetch ((childrenOf core parent.id).map (hydrate statusOf))

theorem travels_list_iff (payload : ListSessionsPayload) (size : Option ℤ) :
    Travels (fun beforeId afterId => list core statusOf (listQuery payload size beforeId afterId))
        ((core.listSessions payload).map (hydrate statusOf)) ↔
      (core.listSessions payload).length ≤ pageSize { pageSize := size } + 1 := by
  have order := sorted_perm (core.listSessions payload)
  rw [← order.length_eq]
  exact travels_cutPage_iff statusOf (listQuery payload size none none) rfl
    ((order.map _).nodup_iff.2 (core.nodup payload)) (sorted_descends _) (order.map _)

/-- They are exactly when nowhere more sessions than a page holds are newer than the oldest. -/
theorem pagesTravel_iff (payload : ListSessionsPayload) (size : Option ℤ) :
    PagesTravel core statusOf payload size ↔
      (core.listSessions payload).length ≤ pageSize { pageSize := size } + 1 ∧
        ∀ parent ∈ core.listSessions {},
          (childrenOf core parent.id).length ≤ pageSize { pageSize := size } + 1 := by
  refine and_congr (travels_list_iff core statusOf payload size)
    (forall₂_congr fun parent mem => ?_)
  have order := (sorted_perm (core.listSessions {})).filter (isChildOf parent.id)
  have distinct : (((sorted (core.listSessions {})).filter (isChildOf parent.id)).map
      SessionSummary.id).Nodup :=
    (((sorted_perm _).map _).nodup_iff.2 (core.nodup {})).sublist (List.filter_sublist.map _)
  have travels := travels_cutPage_iff statusOf (listQuery {} size none none) rfl distinct
    ((sorted_descends _).sublist List.filter_sublist) (order.map _)
  rw [order.length_eq] at travels
  have known : (core.listSessions {}).any (fun s => s.id = parent.id) = true :=
    List.any_eq_true.2 ⟨parent, mem, decide_eq_true rfl⟩
  refine Iff.trans ?_ travels
  constructor
  · rintro ⟨fetch, answers, right⟩
    have same : fetch = fun beforeId afterId => cutPage statusOf
        ((sorted (core.listSessions {})).filter (isChildOf parent.id))
        (listQuery {} size beforeId afterId) := by
      funext beforeId afterId
      exact (Option.some.inj ((if_pos known).symm.trans (answers beforeId afterId))).symm
    exact same ▸ right
  · exact fun right => ⟨_, fun beforeId afterId => if_pos known, right⟩

/-- Three sessions, of which only the newest is reached upwards in pages of one. -/
def threeSessions : SessionCore where
  listSessions _ := [⟨"c", 3, none, none⟩, ⟨"b", 2, none, none⟩, ⟨"a", 1, none, none⟩]
  nodup _ := by decide

theorem middle_session_skipped : ¬ ∀ (core : SessionCore) (statusOf : String → SessionStatus)
    (payload : ListSessionsPayload) (size : Option ℤ), PagesTravel core statusOf payload size := by
  intro all
  have few := (travels_list_iff _ _ _ _).1 (all threeSessions (fun _ => .idle) {} (some 1)).1
  exact absurd few (by decide)

end KimiCli.SessionPages
