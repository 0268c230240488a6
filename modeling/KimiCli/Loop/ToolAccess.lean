import Mathlib.Data.List.Basic

/-!
# Resource accesses of tool calls

`loop/tool-access.ts`: what a tool call may touch, and when two calls conflict.  Paths are compared
after `normalizePath`, whose case folding is the host's `String.prototype.toLowerCase`; it is a
parameter here, so that every result holds for whatever folding the host implements.
-/

namespace KimiCli

/-- What a tool does with a file. -/
inductive ToolFileAccessOperation
  | read | write | readwrite | search
  deriving DecidableEq

/-- A file, or with `recursive` everything below a directory, that a tool uses. -/
structure ToolFileAccess where
  operation : ToolFileAccessOperation
  path : String
  recursive : Option Bool

/-- A resource that a tool uses. -/
inductive ToolResourceAccess
  | file (access : ToolFileAccess)
  /-- Arbitrary side effects, globally exclusive. -/
  | all

/-- All that a tool call uses. -/
abbrev ToolAccesses := List ToolResourceAccess

namespace ToolAccesses

/-- Nothing is used, so the call conflicts with no other. -/
def none : ToolAccesses := []

/-- The call may have any effect. -/
def all : ToolAccesses := [.all]

/-- One use of a file. -/
def file (operation : ToolFileAccessOperation) (path : String) (recursive : Option Bool) :
    ToolAccesses :=
  [.file { operation, path, recursive }]

end ToolAccesses

/-- `replaceAll(/\/+/g, '/')`: every run of slashes becomes one slash. -/
def collapseSlashes : List Char → List Char
  | '/' :: '/' :: cs => collapseSlashes ('/' :: cs)
  | c :: cs => c :: collapseSlashes cs
  | [] => []

/-- Whether the file can be changed. -/
def fileOperationWrites : ToolFileAccessOperation → Bool
  | .read | .search => false
  | .write | .readwrite => true

/-- Two readers do not conflict. -/
def fileOperationsConflict (left right : ToolFileAccessOperation) : Bool :=
  fileOperationWrites left || fileOperationWrites right

section Conflict

variable (toLowerCase : String → String)

/-- The form in which paths are compared: no backslashes, double slashes, slash at the end or case.
-/
def normalizePath (path : String) : String :=
  let slashed := path.toList.map fun c => if c = '\\' then '/' else c
  let folded := toLowerCase (String.ofList (collapseSlashes slashed))
  if folded.length > 1 && folded.toList.getLast? = some '/' then
    String.ofList folded.toList.dropLast
  else folded

/-- The path with a slash at its end, as the prefix of everything below it. -/
def directoryPrefix (path : String) : List Char :=
  if path.toList.getLast? = some '/' then path.toList else path.toList ++ ['/']

/-- The same path, or one below the other where that is recursive. -/
def fileAccessesOverlap (left right : ToolFileAccess) : Bool :=
  let leftPath := normalizePath toLowerCase left.path
  let rightPath := normalizePath toLowerCase right.path
  leftPath = rightPath ||
    ((left.recursive = some true && (directoryPrefix leftPath).isPrefixOf rightPath.toList) ||
      (right.recursive = some true && (directoryPrefix rightPath).isPrefixOf leftPath.toList))

/-- Two accesses must not happen at the same time. -/
def resourceAccessesConflict : ToolResourceAccess → ToolResourceAccess → Bool
  | .all, _ | _, .all => true
  | .file left, .file right =>
    fileOperationsConflict left.operation right.operation &&
      fileAccessesOverlap toLowerCase left right

/-- Some access of the one call conflicts with one of the other. -/
def ToolAccesses.conflict (left right : ToolAccesses) : Bool :=
  left.any fun leftAccess => right.any fun rightAccess =>
    resourceAccessesConflict toLowerCase leftAccess rightAccess

variable {toLowerCase}

theorem fileAccessesOverlap_comm (left right : ToolFileAccess) :
    fileAccessesOverlap toLowerCase left right = fileAccessesOverlap toLowerCase right left := by
  simp only [fileAccessesOverlap, eq_comm (a := normalizePath toLowerCase left.path)]
  rw [Bool.or_comm (left.recursive = some true && _)]

theorem resourceAccessesConflict_comm (left right : ToolResourceAccess) :
    resourceAccessesConflict toLowerCase left right =
      resourceAccessesConflict toLowerCase right left := by
  rcases left with left | _ <;> rcases right with right | _ <;> try rfl
  simp only [resourceAccessesConflict, fileOperationsConflict]
  rw [Bool.or_comm, fileAccessesOverlap_comm]

/-- Conflict does not depend on which of the two calls came first. -/
theorem ToolAccesses.conflict_comm (left right : ToolAccesses) :
    conflict toLowerCase left right = conflict toLowerCase right left := by
  rw [Bool.eq_iff_iff]
  simp only [conflict, List.any_eq_true]
  constructor <;>
  · rintro ⟨a, ha, b, hb, h⟩
    exact ⟨b, hb, a, ha, by rwa [resourceAccessesConflict_comm]⟩

end Conflict

end KimiCli
