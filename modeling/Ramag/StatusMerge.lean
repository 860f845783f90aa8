import Ramag.Fields
import Ramag.SortedSearch
import Mathlib.Data.List.Dedup

/-!
A partial refresh of the workspace: the entries under some paths are replaced by
those that Git reports for these paths. The entries to replace are found by
binary search in the sorted list.
-/
namespace Ramag.StatusMerge
open Strings SortedSearch
open Fields (rsplitOnce)

inductive FileChangeKind
  | Added
  | Modified
  | Deleted
  | Renamed
  | Copied
  | TypeChanged
  | Untracked
  | Conflicted
  deriving DecidableEq

structure FileStatus where
  path : Text
  oldPath : Option Text
  staged : Option FileChangeKind
  unstaged : Option FileChangeKind
  deriving DecidableEq

/-- The order of texts, by their characters. -/
def compareText (left right : Text) : Ordering :=
  if left < right then .lt else if left = right then .eq else .gt

/-- No old path comes first. -/
def compareOption : Option Text → Option Text → Ordering
  | none, none => .eq
  | none, some _ => .lt
  | some _, none => .gt
  | some left, some right => compareText left right

def compareFileStatus (left right : FileStatus) : Ordering :=
  (compareText left.path right.path).then (compareOption left.oldPath right.oldPath)

def ancestorMatches (prefixes : List Text) : Nat → Text → Bool
  | 0, _ => false
  | rounds + 1, candidate =>
    match rsplitOnce '/' candidate with
    | some (parent, _) => if parent ∈ prefixes then true else ancestorMatches prefixes rounds parent
    | none => false

def pathMatchesPrefixes (path : Text) (prefixes : List Text) : Bool :=
  if path ∈ prefixes then true else ancestorMatches prefixes path.length path

/-- The range of the elements that lie together, from two searches. -/
def blockRange {α : Type} (below inside : α → Bool) (xs : List α) : List Range :=
  let start := partitionPoint below xs
  let count := partitionPoint inside (xs.drop start)
  if 0 < count then [⟨start, start + count⟩] else []

variable (files : List FileStatus)

def pushExactStatusRange (path : Text) : List Range :=
  blockRange (fun file => decide (file.path < path)) (fun file => decide (file.path = path)) files

def affectedStatusRanges (paths : List Text) : List Range :=
  paths.flatMap fun base =>
    pushExactStatusRange files base ++
      blockRange (fun file => decide (file.path < base ++ ['/'])) (fun file => (base ++ ['/']).isPrefixOf file.path) files

def affectedProjectRanges (projectFiles paths : List Text) : List Range :=
  paths.flatMap fun base =>
    (match binarySearchBy (compareText · base) projectFiles with
      | .ok index => [⟨index, index + 1⟩]
      | .error _ => []) ++
      blockRange (fun path => decide (path < base ++ ['/'])) (fun path => (base ++ ['/']).isPrefixOf path) projectFiles

/-! ### Merging -/

def mergeSortedPaths : List Text → List Text → List Text := mergeSorted compareText fun left _ => left

def mergeSortedStatuses : List FileStatus → List FileStatus → List FileStatus :=
  mergeSorted compareFileStatus fun _ right => right

/-- Replaces the entries under the paths, and says whether anything changed. -/
def mergePartialStatus (paths : List Text) (incoming : List FileStatus) : Bool × List FileStatus :=
  let incoming := incoming.mergeSort fun left right => compareFileStatus left right != .gt
  let identities := (incoming.flatMap fun file => file.path :: file.oldPath.toList).dedup
  let renamed := files.zipIdx.filter fun (file, _) => file.oldPath.any fun old => pathMatchesPrefixes old paths || decide (old ∈ identities)
  let ranges := mergeRanges (affectedStatusRanges files paths ++ identities.flatMap (pushExactStatusRange files) ++
    renamed.map fun (_, index) => ⟨index, index + 1⟩)
  if takeRanges files ranges = incoming then (false, files)
  else (true, mergeSortedStatuses (dropRanges 0 files ranges) incoming)

/-- Replaces the members under the paths, and says whether anything changed. -/
def mergePartialProjectFiles (projectFiles paths incoming : List Text) : Bool × List Text :=
  let incoming := dedup ((incoming.filter (pathMatchesPrefixes · paths)).mergeSort fun left right => compareText left right != .gt)
  let ranges := mergeRanges (affectedProjectRanges projectFiles paths)
  if takeRanges projectFiles ranges = incoming then (false, projectFiles)
  else (true, mergeSortedPaths (dropRanges 0 projectFiles ranges) incoming)

end Ramag.StatusMerge
