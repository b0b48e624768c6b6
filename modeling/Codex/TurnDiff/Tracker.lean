import Mathlib
import Codex.HashMap
import Codex.ApplyPatch.Apply

/-!
# The turn diff tracker

`core/src/turn_diff_tracker.rs`. The order of hash maps, SHA-1 and the `similar` crate are parameters.
-/

namespace Codex.TurnDiff

open Codex.Text Codex.ApplyPatch

structure TrackedContent where
  content : Text
  revision : Nat

structure TrackedPath where
  environmentId : Text
  path : PathUri

def TrackedPath.key (c : UrlCrates) (path : TrackedPath) : Text × PathUri.Identity :=
  (path.environmentId, path.path.identity c)

structure DiffCacheKey where
  leftPath : TrackedPath
  leftRevision : Option Nat
  rightPath : TrackedPath
  rightRevision : Option Nat

def DiffCacheKey.key (c : UrlCrates) (k : DiffCacheKey) :
    (Text × PathUri.Identity) × Option Nat × (Text × PathUri.Identity) × Option Nat :=
  (k.leftPath.key c, k.leftRevision, k.rightPath.key c, k.rightRevision)

structure TurnDiffTracker (c : UrlCrates) where
  valid : Bool := true
  displayRootsByEnvironment : HashMap (id : Text → Text) PathUri := {}
  baselineByPath : HashMap (TrackedPath.key c) TrackedContent := {}
  currentByPath : HashMap (TrackedPath.key c) TrackedContent := {}
  originByCurrentPath : HashMap (TrackedPath.key c) TrackedPath := {}
  nextRevision : Nat := 0
  renderedDiffs : HashMap (DiffCacheKey.key c) (Option Text) := {}
  unifiedDiff : Option Text := none

structure Iteration where
  baseline : Order
  current : Order
  origin : Order

/-- `similar` diffs the lines of two texts under two headers, with three lines of context. -/
structure DiffCrates where
  gitBlobOid : Text → Text
  unifiedDiff : Text → Text → Text → Text → Text

def zeroOid : Text := "0000000000000000000000000000000000000000"
def devNull : Text := "/dev/null"
def regularFileMode : Text := "100644"

namespace TurnDiffTracker

variable {c : UrlCrates}

def withEnvironmentDisplayRoots (displayRoots : List (Text × PathUri)) : TurnDiffTracker c :=
  { displayRootsByEnvironment := .ofList displayRoots }

section

variable (t : TurnDiffTracker c)

def invalidate : TurnDiffTracker c :=
  { t with valid := false, renderedDiffs := {}, unifiedDiff := none }

/-! ## Changes -/

section

variable (path : TrackedPath)

def captureBaseline : Option Text → TurnDiffTracker c
  | none => t
  | some content =>
    if t.currentByPath.contains path || t.baselineByPath.contains path then t
    else
      { t with
        baselineByPath := t.baselineByPath.insert path ⟨content, t.nextRevision⟩
        nextRevision := t.nextRevision + 1 }

def setCurrent (content : Text) : TurnDiffTracker c :=
  { t with
    currentByPath := t.currentByPath.insert path ⟨content, t.nextRevision⟩
    nextRevision := t.nextRevision + 1 }

def applyAdd (content : Text) (overwrittenContent : Option Text) : TurnDiffTracker c :=
  let t := { t with originByCurrentPath := t.originByCurrentPath.remove path }
  (t.captureBaseline path overwrittenContent).setCurrent path content

def applyDelete (content : Text) : TurnDiffTracker c :=
  let removed := t.currentByPath.contains path
  let t := { t with currentByPath := t.currentByPath.remove path }
  let t :=
    if !removed && !t.baselineByPath.contains path then
      { t with
        baselineByPath := t.baselineByPath.insert path ⟨content, t.nextRevision⟩
        nextRevision := t.nextRevision + 1 }
    else t
  { t with originByCurrentPath := t.originByCurrentPath.remove path }

def applyUpdate (sourcePath : TrackedPath) (movePath : Option TrackedPath)
    (oldContent : Text) (overwrittenMoveContent : Option Text) (newContent : Text) : TurnDiffTracker c :=
  let t := t.captureBaseline sourcePath (some oldContent)
  match movePath with
  | some destPath =>
    let t := t.captureBaseline destPath overwrittenMoveContent
    let origin := (t.originByCurrentPath.get sourcePath).getD sourcePath
    let t := { t with
      originByCurrentPath := t.originByCurrentPath.remove sourcePath
      currentByPath := t.currentByPath.remove sourcePath }
    let t := t.setCurrent destPath newContent
    let origins := t.originByCurrentPath.remove destPath
    { t with
      originByCurrentPath := if destPath.key c = origin.key c then origins else origins.insert destPath origin }
  | none => t.setCurrent sourcePath newContent

def applyChange (environmentId : Text) (change : AppliedPatchChange PathUri) : TurnDiffTracker c :=
  let sourcePath : TrackedPath := ⟨environmentId, change.path⟩
  match change.change with
  | .add content overwrittenContent => t.applyAdd sourcePath content overwrittenContent
  | .delete content => t.applyDelete sourcePath content
  | .update movePath oldContent overwrittenMoveContent newContent =>
    t.applyUpdate sourcePath (movePath.map fun path => ⟨environmentId, path⟩) oldContent overwrittenMoveContent
      newContent

/-! ## The diff -/

def displayPath : Text :=
  let display := ((t.displayRootsByEnvironment.get path.environmentId).bind fun root =>
    path.path.relativePathFrom c root).getD (path.path.inferredNativePathString c)
  if t.displayRootsByEnvironment.entries.length > 1 ∧ path.environmentId ≠ [] then
    path.environmentId ++ '/' :: display
  else display

end

def renamePairs (it : Iteration) : HashMap (TrackedPath.key c) TrackedPath :=
  .ofList <| (it.origin.visit t.originByCurrentPath.entries).filterMap fun (destPath, originPath) =>
    if destPath.key c = originPath.key c || t.currentByPath.contains originPath ||
        !t.currentByPath.contains destPath || !t.baselineByPath.contains originPath ||
        t.baselineByPath.contains destPath then none
    else some (originPath, destPath)

/-- All paths, sorted by how they are shown; equal neighbours are one. -/
def diffPaths (it : Iteration) : List TrackedPath :=
  ((it.baseline.visit t.baselineByPath.keys ++ it.current.visit t.currentByPath.keys).insertionSort
    fun p q => t.displayPath p ≤ t.displayPath q).destutter fun p q => p.key c ≠ q.key c

/-- The sides of the diffs: a path that was handled, or is the end of a rename, has no diff of its own. -/
def choosePairs (renames : HashMap (TrackedPath.key c) TrackedPath) (handled : List (Text × PathUri.Identity)) :
    List TrackedPath → List (TrackedPath × TrackedPath)
  | [] => []
  | path :: paths =>
    if path.key c ∈ handled then choosePairs renames handled paths
    else if renames.values.any fun dest => dest.key c = path.key c then
      choosePairs renames (path.key c :: handled) paths
    else match renames.get path with
      | some dest => (path, dest) :: choosePairs renames (dest.key c :: path.key c :: handled) paths
      | none => (path, path) :: choosePairs renames (path.key c :: handled) paths

def diffPairs (it : Iteration) : List (TrackedPath × TrackedPath) :=
  choosePairs (t.renamePairs it) [] (t.diffPaths it)

end

section

variable (crates : DiffCrates) (t : TurnDiffTracker c)

def renderDiff (leftPath : TrackedPath)
    (leftContent : Option Text) (rightPath : TrackedPath) (rightContent : Option Text) : Option Text :=
  if leftContent = rightContent then none
  else
    let slashes (path : Text) : Text := path.map fun ch => if ch = '\\' then '/' else ch
    let leftDisplay := slashes (t.displayPath leftPath)
    let rightDisplay := slashes (t.displayPath rightPath)
    let leftOid := leftContent.elim zeroOid crates.gitBlobOid
    let rightOid := rightContent.elim zeroOid crates.gitBlobOid
    let mode : Text := match leftContent, rightContent with
      | none, some _ => "new file mode ".toList ++ regularFileMode ++ ['\n']
      | some _, none => "deleted file mode ".toList ++ regularFileMode ++ ['\n']
      | _, _ => []
    let oldHeader := if leftContent.isSome then "a/".toList ++ leftDisplay else devNull
    let newHeader := if rightContent.isSome then "b/".toList ++ rightDisplay else devNull
    some <| "diff --git a/".toList ++ leftDisplay ++ " b/".toList ++ rightDisplay ++ '\n' :: mode ++
      "index ".toList ++ leftOid ++ "..".toList ++ rightOid ++ '\n' ::
      crates.unifiedDiff (leftContent.getD []) (rightContent.getD []) oldHeader newHeader

structure Rendering (c : UrlCrates) where
  previousDiffs : HashMap (DiffCacheKey.key c) (Option Text)
  renderedDiffs : HashMap (DiffCacheKey.key c) (Option Text) := {}
  aggregated : Text := []

def appendDiff (aggregated diff : Text) : Text :=
  let aggregated := aggregated ++ diff
  if aggregated.getLast? = some '\n' then aggregated else aggregated ++ ['\n']

def renderPair (r : Rendering c) (pair : TrackedPath × TrackedPath) : Rendering c :=
  let leftContent := t.baselineByPath.get pair.1
  let rightContent := t.currentByPath.get pair.2
  let key : DiffCacheKey :=
    ⟨pair.1, leftContent.map (·.revision), pair.2, rightContent.map (·.revision)⟩
  let rendered := (r.previousDiffs.get key).getD
    (t.renderDiff crates pair.1 (leftContent.map (·.content)) pair.2 (rightContent.map (·.content)))
  { previousDiffs := r.previousDiffs.remove key
    renderedDiffs := r.renderedDiffs.insert key rendered
    aggregated := rendered.elim r.aggregated (appendDiff r.aggregated) }

def refreshUnifiedDiff (it : Iteration) : TurnDiffTracker c :=
  let r := (t.diffPairs it).foldl (t.renderPair crates) { previousDiffs := t.renderedDiffs }
  { t with
    renderedDiffs := r.renderedDiffs
    unifiedDiff := if r.aggregated.isEmpty then none else some r.aggregated }

def trackDelta (it : Iteration) (environmentId : Text) (delta : AppliedPatchDelta PathUri) : TurnDiffTracker c :=
  if !t.valid then t
  else if !delta.exact then t.invalidate
  else (delta.changes.foldl (·.applyChange environmentId) t).refreshUnifiedDiff crates it

end

end TurnDiffTracker

end Codex.TurnDiff
