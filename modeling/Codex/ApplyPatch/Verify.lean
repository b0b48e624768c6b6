import Codex.ApplyPatch.Apply

/-! # Verifying a patch: `try_verify_apply_patch_args` of `apply-patch/src/invocation.rs` -/

namespace Codex.ApplyPatch

open Codex.Text Program

variable {P K E D : Type}

inductive ApplyPatchFileChange (P : Type) where
  | add (content : Text)
  | delete (content : Text)
  | update (unifiedDiff : Text) (movePath : Option P) (newContent : Text)
deriving DecidableEq

/-- `changes` is a map from paths; its entries are kept in the order of the patch. -/
structure ApplyPatchAction (P : Type) where
  changes : List (P × ApplyPatchFileChange P)
  patch : Text
  cwd : P
deriving DecidableEq

structure ApplyPatchFileUpdate where
  unifiedDiff : Text
  originalContent : Text
  content : Text
deriving DecidableEq

/-- The `similar` crate: the unified diff of two texts with that many context lines. -/
abbrev UnifiedDiff := Text → Text → Nat → Text

def unifiedDiffFromChunks (api : PathApi P K E) (fs : ExecutorFileSystem P D) (diff : UnifiedDiff) (path : P)
    (chunks : List UpdateFileChunk) : Program D (ApplyPatchError E) ApplyPatchFileUpdate := do
  let patch ← deriveNewContentsFromChunks api fs path chunks
  return {
    unifiedDiff := diff patch.originalContents patch.newContents 1
    originalContent := patch.originalContents
    content := patch.newContents }

def multipleOperationsError (api : PathApi P K E) (path : P) : ApplyPatchError E :=
  .parseError <| .invalidPatchError <| "multiple operations target " ++ api.inferredNativePathString path ++
    "; use one operation per path or separate apply_patch calls".toList

def joinOptional (api : PathApi P K E) (cwd : P) : Option Text → Except E (Option P)
  | none => .ok none
  | some path => (api.join cwd path).map some

def verifyChange (api : PathApi P K E) (fs : ExecutorFileSystem P D) (diff : UnifiedDiff) (cwd path : P) :
    Hunk → Program D (ApplyPatchError E) (ApplyPatchFileChange P)
  | .addFile _ contents => return .add contents
  | .deleteFile _ => do
    let content ← (fs.readFileText path).mapError <|
      .ioError ("Failed to read " ++ api.inferredNativePathString path)
    return .delete content
  | .updateFile _ movePath chunks => do
    let update ← unifiedDiffFromChunks api fs diff path chunks
    let movePath ← ofResult ((joinOptional api cwd movePath).mapError .pathUri)
    return .update update.unifiedDiff movePath update.content

variable [DecidableEq K]

def verifyHunks (api : PathApi P K E) (fs : ExecutorFileSystem P D) (diff : UnifiedDiff) (cwd : P)
    (changes : List (P × ApplyPatchFileChange P)) :
    List Hunk → Program D (ApplyPatchError E) (List (P × ApplyPatchFileChange P))
  | [] => return changes
  | hunk :: hunks => do
    let path ← ofResult ((hunk.resolvePath api cwd).mapError .pathUri)
    if changes.any fun c => api.key c.1 = api.key path then throw (multipleOperationsError api path)
    else
      let change ← verifyChange api fs diff cwd path hunk
      verifyHunks api fs diff cwd (changes ++ [(path, change)]) hunks

def tryVerifyApplyPatchArgs (api : PathApi P K E) (fs : ExecutorFileSystem P D) (diff : UnifiedDiff)
    (args : ApplyPatchArgs) (cwd : P) : Program D (ApplyPatchError E) (ApplyPatchAction P) := do
  let workdir ← ofResult ((joinOptional api cwd args.workdir).mapError .pathUri)
  let effectiveCwd := workdir.getD cwd
  let changes ← verifyHunks api fs diff effectiveCwd [] args.hunks
  return { changes, patch := args.patch, cwd := effectiveCwd }

end Codex.ApplyPatch
