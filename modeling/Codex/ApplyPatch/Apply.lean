import Codex.FileSystem
import Codex.PathUri.NativePath
import Codex.ApplyPatch.FileUpdate

/-! # Applying hunks to files: `apply_hunks_to_files` of `apply-patch/src/lib.rs`, over any file system -/

namespace Codex.ApplyPatch

open Codex.Text Program

/-- What patches need of paths: `PathUri` joins texts, has a parent and an equality, here that of `K`. -/
structure PathApi (P K E : Type) where
  join : P → Text → Except E P
  key : P → K
  parent : P → Option P
  inferredNativePathString : P → Text

def pathUriApi (c : UrlCrates) : PathApi PathUri PathUri.Identity PathUriParseError where
  join := PathUri.join c
  key := PathUri.identity c
  parent := PathUri.parent c
  inferredNativePathString := PathUri.inferredNativePathString c

variable {P K E D : Type}

def Hunk.resolvePath (api : PathApi P K E) (hunk : Hunk) (cwd : P) : Except E P :=
  api.join cwd hunk.sourcePath

/-! ## Errors and deltas -/

inductive ApplyPatchError (E : Type) where
  | parseError (error : ParseError)
  | ioError (context : Text) (source : IoError)
  | computeReplacements (message : Text)
  | pathUri (error : E)
deriving DecidableEq

inductive ApplyFailure (E : Type) where
  | bail (message : Text)
  | applyPatch (error : ApplyPatchError E)
  | pathUri (error : E)
  | context (text : Text) (source : IoError)
deriving DecidableEq

inductive AppliedPatchFileChange (P : Type) where
  | add (content : Text) (overwrittenContent : Option Text)
  | delete (content : Text)
  | update (movePath : Option P) (oldContent : Text) (overwrittenMoveContent : Option Text) (newContent : Text)
deriving DecidableEq

structure AppliedPatchChange (P : Type) where
  path : P
  change : AppliedPatchFileChange P
deriving DecidableEq

structure AppliedPatchDelta (P : Type) where
  changes : List (AppliedPatchChange P) := []
  exact : Bool := true
deriving DecidableEq

structure AffectedPaths where
  added : List Text := []
  modified : List Text := []
  deleted : List Text := []
deriving DecidableEq

structure Run (P D : Type) where
  disk : D
  delta : AppliedPatchDelta P := {}
  affected : AffectedPaths := {}

namespace Run

def onDisk {ε α : Type} (x : Program D ε α) : Program (Run P D) ε α :=
  x.zoom Run.disk fun r disk => { r with disk }

def setInexact (r : Run P D) : Run P D := { r with delta := { r.delta with exact := false } }

def pushChange (path : P) (change : AppliedPatchFileChange P) (r : Run P D) : Run P D :=
  { r with delta := { r.delta with changes := r.delta.changes ++ [{ path, change }] } }

/-- `delta.changes[dest_write_change_index] = ..`, where the index is that of the last change. -/
def replaceLastChange (path : P) (change : AppliedPatchFileChange P) (r : Run P D) : Run P D :=
  { r with delta := { r.delta with changes := r.delta.changes.dropLast ++ [{ path, change }] } }

def andExact (b : Bool) (r : Run P D) : Run P D :=
  { r with delta := { r.delta with exact := r.delta.exact && b } }

def pushAdded (path : Text) (r : Run P D) : Run P D :=
  { r with affected := { r.affected with added := r.affected.added ++ [path] } }

def pushModified (path : Text) (r : Run P D) : Run P D :=
  { r with affected := { r.affected with modified := r.affected.modified ++ [path] } }

def pushDeleted (path : Text) (r : Run P D) : Run P D :=
  { r with affected := { r.affected with deleted := r.affected.deleted ++ [path] } }

end Run

open Codex.ApplyPatch.Run

/-! ## Reading -/

structure AppliedPatch where
  originalContents : Text
  newContents : Text
deriving DecidableEq

section

variable (api : PathApi P K E) (fs : ExecutorFileSystem P D)

def deriveNewContentsFromChunks (path : P)
    (chunks : List UpdateFileChunk) : Program D (ApplyPatchError E) AppliedPatch := do
  let originalContents ← (fs.readFileText path).mapError fun err =>
    .ioError ("Failed to read file to update " ++ api.inferredNativePathString path) err
  let newContents ← ofResult ((newContents (api.inferredNativePathString path) chunks originalContents).mapError
    .computeReplacements)
  return { originalContents, newContents }

def ensureNotDirectory (fs : ExecutorFileSystem P D) (path : P) : Program D IoError Unit := do
  let metadata ← fs.getMetadata path
  if metadata.isDirectory then throw ⟨.invalidInput, "path is a directory"⟩ else return ()

def removeFailureWasSideEffectFree {ε : Type} (fs : ExecutorFileSystem P D) (path : P)
    (expectedContent : Option Text) : Program D ε Bool :=
  match expectedContent with
  | some expectedContent => do
    match ← (fs.readFileText path).attempt with
    | .ok content => return content = expectedContent
    | .error _ => return false
  | none => return false

def noteExistingPathDeltaSupport {ε : Type} (fs : ExecutorFileSystem P D) (path : P) :
    Program (Run P D) ε Unit := do
  match ← (onDisk (fs.getMetadata path)).attempt with
  | .ok metadata => if metadata.isFile && !metadata.isSymlink then return () else update setInexact
  | .error source => if source.kind = .notFound then return () else update setInexact

def readOptionalFileTextForDelta {ε : Type} (fs : ExecutorFileSystem P D) (path : P) :
    Program (Run P D) ε (Option Text) := do
  noteExistingPathDeltaSupport fs path
  match ← (onDisk (fs.readFileText path)).attempt with
  | .ok content => return some content
  | .error source =>
    if source.kind = .notFound then return none
    else
      update setInexact
      return none

/-! ## Writing -/

def failedToWrite (api : PathApi P K E) (path : P) (source : IoError) : ApplyFailure E :=
  .context ("Failed to write file " ++ api.inferredNativePathString path) source

def createParent (path : P) : Program D (ApplyFailure E) Unit :=
  match api.parent path with
  | some parent => (fs.createDirectory parent).mapError <| .context
      ("Failed to create parent directories for " ++ api.inferredNativePathString path)
  | none => return ()

def writeFileWithMissingParentRetry (path : P)
    (contents : Text) : Program D (ApplyFailure E) Unit := do
  match ← (fs.writeFile path contents).attempt with
  | .ok () => return ()
  | .error err =>
    if err.kind = .notFound then
      createParent api fs path
      (fs.writeFile path contents).mapError (failedToWrite api path)
    else throw (failedToWrite api path err)

/-- `try_write!`: after a failed write the delta is not exact. -/
def tryWrite (x : Program D (ApplyFailure E) Unit) : Program (Run P D) (ApplyFailure E) Unit := do
  match ← (onDisk x).attempt with
  | .ok () => return ()
  | .error error =>
    update setInexact
    throw error

def removeFile (message : Text) (path : P)
    (expectedContent : Option Text) : Program (Run P D) (ApplyFailure E) Unit := do
  (onDisk (ensureNotDirectory fs path)).mapError <| .context (message ++ api.inferredNativePathString path)
  match ← (onDisk (fs.remove path)).attempt with
  | .ok () => return ()
  | .error error =>
    let free ← onDisk (removeFailureWasSideEffectFree fs path expectedContent)
    update (andExact free)
    throw (.context (message ++ api.inferredNativePathString path) error)

end

/-! ## Hunks -/

section

variable (api : PathApi P K E) (fs : ExecutorFileSystem P D)

def applyAdd (path : P) (contents : Text) :
    Program (Run P D) (ApplyFailure E) Unit := do
  let overwrittenContent ← readOptionalFileTextForDelta fs path
  tryWrite (writeFileWithMissingParentRetry api fs path contents)
  update (pushChange path (.add contents overwrittenContent))

def applyDelete (path : P) :
    Program (Run P D) (ApplyFailure E) Unit := do
  noteExistingPathDeltaSupport fs path
  match ← (onDisk (fs.readFileText path)).attempt with
  | .ok content =>
    removeFile api fs "Failed to delete file " path (some content)
    update (pushChange path (.delete content))
  | .error _ =>
    update setInexact
    removeFile api fs "Failed to delete file " path none

def applyMove (cwd path : P) (dest : Text)
    (patch : AppliedPatch) : Program (Run P D) (ApplyFailure E) Unit := do
  let destUri ← ofResult ((api.join cwd dest).mapError .pathUri)
  let overwrittenMoveContent ← readOptionalFileTextForDelta fs destUri
  tryWrite (writeFileWithMissingParentRetry api fs destUri patch.newContents)
  update (pushChange destUri (.add patch.newContents overwrittenMoveContent))
  removeFile api fs "Failed to remove original " path (some patch.originalContents)
  update (replaceLastChange path
    (.update (some destUri) patch.originalContents overwrittenMoveContent patch.newContents))

def applyUpdate (path : P) (patch : AppliedPatch) :
    Program (Run P D) (ApplyFailure E) Unit := do
  tryWrite ((fs.writeFile path patch.newContents).mapError (failedToWrite api path))
  update (pushChange path (.update none patch.originalContents none patch.newContents))

def applyHunk (cwd : P) (hunk : Hunk) :
    Program (Run P D) (ApplyFailure E) Unit := do
  let path ← ofResult ((hunk.resolvePath api cwd).mapError .pathUri)
  match hunk with
  | .addFile _ contents =>
    applyAdd api fs path contents
    update (pushAdded hunk.path)
  | .deleteFile _ =>
    applyDelete api fs path
    update (pushDeleted hunk.path)
  | .updateFile _ movePath chunks =>
    noteExistingPathDeltaSupport fs path
    let patch ← (onDisk (deriveNewContentsFromChunks api fs path chunks)).mapError .applyPatch
    match movePath with
    | some dest => applyMove api fs cwd path dest patch
    | none => applyUpdate api fs path patch
    update (pushModified hunk.path)

end

def applyHunks (api : PathApi P K E) (fs : ExecutorFileSystem P D) (cwd : P) :
    List Hunk → Program (Run P D) (ApplyFailure E) Unit
  | [] => return ()
  | hunk :: hunks => do
    applyHunk api fs cwd hunk
    applyHunks api fs cwd hunks

def applyHunksToFiles (api : PathApi P K E) (fs : ExecutorFileSystem P D) (cwd : P) (hunks : List Hunk) :
    Program (Run P D) (ApplyFailure E) Unit :=
  if hunks.isEmpty then throw (.bail "No files were modified.") else applyHunks api fs cwd hunks

end Codex.ApplyPatch
