import Codex.Text

/-! # The hunks of a patch: the data of `apply-patch/src/parser.rs`, a `PathBuf` as its text -/

namespace Codex.ApplyPatch

open Codex.Text

/-! ## The markers -/

def beginPatchMarker : Text := "*** Begin Patch"
def endPatchMarker : Text := "*** End Patch"
def addFileMarker : Text := "*** Add File: "
def deleteFileMarker : Text := "*** Delete File: "
def updateFileMarker : Text := "*** Update File: "
def moveToMarker : Text := "*** Move to: "
def eofMarker : Text := "*** End of File"
def changeContextMarker : Text := "@@ "
def emptyChangeContextMarker : Text := "@@"
def environmentIdMarker : Text := "*** Environment ID:"

/-! ## Errors and hunks -/

inductive ParseError where
  | invalidPatchError (message : Text)
  | invalidHunkError (message : Text) (lineNumber : Nat)
deriving DecidableEq

structure UpdateFileChunk where
  changeContext : Option Text := none
  oldLines : List Text := []
  newLines : List Text := []
  /-- Indices into `oldLines` and `newLines` of the lines parsed as context. -/
  contextLineIndices : List (Nat × Nat) := []
  isEndOfFile : Bool := false
deriving DecidableEq

namespace UpdateFileChunk

def pushContextLine (c : UpdateFileChunk) (line : Text) : UpdateFileChunk :=
  { c with
    contextLineIndices := c.contextLineIndices ++ [(c.oldLines.length, c.newLines.length)]
    oldLines := c.oldLines ++ [line]
    newLines := c.newLines ++ [line] }

def pushNewLine (c : UpdateFileChunk) (line : Text) : UpdateFileChunk :=
  { c with newLines := c.newLines ++ [line] }

def pushOldLine (c : UpdateFileChunk) (line : Text) : UpdateFileChunk :=
  { c with oldLines := c.oldLines ++ [line] }

def isBare (c : UpdateFileChunk) : Bool := c.oldLines.isEmpty && c.newLines.isEmpty

end UpdateFileChunk

inductive Hunk where
  | addFile (path contents : Text)
  | deleteFile (path : Text)
  | updateFile (path : Text) (movePath : Option Text) (chunks : List UpdateFileChunk)
deriving DecidableEq

namespace Hunk

def sourcePath : Hunk → Text
  | addFile path _ => path
  | deleteFile path => path
  | updateFile path _ _ => path

def path : Hunk → Text
  | addFile path _ => path
  | deleteFile path => path
  | updateFile _ (some dest) _ => dest
  | updateFile path none _ => path

end Hunk

structure ApplyPatchArgs where
  patch : Text
  hunks : List Hunk
  workdir : Option Text
  environmentId : Option Text
deriving DecidableEq

end Codex.ApplyPatch
