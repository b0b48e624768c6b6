import Codex.ApplyPatch.Hunk

/-! # The grammar at the head of `apply-patch/src/parser.rs` read as a printer -/

namespace Codex.ApplyPatch.Print

open Codex.Text

/-! ## What can be printed -/

structure Line where
  text : Text
  no_lf : '\n' ∉ text
  no_cr : text.getLast? ≠ some '\r'

/-- A file name or an environment id: one line, not empty, with no white space around it. -/
structure Name where
  text : Text
  ne_nil : text ≠ []
  no_lf : '\n' ∉ text
  trimmed : trim text = text

structure Context where
  text : Text
  ne_nil : text ≠ []
  no_lf : '\n' ∉ text
  trimmed : trimEnd text = text

inductive Change where
  | context (line : Line)
  | added (line : Line)
  | removed (line : Line)

structure Body where
  changes : List Change
  ne_nil : changes ≠ []
  isEndOfFile : Bool

/-- `none` is the bare `@@`. -/
abbrev Header := Option Context

inductive PrintedHunk where
  | addFile (path : Name) (lines : List Line)
  | deleteFile (path : Name)
  | updateFile (path : Name) (movePath : Option Name) (header : Option Header) (body : Body)
      (rest : List (Header × Body))

/-! ## The printer -/

def Change.render : Change → Text
  | context line => ' ' :: line.text
  | added line => '+' :: line.text
  | removed line => '-' :: line.text

def Body.render (b : Body) : List Text :=
  b.changes.map Change.render ++ if b.isEndOfFile then [eofMarker] else []

def Header.render : Header → Text
  | none => emptyChangeContextMarker
  | some context => changeContextMarker ++ context.text

def renderChunk (c : Header × Body) : List Text := Header.render c.1 :: c.2.render

def PrintedHunk.render : PrintedHunk → List Text
  | addFile path lines => (addFileMarker ++ path.text) :: lines.map fun line => '+' :: line.text
  | deleteFile path => [deleteFileMarker ++ path.text]
  | updateFile path movePath header body rest =>
    (updateFileMarker ++ path.text) :: (movePath.toList.map (moveToMarker ++ ·.text) ++
      (header.toList.map Header.render ++ body.render) ++ rest.flatMap renderChunk)

def renderLines (environmentId : Option Name) (hunks : List PrintedHunk) : List Text :=
  beginPatchMarker :: (environmentId.toList.map (fun id => environmentIdMarker ++ ' ' :: id.text) ++
    hunks.flatMap PrintedHunk.render)

def render (environmentId : Option Name) (hunks : List PrintedHunk) (finalLf : Bool) : Text :=
  joinLf (renderLines environmentId hunks ++ [endPatchMarker]) ++ if finalLf then ['\n'] else []

/-! ## What was printed -/

def Change.old : Change → Option Text
  | context line => some line.text
  | added _ => none
  | removed line => some line.text

def Change.new : Change → Option Text
  | context line => some line.text
  | added line => some line.text
  | removed _ => none

def contextIndices (old new : Nat) : List Change → List (Nat × Nat)
  | [] => []
  | .context _ :: cs => (old, new) :: contextIndices (old + 1) (new + 1) cs
  | .added _ :: cs => contextIndices old (new + 1) cs
  | .removed _ :: cs => contextIndices (old + 1) new cs

def Body.toChunk (changeContext : Header) (b : Body) : UpdateFileChunk where
  changeContext := changeContext.map Context.text
  oldLines := b.changes.filterMap Change.old
  newLines := b.changes.filterMap Change.new
  contextLineIndices := contextIndices 0 0 b.changes
  isEndOfFile := b.isEndOfFile

def PrintedHunk.toHunk : PrintedHunk → Hunk
  | addFile path lines => .addFile path.text (lines.flatMap fun line => line.text ++ ['\n'])
  | deleteFile path => .deleteFile path.text
  | updateFile path movePath header body rest =>
    .updateFile path.text (movePath.map Name.text)
      (body.toChunk (header.getD none) :: rest.map fun c => c.2.toChunk c.1)

end Codex.ApplyPatch.Print
