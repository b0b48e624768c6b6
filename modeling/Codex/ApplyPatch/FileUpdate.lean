import Mathlib.Data.List.Sort
import Codex.Result
import Codex.ApplyPatch.Hunk
import Codex.ApplyPatch.SeekSequence

/-!
# The new contents of an updated file

`SourceFile` of `apply-patch/src/text_file.rs` and `compute_replacements` of
`apply-patch/src/file_update.rs`.
-/

namespace Codex.ApplyPatch

open Codex.Text Codex.Result

/-! ## Source files -/

inductive LineEnding where
  | lf
  | crLf
  | cr
deriving DecidableEq

def LineEnding.asStr : LineEnding → Text
  | lf => "\n"
  | crLf => "\r\n"
  | cr => "\r"

structure SourceLine where
  text : Text
  ending : Option LineEnding
deriving DecidableEq

structure SourceFile where
  lines : List SourceLine
  preferredEnding : LineEnding
deriving DecidableEq

abbrev Replacement := Nat × Nat × List Text

namespace SourceFile

/-- The lines of the rest of a file whose current line starts with `line`. -/
def parseLines (line : Text) : Text → List SourceLine
  | [] => if line.isEmpty then [] else [{ text := line, ending := none }]
  | '\r' :: '\n' :: rest => { text := line, ending := some .crLf } :: parseLines [] rest
  | '\r' :: rest => { text := line, ending := some .cr } :: parseLines [] rest
  | '\n' :: rest => { text := line, ending := some .lf } :: parseLines [] rest
  | c :: rest => parseLines (line ++ [c]) rest

def parse (contents : Text) : SourceFile :=
  let lines := parseLines [] contents
  { lines, preferredEnding := (lines.findSome? SourceLine.ending).getD .lf }

def lineTexts (f : SourceFile) : List Text := f.lines.map SourceLine.text

/-- One round of `apply_replacements`: the source lines left, their index and the lines so far. -/
def replaceStep (ending : LineEnding) (st : List SourceLine × Nat × List SourceLine) (r : Replacement) :
    List SourceLine × Nat × List SourceLine :=
  let (source, sourceIndex, newLines) := st
  let (startIdx, oldLen, newSegment) := r
  ((source.drop (startIdx - sourceIndex)).drop oldLen, startIdx + oldLen,
    newLines ++ source.take (startIdx - sourceIndex) ++
      newSegment.map fun text => { text, ending := some ending })

def applyReplacements (f : SourceFile) (replacements : List Replacement) : SourceFile :=
  let (source, _, newLines) := replacements.foldl (replaceStep f.preferredEnding) (f.lines, 0, [])
  { f with lines := (newLines ++ source).map fun line =>
      { line with ending := some (line.ending.getD f.preferredEnding) } }

def intoContents (f : SourceFile) : Text :=
  f.lines.flatMap fun line => line.text ++ (line.ending.map LineEnding.asStr).getD []

lemma intoContents_parseLines (line txt : Text) (ending : LineEnding) :
    (SourceFile.mk (parseLines line txt) ending).intoContents = line ++ txt := by
  induction line, txt using parseLines.induct with
  | case1 line he =>
    obtain rfl := List.isEmpty_iff.mp he
    simp [parseLines, intoContents]
  | case2 line he => simp [parseLines, intoContents, he]
  | case3 line rest ih | case4 line rest _ ih | case5 line rest ih =>
    simp only [intoContents] at ih ⊢
    simp [parseLines, LineEnding.asStr, ih]
  | case6 line c rest h1 h2 h3 ih =>
    simpa [parseLines, h2] using ih

end SourceFile

/-! ## Replacements -/

def contextNotFoundMessage (ctxLine path : Text) : Text :=
  "Failed to find context '" ++ ctxLine ++ "' in ".toList ++ path

def linesNotFoundMessage (path : Text) (oldLines : List Text) : Text :=
  "Failed to find expected lines in " ++ path ++ ":\n".toList ++ joinLf oldLines

/-- The changes between the context lines of a chunk found at `startIdx`, and where the last of those
context lines ends. -/
def contextReplacements (startIdx : Nat) (pattern newSlice : List Text) :
    List (Nat × Nat) → Nat → Nat → List Replacement × Nat × Nat
  | [], oldStart, newStart => ([], oldStart, newStart)
  | (oldContext, newContext) :: rest, oldStart, newStart =>
    if pattern.length ≤ oldContext || newSlice.length ≤ newContext then ([], oldStart, newStart)
    else
      let (replacements, last) :=
        contextReplacements startIdx pattern newSlice rest (oldContext + 1) (newContext + 1)
      if oldStart ≠ oldContext || newStart ≠ newContext then
        ((startIdx + oldStart, oldContext - oldStart, (newSlice.take newContext).drop newStart) :: replacements, last)
      else (replacements, last)

def chunkReplacements (startIdx : Nat) (pattern newSlice : List Text) (indices : List (Nat × Nat)) : List Replacement :=
  let (replacements, oldStart, newStart) := contextReplacements startIdx pattern newSlice indices 0 0
  if oldStart ≠ pattern.length || newStart ≠ newSlice.length then
    replacements ++ [(startIdx + oldStart, pattern.length - oldStart, newSlice.drop newStart)]
  else replacements

def withoutTrailingEmpty (ls : List Text) : List Text :=
  if ls.getLast?.any List.isEmpty then ls.dropLast else ls

section

variable (originalLines : List Text)

def findChunk (lineIndex : Nat) (chunk : UpdateFileChunk) : Option (Nat × List Text × List Text) :=
  match seekSequence originalLines chunk.oldLines lineIndex chunk.isEndOfFile with
  | some idx => some (idx, chunk.oldLines, chunk.newLines)
  | none =>
    if chunk.oldLines.getLast?.any List.isEmpty then
      (seekSequence originalLines chunk.oldLines.dropLast lineIndex chunk.isEndOfFile).map
        (·, chunk.oldLines.dropLast, withoutTrailingEmpty chunk.newLines)
    else none

def seekContext (path : Text) (lineIndex : Nat) (chunk : UpdateFileChunk) : Except Text Nat :=
  match chunk.changeContext with
  | none => .ok lineIndex
  | some ctxLine =>
    match seekSequence originalLines [ctxLine] lineIndex false with
    | some idx => .ok (idx + 1)
    | none => .error (contextNotFoundMessage ctxLine path)

def replaceChunk (path : Text) (st : List Replacement × Nat)
    (chunk : UpdateFileChunk) : Except Text (List Replacement × Nat) := do
  let lineIndex ← seekContext originalLines path st.2 chunk
  if chunk.oldLines.isEmpty then
    return (st.1 ++ [(originalLines.length, 0, chunk.newLines)], lineIndex)
  else match findChunk originalLines lineIndex chunk with
    | some (startIdx, pattern, newSlice) =>
      return (st.1 ++ chunkReplacements startIdx pattern newSlice chunk.contextLineIndices, startIdx + pattern.length)
    | none => throw (linesNotFoundMessage path chunk.oldLines)

/-- The error is the text of `ApplyPatchError::ComputeReplacements`. -/
def computeReplacements (path : Text) (chunks : List UpdateFileChunk) :
    Except Text (List Replacement) := do
  let (replacements, _) ← chunks.foldlM (replaceChunk originalLines path) ([], 0)
  return replacements.insertionSort fun a b => a.1 ≤ b.1

end

def newContents (path : Text) (chunks : List UpdateFileChunk) (originalContents : Text) : Except Text Text := do
  let sourceFile := SourceFile.parse originalContents
  let replacements ← computeReplacements sourceFile.lineTexts path chunks
  return (sourceFile.applyReplacements replacements).intoContents

end Codex.ApplyPatch
