import Codex.Result
import Codex.ApplyPatch.StreamingParser

/-! # Parsing a whole patch: `parse_patch` of `apply-patch/src/parser.rs` -/

namespace Codex.ApplyPatch

open Codex.Text Codex.Result

inductive ParseMode where
  | strict
  | lenient
deriving DecidableEq

def parseInStrictMode : Bool := false

def checkStartAndEndLinesStrict (firstLine lastLine : Option Text) : Except ParseError Unit :=
  match firstLine.map trim, lastLine.map trim with
  | some first, some last =>
    if first = beginPatchMarker ∧ last = endPatchMarker then .ok ()
    else if first ≠ beginPatchMarker then .error firstLineError
    else .error lastLineError
  | some first, none => if first ≠ beginPatchMarker then .error firstLineError else .error lastLineError
  | none, _ => .error lastLineError

def checkPatchBoundariesStrict (lines : List Text) : Except ParseError (List Text) := do
  checkStartAndEndLinesStrict lines.head? lines.getLast?
  return lines

def heredocStarts : List Text := ["<<EOF", "<<'EOF'", "<<\"EOF\""]

/-- The lines of a heredoc count without its first and last line. -/
def checkPatchBoundariesLenient (originalLines : List Text) : Except ParseError (List Text) :=
  match checkPatchBoundariesStrict originalLines with
  | .ok lines => .ok lines
  | .error originalParseError =>
    match originalLines.head?, originalLines.getLast? with
    | some first, some last =>
      if heredocStarts.contains first && List.isSuffixOf "EOF".toList last &&
          4 ≤ originalLines.length then
        checkPatchBoundariesStrict (originalLines.drop 1).dropLast
      else .error originalParseError
    | _, _ => .error originalParseError

lemma checkPatchBoundariesLenient_of_strict (h : checkStartAndEndLinesStrict ls.head? ls.getLast? = .ok ()) :
    checkPatchBoundariesLenient ls = .ok ls := by
  have hs : checkPatchBoundariesStrict ls = .ok ls := by
    rw [checkPatchBoundariesStrict, h, ok_bind, pure_eq_ok]
  rw [checkPatchBoundariesLenient, hs]

def parsePatchText (patch : Text) (mode : ParseMode) : Except ParseError ApplyPatchArgs := do
  let originalLines := lines (trim patch)
  let patchLines ← match mode with
    | .strict => checkPatchBoundariesStrict originalLines
    | .lenient => checkPatchBoundariesLenient originalLines
  let patch := joinLf patchLines
  let parser ← StreamingPatchParser.pushDelta {} patch
  let parser ← parser.finish
  return { patch, hunks := parser.state.hunks, workdir := none, environmentId := parser.environmentId }

def parsePatch (patch : Text) : Except ParseError ApplyPatchArgs :=
  parsePatchText patch (if parseInStrictMode then .strict else .lenient)

end Codex.ApplyPatch
