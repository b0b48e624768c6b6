import Codex.ApplyPatch.Hunk

/-!
# The streaming patch parser

`StreamingPatchParser` of `apply-patch/src/streaming_parser.rs`; nothing reads the parser after an error.
-/

namespace Codex.ApplyPatch

open Codex.Text

inductive StreamingParserMode where
  | notStarted
  | startedPatch
  | addFile
  | deleteFile
  | updateFile (hunkLineNumber : Nat)
  | endedPatch
deriving DecidableEq

structure StreamingParserState where
  mode : StreamingParserMode := .notStarted
  hunks : List Hunk := []
  environmentId : Option Text := none
deriving DecidableEq

structure StreamingPatchParser where
  lineBuffer : Text := []
  state : StreamingParserState := {}
  lineNumber : Nat := 0
deriving DecidableEq

/-! ## The messages -/

def firstLineError : ParseError :=
  .invalidPatchError "The first line of the patch must be '*** Begin Patch'"

def lastLineError : ParseError :=
  .invalidPatchError "The last line of the patch must be '*** End Patch'"

def hunkHeaderMessage (trimmed : Text) : Text :=
  "'" ++ trimmed ++ "' is not a valid hunk header. Valid hunk headers: '*** Add File: \x7bpath\x7d', ".toList ++
    "'*** Delete File: \x7bpath\x7d', '*** Update File: \x7bpath\x7d'".toList

def unexpectedLineMessage (line : Text) : Text :=
  "Unexpected line found in update hunk: '" ++ line ++ "'. Every line should start with ' ' ".toList ++
    "(context line), '+' (added line), or '-' (removed line)".toList

def expectedContextMessage (line : Text) : Text :=
  "Expected update hunk to start with a @@ context marker, got: '" ++ line ++ "'".toList

def noLinesMessage : Text := "Update hunk does not contain any lines"

def emptyHunkMessage (path : Text) : Text :=
  "Update file hunk for path '" ++ path ++ "' is empty".toList

namespace StreamingPatchParser

section

variable (p : StreamingPatchParser)

def environmentId : Option Text := p.state.environmentId

/-! ## Headers -/

def lastChunkIsBare (chunks : List UpdateFileChunk) : Bool :=
  chunks.getLast?.any UpdateFileChunk.isBare

def ensureUpdateHunkIsNotEmpty (line : Text) : Except ParseError Unit :=
  match p.state.hunks.getLast? with
  | some (.updateFile path _ chunks) =>
    match chunks, p.state.mode with
    | [], .updateFile hunkLineNumber =>
      .error (.invalidHunkError (emptyHunkMessage path) hunkLineNumber)
    | _, _ =>
      if lastChunkIsBare chunks then
        if line = endPatchMarker then .error (.invalidHunkError noLinesMessage p.lineNumber)
        else .error (.invalidHunkError (unexpectedLineMessage line) p.lineNumber)
      else .ok ()
  | _ => .ok ()

def setMode (mode : StreamingParserMode) : StreamingPatchParser :=
  { p with state := { p.state with mode := mode } }

def startHunk (trimmed : Text) (hunk : Hunk)
    (mode : StreamingParserMode) : Except ParseError (Option StreamingPatchParser) := do
  p.ensureUpdateHunkIsNotEmpty trimmed
  return some { p with state := { p.state with hunks := p.state.hunks ++ [hunk], mode := mode } }

def handleEnvironmentId (rest : Text) : Except ParseError (Option StreamingPatchParser) :=
  if p.state.environmentId.isSome then
    .error (.invalidPatchError "apply_patch environment_id cannot be specified more than once")
  else if trim rest = [] then
    .error (.invalidPatchError "apply_patch environment_id cannot be empty")
  else .ok (some { p with state := { p.state with environmentId := some (trim rest) } })

/-- `none` where the source returns `Ok(false)`: the line is no header. -/
def handleHunkHeadersAndEndPatch (trimmed : Text) : Except ParseError (Option StreamingPatchParser) :=
  match p.state.mode, stripPrefix environmentIdMarker trimmed with
  | .startedPatch, some rest => p.handleEnvironmentId rest
  | _, _ =>
    if trimmed = endPatchMarker then do
      p.ensureUpdateHunkIsNotEmpty trimmed
      return some (p.setMode .endedPatch)
    else match stripPrefix addFileMarker trimmed with
      | some path => p.startHunk trimmed (.addFile path []) .addFile
      | none => match stripPrefix deleteFileMarker trimmed with
        | some path => p.startHunk trimmed (.deleteFile path) .deleteFile
        | none => match stripPrefix updateFileMarker trimmed with
          | some path =>
            p.startHunk trimmed (.updateFile path none []) (.updateFile p.lineNumber)
          | none => .ok none

/-! ## The lines of an update hunk -/

section

variable (path : Text) (movePath : Option Text) (chunks : List UpdateFileChunk)

def setUpdateHunk : StreamingPatchParser :=
  { p with state := { p.state with
      hunks := p.state.hunks.dropLast ++ [.updateFile path movePath chunks] } }

def onLastChunk (chunks : List UpdateFileChunk) (f : UpdateFileChunk → UpdateFileChunk) : List UpdateFileChunk :=
  match chunks.getLast? with
  | none => [f {}]
  | some chunk => chunks.dropLast ++ [f chunk]

def markEndOfFile (chunks : List UpdateFileChunk) : List UpdateFileChunk :=
  match chunks.getLast? with
  | none => []
  | some chunk => chunks.dropLast ++ [{ chunk with isEndOfFile := true }]

def isContextMarker (updateLine : Text) : Bool :=
  updateLine = emptyChangeContextMarker || startsWith changeContextMarker updateLine

def moveTarget (movePath : Option Text) (chunks : List UpdateFileChunk) (updateLine : Text) : Option Text :=
  if chunks.isEmpty && movePath.isNone then stripPrefix moveToMarker updateLine else none

/-- The `' '`, `'+'` and `'-'` lines. An empty line is an empty context line. -/
def processChangeLine (line : Text) : Except ParseError StreamingPatchParser :=
  match line with
  | [] => .ok (p.setUpdateHunk path movePath (onLastChunk chunks (·.pushContextLine [])))
  | ' ' :: text => .ok (p.setUpdateHunk path movePath (onLastChunk chunks (·.pushContextLine text)))
  | '+' :: text => .ok (p.setUpdateHunk path movePath (onLastChunk chunks (·.pushNewLine text)))
  | '-' :: text => .ok (p.setUpdateHunk path movePath (onLastChunk chunks (·.pushOldLine text)))
  | _ =>
    if chunks.getLast?.any (fun chunk => !chunk.isBare) then
      .error (.invalidHunkError (expectedContextMessage line) p.lineNumber)
    else .error (.invalidHunkError (unexpectedLineMessage line) p.lineNumber)

def processUpdateLine (line : Text) : Except ParseError StreamingPatchParser :=
  let updateLine := trimEnd line
  let closed := chunks.getLast?.any (·.isEndOfFile)
  if closed && updateLine.isEmpty then .ok p
  else if closed && !isContextMarker updateLine then
    .error (.invalidHunkError (expectedContextMessage line) p.lineNumber)
  else match moveTarget movePath chunks updateLine with
    | some dest => .ok (p.setUpdateHunk path (some dest) chunks)
    | none =>
      if isContextMarker updateLine && lastChunkIsBare chunks then
        .error (.invalidHunkError (unexpectedLineMessage line) p.lineNumber)
      else if updateLine = emptyChangeContextMarker then
        .ok (p.setUpdateHunk path movePath (chunks ++ [{}]))
      else match stripPrefix changeContextMarker updateLine with
        | some changeContext =>
          .ok (p.setUpdateHunk path movePath (chunks ++ [{ changeContext := some changeContext }]))
        | none =>
          if updateLine = eofMarker then
            if lastChunkIsBare chunks then
              .error (.invalidHunkError noLinesMessage p.lineNumber)
            else .ok (p.setUpdateHunk path movePath (markEndOfFile chunks))
          else p.processChangeLine path movePath chunks line

end

end

/-! ## One line, and whole deltas -/

section

variable (p : StreamingPatchParser)

def hunkHeaderError (trimmed : Text) : ParseError :=
  .invalidHunkError (hunkHeaderMessage trimmed) p.lineNumber

def processAddLine (line : Text) : Except ParseError StreamingPatchParser :=
  match line, p.state.hunks.getLast? with
  | '+' :: text, some (.addFile path contents) =>
    .ok { p with state := { p.state with
      hunks := p.state.hunks.dropLast ++ [.addFile path (contents ++ text ++ ['\n'])] } }
  | _, _ => .error (p.hunkHeaderError (trim line))

def processLine (line : Text) : Except ParseError StreamingPatchParser :=
  match p.state.mode with
  | .notStarted =>
    if trim line = beginPatchMarker then .ok (p.setMode .startedPatch) else .error firstLineError
  | .startedPatch => do
    match ← p.handleHunkHeadersAndEndPatch (trim line) with
    | some q => return q
    | none => throw (p.hunkHeaderError (trim line))
  | .addFile => do
    match ← p.handleHunkHeadersAndEndPatch (trim line) with
    | some q => return q
    | none => p.processAddLine line
  | .deleteFile => do
    match ← p.handleHunkHeadersAndEndPatch (trim line) with
    | some q => return q
    | none => throw (p.hunkHeaderError (trim line))
  | .updateFile _ => do
    match ← p.handleHunkHeadersAndEndPatch (trimEnd line) with
    | some q => return q
    | none => match p.state.hunks.getLast? with
      | some (.updateFile path movePath chunks) => p.processUpdateLine path movePath chunks line
      | _ => throw (.invalidHunkError (unexpectedLineMessage line) p.lineNumber)
  | .endedPatch => if (trim line).isEmpty then .ok p else .error lastLineError

/-- One character: LF hands the buffered line on, without one CR at its end. -/
def pushChar (ch : Char) : Except ParseError StreamingPatchParser :=
  if ch = '\n' then
    { p with lineBuffer := [], lineNumber := p.lineNumber + 1 }.processLine (stripCr p.lineBuffer)
  else .ok { p with lineBuffer := p.lineBuffer ++ [ch] }

/-- `push_delta`. The hunks it returns are those of the parser it leaves. -/
def pushDelta (delta : Text) : Except ParseError StreamingPatchParser :=
  delta.foldlM pushChar p

def finishLine : Except ParseError StreamingPatchParser :=
  if p.lineBuffer.isEmpty then .ok p
  else
    let line := p.lineBuffer
    let q := { p with lineBuffer := [], lineNumber := p.lineNumber + 1 }
    if trim line = endPatchMarker then do
      q.ensureUpdateHunkIsNotEmpty (trim line)
      return q.setMode .endedPatch
    else q.processLine line

def finish : Except ParseError StreamingPatchParser := do
  let q ← p.finishLine
  if q.state.mode = .endedPatch then return q else throw lastLineError

end

end StreamingPatchParser

end Codex.ApplyPatch
