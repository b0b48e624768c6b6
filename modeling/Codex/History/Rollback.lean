import Codex.History.Prompt
import Codex.History.RetainedContext

/-!
# Removing turns from a history

`remove_first_item` and `drop_last_n_user_turns` of `core/src/context_manager/history.rs`. How the harness marks its
own texts is a parameter. Transcript, token counts and review mode are left out.
-/

namespace Codex.History

open Codex.Text ResponseItem

/-- Which texts are marked as written by the harness, and which are structured instructions of another agent. -/
structure TextMarkers where
  contextualUser : Text → Bool
  summary : Text → Bool
  interAgent : Text → Bool
  contextualDeveloper : Text → Bool
  /-- Instructions for the model and its effort, which are written anew after a rollback. -/
  rebuilt : Text → Bool

def savedPrefixKind : Text := "permissions.approved_command_prefix_saved".toList

def ContentItem.inputTextSatisfies (p : Text → Bool) : ContentItem → Bool
  | inputText text => p text
  | _ => false

section
variable (markers : TextMarkers)

def isContextualUserMessageContent (content : List ContentItem) : Bool :=
  content.any (ContentItem.inputTextSatisfies markers.contextualUser)

def isInterAgentInstructionContent : List ContentItem → Bool
  | [.inputText text] => markers.interAgent text
  | [.outputText text _ _] => markers.interAgent text
  | _ => false

def isUserTurnBoundary : ResponseItem → Bool
  | agentMessage _ => true
  | message m =>
    (m.role = "user".toList && !isContextualUserMessageContent markers m.content &&
      !m.content.any (ContentItem.inputTextSatisfies markers.summary)) ||
    (m.role = "assistant".toList && isInterAgentInstructionContent markers m.content)
  | _ => false

def userMessagePositions (items : List ResponseItemEnvelope) : List Nat :=
  items.zipIdx.filterMap fun entry => if isUserTurnBoundary markers entry.1.item then some entry.2 else none

def contextualDevFragments (content : List ContentItem) (kinds : List Text) : List Bool :=
  content.zipIdx.map fun entry =>
    (kinds[entry.2]? = some savedPrefixKind) || entry.1.inputTextSatisfies markers.contextualDeveloper

end

structure ContextManager where
  items : List ResponseItemEnvelope
  retainedContext : RetainedContext
  historyVersion : U64
  resetVersion : U64
  userMessageRevision : U64
  referenceContextItem : Option Text
  worldStateBaseline : Option Text

/-! ## The oldest item -/

section

variable (callId : Text)

def isFunctionCallOutput : ResponseItem → Bool
  | functionCallOutput _ (some existing) _ _ _ _ => existing = callId
  | _ => false

def isFunctionCall : ResponseItem → Bool
  | functionCall _ existing => existing = callId
  | _ => false

def isLocalShellCall : ResponseItem → Bool
  | localShellCall _ (some existing) => existing = callId
  | _ => false

def isToolSearchOutput : ResponseItem → Bool
  | toolSearchOutput _ (some existing) _ _ _ _ => existing = callId
  | _ => false

def isToolSearchCall : ResponseItem → Bool
  | toolSearchCall _ (some existing) => existing = callId
  | _ => false

def isCustomToolCallOutput : ResponseItem → Bool
  | customToolCallOutput _ existing _ _ _ => existing = callId
  | _ => false

def isCustomToolCall : ResponseItem → Bool
  | customToolCall _ existing => existing = callId
  | _ => false

end

def removeFirstMatching (items : List ResponseItemEnvelope) (predicate : ResponseItem → Bool) :
    List ResponseItemEnvelope :=
  items.eraseP fun envelope => predicate envelope.item

def removeCorrespondingFor (items : List ResponseItemEnvelope) : ResponseItem → List ResponseItemEnvelope
  | functionCall _ callId => removeFirstMatching items (isFunctionCallOutput callId)
  | functionCallOutput _ (some callId) _ _ _ _ =>
    if items.any fun envelope => isFunctionCall callId envelope.item then
      removeFirstMatching items (isFunctionCall callId)
    else removeFirstMatching items (isLocalShellCall callId)
  | toolSearchCall _ (some callId) => removeFirstMatching items (isToolSearchOutput callId)
  | toolSearchOutput _ (some callId) _ _ _ _ => removeFirstMatching items (isToolSearchCall callId)
  | customToolCall _ callId => removeFirstMatching items (isCustomToolCallOutput callId)
  | customToolCallOutput _ callId _ _ _ => removeFirstMatching items (isCustomToolCall callId)
  | localShellCall _ (some callId) => removeFirstMatching items (isFunctionCallOutput callId)
  | _ => items

namespace ContextManager

def removeFirstItem (manager : ContextManager) : ContextManager :=
  match manager.items with
  | [] => manager
  | removed :: items =>
    { manager with
      items := removeCorrespondingFor items removed.item
      worldStateBaseline := none }

/-! ## The last turns -/

def replaceAnnotated (manager : ContextManager) (items : List ResponseItemEnvelope) : ContextManager :=
  { manager with
    retainedContext := .empty
    userMessageRevision := manager.userMessageRevision.saturatingAdd 1
    items := items
    historyVersion := manager.historyVersion.saturatingAdd 1
    resetVersion := manager.historyVersion.saturatingAdd 1
    worldStateBaseline := none }

/-- What the item above a cut is, if the cut goes above it too. -/
def trimmed (markers : TextMarkers) : ResponseItem → Option Bool
  | message m =>
    if m.role = "developer".toList then
      let kinds := (m.passthrough.bind (·.contentItemKinds)).getD []
      let contextualCount := ((contextualDevFragments markers m.content kinds).filter (·)).length
      if contextualCount = 0 then none else some (contextualCount < m.content.length)
    else if m.role = "user".toList && isContextualUserMessageContent markers m.content then some false
    else none
  | _ => none

/-- The walk back from a cut, and whether it passed a mixed message. -/
def trimPreTurnContextUpdates (markers : TextMarkers) (snapshot : List ResponseItemEnvelope)
    (firstInstructionTurnIdx : Nat) : Nat → Nat × Bool
  | 0 => (0, false)
  | cutIdx + 1 =>
    if cutIdx + 1 > firstInstructionTurnIdx then
      match snapshot[cutIdx]?.bind fun envelope => trimmed markers envelope.item with
      | none => (cutIdx + 1, false)
      | some mixed =>
        let above := trimPreTurnContextUpdates markers snapshot firstInstructionTurnIdx cutIdx
        (above.1, mixed || above.2)
    else (cutIdx + 1, false)

def isAssistantMessage : ResponseItem → Bool
  | message m => m.role = "assistant".toList
  | _ => false

def isAnyFunctionCall : ResponseItem → Bool
  | functionCall _ _ => true
  | _ => false

def acceptanceOrder (envelope : ResponseItemEnvelope) : Option U64 :=
  (RetainedInputSource.fromMetadata envelope.metadata).acceptanceOrder

def acceptedFrom (source : RetainedInputSource) (envelope : ResponseItemEnvelope) : Bool :=
  source.acceptanceOrder.any fun boundary =>
    (isAssistantMessage envelope.item || isAnyFunctionCall envelope.item) &&
      (acceptanceOrder envelope).any fun order => boundary ≤ order

/-- A developer message of the first turn, without what is written anew. -/
def withoutRebuilt (markers : TextMarkers) (firstTurnId : Text) (envelope : ResponseItemEnvelope) :
    Option ResponseItemEnvelope :=
  match envelope.item with
  | message m =>
    if envelope.item.turnId = some firstTurnId ∧ m.role = "developer".toList then
      let content := (toAnnotatedContent m).filter fun part => !part.content.inputTextSatisfies markers.rebuilt
      if content.isEmpty then none else some { envelope with item := message (setAnnotatedContent m content) }
    else some envelope
  | _ => some envelope

def keepsAnswer (snapshot : List ResponseItemEnvelope) (cutIdx : Nat) (removedTurns : List Text)
    (answer : VerifiedAnswer) : Bool :=
  -- Legacy answers follow their original call, not later steers in the same turn.
  match (snapshot.zipIdx.reverse.find? fun entry =>
      entry.1.item.turnId = some answer.turnId && isFunctionCall answer.callId entry.1.item) with
  | some entry => entry.2 < cutIdx
  | none => !removedTurns.contains answer.turnId

/-- The history cut at the instruction at `turnIdx`, and what else was accepted from there on. -/
def dropTurnsFrom (markers : TextMarkers) (manager : ContextManager) (firstInstructionTurnIdx turnIdx : Nat) :
    ContextManager :=
  let snapshot := manager.items
  let boundary := snapshot[turnIdx]?
  let firstRemovedMessageId := boundary.bind (·.item.id)
  let source := RetainedInputSource.fromMetadata (boundary.bind (·.metadata))
  let cut := trimPreTurnContextUpdates markers snapshot firstInstructionTurnIdx turnIdx
  let cutIdx := cut.1
  let retained := (snapshot.take cutIdx).filter fun envelope => !acceptedFrom source envelope
  let firstTurnId := snapshot[firstInstructionTurnIdx]?.bind (·.item.turnId)
  let retainedItems :=
    if cutIdx = firstInstructionTurnIdx then
      firstTurnId.elim retained fun turnId => retained.filterMap (withoutRebuilt markers turnId)
    else retained
  let removedTurns := (snapshot.drop cutIdx).filterMap (·.item.turnId)
  let retainedContext :=
    if source = .inherited ∨ source.acceptanceOrder.isSome ∨ manager.retainedContext.userMessages ≠ [] then
      manager.retainedContext.rollback removedTurns firstRemovedMessageId source
    else manager.retainedContext.retainAnswers (keepsAnswer snapshot cutIdx removedTurns)
  { manager.replaceAnnotated retainedItems with
    retainedContext := retainedContext
    referenceContextItem := if cut.2 then none else manager.referenceContextItem }

def firstDropped (userPositions : List Nat) (firstInstructionTurnIdx numTurns : Nat) : Nat :=
  if numTurns ≥ userPositions.length then firstInstructionTurnIdx
  else userPositions.getD (userPositions.length - numTurns) 0

def dropLastNUserTurns (markers : TextMarkers) (manager : ContextManager) (numTurns : Nat) : ContextManager :=
  if numTurns = 0 then manager
  else
    match userMessagePositions markers manager.items with
    | [] => { manager.replaceAnnotated manager.items with retainedContext := manager.retainedContext }
    | firstInstructionTurnIdx :: later =>
      manager.dropTurnsFrom markers firstInstructionTurnIdx
        (firstDropped (firstInstructionTurnIdx :: later) firstInstructionTurnIdx numTurns)

end ContextManager

end Codex.History
