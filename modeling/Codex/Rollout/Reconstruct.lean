import Codex.History.Rollback

/-!
# Rebuilding a thread from its rollout

`core/src/session/rollout_reconstruction.rs`: a scan from the newest item on, then a replay from the oldest.
Attributions of turns and the recovery after a compaction are left out; the counter of turns does not saturate.
-/

namespace Codex.Rollout

open Codex.Text Codex.History

structure PreviousTurnSettings where
  model : Text
  cyberAccessProgram : Option Text
  compHash : Option Text
  realtimeActive : Option Bool
  deriving DecidableEq

structure TurnContextItem where
  turnId : Option Text
  settings : PreviousTurnSettings
  rest : Text
  deriving DecidableEq

structure ResumeMetadata where
  lastStartedTurnId : Option Text
  previousTurnSettings : Option PreviousTurnSettings
  /-- The turn of the saved attribution. -/
  attributedTurnId : Option Text
  deriving DecidableEq

structure CompactedItem where
  message : Text
  replacementHistory : Option (List ResponseItemEnvelope)
  retainedContext : Option RetainedContext
  guardianHistory : Option (List ResponseItemEnvelope)
  windowNumber : Option Nat
  firstWindowId : Option Text
  previousWindowId : Option Text
  windowId : Option Text
  resumeMetadata : Option ResumeMetadata

inductive RolloutItem (J : Type) where
  | sessionMeta (contextWindowId : Option Text)
  | responseItem (envelope : ResponseItemEnvelope)
  | interAgentCommunication (input : ResponseItem)
  | compacted (item : CompactedItem)
  | turnContext (context : TurnContextItem)
  | worldState (full : Bool) (state : J)
  | retainedContext (event : RetainedContextEvent)
  | turnStarted (turnId : Text)
  | turnComplete (turnId : Text)
  | turnAborted (turnId : Option Text)
  | userMessage (text : Text)
  | threadRolledBack (numTurns : Nat)
  | other

inductive ThreadHistoryMode where
  | legacy | paginated
  deriving DecidableEq

/-- What the rebuilding takes from other parts. -/
structure Replay (J W : Type) where
  markers : TextMarkers
  compactionOutput : CodexHarnessMetadata → Bool
  harnessAuthoredConfiguration : CodexHarnessMetadata → Bool
  truncate : Option CodexHarnessMetadata → FunctionCallOutputPayload → FunctionCallOutputPayload
  capture : ContextManager → ResponseItemEnvelope → RetainedContext × Option CodexHarnessMetadata
  recordRetainedContext : RetainedContext → RetainedContextEvent → RetainedContext
  restoreRetainedContext : ContextManager → Option RetainedContext → RetainedContext
  /-- The evidence is restored from a checkpoint with what the reviewer kept of it. -/
  restoreReviewContext : ContextManager → Option RetainedContext → Option (List ResponseItemEnvelope) → RetainedContext
  buildCompactedHistory : List ResponseItemEnvelope → Text → List ResponseItemEnvelope
  parseUuidV7 : Text → Option Text
  fromState : J → W
  applyMergePatch : W → J → W

variable {J W : Type}

/-! ## The replay -/

section

variable (p : Replay J W)

def isApiMessage (envelope : ResponseItemEnvelope) : Bool :=
  if envelope.metadata.any p.compactionOutput then false
  else
    match envelope.item with
    | .message m => m.role ≠ "system".toList
    | .configurationUpdate _ => envelope.metadata.any p.harnessAuthoredConfiguration
    | .compactionTrigger | .other => false
    | _ => true

def truncated (envelope : ResponseItemEnvelope) : ResponseItem :=
  match envelope.item with
  | .functionCallOutput id callId name toolNamespace output passthrough =>
    .functionCallOutput id callId name toolNamespace (p.truncate envelope.metadata output) passthrough
  | .customToolCallOutput id callId name output passthrough =>
    .customToolCallOutput id callId name (p.truncate envelope.metadata output) passthrough
  | item => item

def replayAnnotatedItem (history : ContextManager) (envelope : ResponseItemEnvelope) : ContextManager :=
  if isApiMessage p envelope then
    { history with
      items := history.items ++ [⟨truncated p envelope, (p.capture history envelope).2⟩]
      retainedContext := (p.capture history envelope).1 }
  else history

/-- A compaction that did not record what it left is made again from the user messages. -/
def replayCompacted (history : ContextManager) (compacted : CompactedItem) : ContextManager :=
  if compacted.replacementHistory.isNone then
    let replaced := history.replaceAnnotated (p.buildCompactedHistory history.items compacted.message)
    { replaced with retainedContext := p.restoreRetainedContext replaced (some history.retainedContext) }
  else history

def replayItem (history : ContextManager) : RolloutItem J → ContextManager
  | .retainedContext event =>
    { history with retainedContext := p.recordRetainedContext history.retainedContext event }
  | .responseItem envelope => replayAnnotatedItem p history envelope
  | .interAgentCommunication input => replayAnnotatedItem p history ⟨input, none⟩
  | .compacted compacted => replayCompacted p history compacted
  | .threadRolledBack numTurns => history.dropLastNUserTurns p.markers numTurns
  | _ => history

end

/-! ## The scan -/

structure Window where
  number : Nat
  firstId : Option Text
  previousId : Option Text
  id : Option Text
  deriving DecidableEq

/-- `neverSet`: no context was seen; `cleared`: there was one, and a later compaction made it invalid. -/
inductive TurnReference where
  | neverSet
  | cleared
  | latest (context : TurnContextItem)
  deriving DecidableEq

structure ReplayCheckpoint (J : Type) where
  compacted : CompactedItem
  suffix : List (RolloutItem J)

structure ActiveSegment (J : Type) where
  turnId : Option Text := none
  turnCompleted : Bool := false
  countsAsUserTurn : Bool := false
  previousTurnSettings : Option PreviousTurnSettings := none
  referenceContextItem : TurnReference := .neverSet
  worldStateReplay : List (RolloutItem J) := []
  historyCheckpoint : Option (ReplayCheckpoint J) := none
  window : Option Window := none

structure Scan (J : Type) where
  historyCheckpoint : Option (ReplayCheckpoint J) := none
  previousTurnSettings : Option PreviousTurnSettings := none
  referenceContextItem : TurnReference := .neverSet
  worldStateReplay : List (RolloutItem J) := []
  window : Option Window := none
  pendingRollbackTurns : Nat := 0
  lateCompletedTurnIds : List Text := []
  activeSegment : Option (ActiveSegment J) := none

def turnIdsAreCompatible (activeTurnId itemTurnId : Option Text) : Bool :=
  activeTurnId.all fun turnId => itemTurnId.all (· = turnId)

def isCompacted : RolloutItem J → Bool
  | .compacted _ => true
  | _ => false

def isFullSnapshot : RolloutItem J → Bool
  | .worldState full _ => full
  | _ => false

def hasContextBaseline (segment : ActiveSegment J) : Bool :=
  segment.countsAsUserTurn || (segment.worldStateReplay.takeWhile fun item => !isCompacted item).any isFullSnapshot

/-- A segment whose beginning was reached; the active segment is gone. -/
def finalizeActiveSegment (s : Scan J) (segment : ActiveSegment J) : Scan J :=
  if 0 < s.pendingRollbackTurns then { s with
    activeSegment := none
    pendingRollbackTurns :=
      if segment.countsAsUserTurn then s.pendingRollbackTurns - 1 else s.pendingRollbackTurns }
  else { s with
    activeSegment := none
    worldStateReplay := s.worldStateReplay ++ segment.worldStateReplay
    historyCheckpoint := s.historyCheckpoint.or segment.historyCheckpoint
    window := s.window.or segment.window
    previousTurnSettings :=
      if s.previousTurnSettings.isNone && hasContextBaseline segment then segment.previousTurnSettings
      else s.previousTurnSettings
    referenceContextItem :=
      if s.referenceContextItem = .neverSet ∧
          (hasContextBaseline segment ∨ segment.referenceContextItem = .cleared) then
        segment.referenceContextItem
      else s.referenceContextItem }

def windowFromCompaction (p : Replay J W) (compacted : CompactedItem) : Option Window :=
  compacted.windowNumber.map fun number =>
    ⟨number, compacted.firstWindowId.bind p.parseUuidV7, compacted.previousWindowId.bind p.parseUuidV7,
      compacted.windowId.bind p.parseUuidV7⟩

def windowFromSession (p : Replay J W) (windowId : Text) : Option Window :=
  (p.parseUuidV7 windowId).map fun id => ⟨0, some id, none, some id⟩

def Scan.segment (s : Scan J) : ActiveSegment J := s.activeSegment.getD {}

def Scan.withSegment (s : Scan J) (segment : ActiveSegment J) : Scan J := { s with activeSegment := some segment }

section

variable (p : Replay J W)

def scanCompacted (segment : ActiveSegment J) (compacted : CompactedItem) (suffix : List (RolloutItem J)) :
    ActiveSegment J := { segment with
  worldStateReplay := segment.worldStateReplay ++ [.compacted compacted]
  window := segment.window.or (windowFromCompaction p compacted)
  referenceContextItem :=
    if segment.referenceContextItem = .neverSet then .cleared else segment.referenceContextItem
  historyCheckpoint :=
    segment.historyCheckpoint.or
      (if compacted.replacementHistory.isSome then some ⟨compacted, suffix⟩ else none) }

def scanTurnContext (segment : ActiveSegment J) (context : TurnContextItem) : ActiveSegment J :=
  let segment := { segment with turnId := segment.turnId.or context.turnId }
  if turnIdsAreCompatible segment.turnId context.turnId then { segment with
    previousTurnSettings := some context.settings
    referenceContextItem :=
      if segment.referenceContextItem = .neverSet then .latest context else segment.referenceContextItem }
  else segment

def scanTurnStarted (s : Scan J) (turnId : Text) : Scan J :=
  match s.activeSegment with
  | some segment =>
    if turnIdsAreCompatible segment.turnId (some turnId) then
      finalizeActiveSegment s { segment with turnId := segment.turnId.or (some turnId) }
    else s
  | none => s

def scanTurnAborted (s : Scan J) (turnId : Option Text) : Scan J :=
  match s.activeSegment, turnId with
  | some segment, _ => s.withSegment { segment with turnId := segment.turnId.or turnId }
  | none, some turnId => s.withSegment { turnId := some turnId }
  | none, none => s

/-- One item, with the turn that was started last before it and the items after it. -/
def scanItem (precedingTurnId : Option Text) (suffix : List (RolloutItem J)) (s : Scan J) : RolloutItem J → Scan J
  | .compacted compacted => s.withSegment (scanCompacted p s.segment compacted suffix)
  | .threadRolledBack numTurns => { s with pendingRollbackTurns := s.pendingRollbackTurns + numTurns }
  | .turnComplete turnId =>
    -- stop hooks can finish after a newer turn has started
    if turnIdsAreCompatible precedingTurnId (some turnId) then
      s.withSegment { s.segment with turnCompleted := true, turnId := s.segment.turnId.or (some turnId) }
    else { s with lateCompletedTurnIds := turnId :: s.lateCompletedTurnIds }
  | .turnAborted turnId =>
    if turnIdsAreCompatible precedingTurnId turnId then scanTurnAborted s turnId else s
  | .userMessage _ => s.withSegment { s.segment with countsAsUserTurn := true }
  | .turnContext context => s.withSegment (scanTurnContext s.segment context)
  | .worldState full state =>
    s.withSegment { s.segment with worldStateReplay := s.segment.worldStateReplay ++ [.worldState full state] }
  | .turnStarted turnId => scanTurnStarted s turnId
  | .responseItem envelope =>
    s.withSegment { s.segment with
      countsAsUserTurn := s.segment.countsAsUserTurn || isUserTurnBoundary p.markers envelope.item }
  | .interAgentCommunication _ => s.withSegment { s.segment with countsAsUserTurn := true }
  | .sessionMeta _ | .retainedContext _ | .other => s

def startedTurnId : RolloutItem J → Option Text
  | .turnStarted turnId => some turnId
  | _ => none

/-- The items from the newest on. -/
def scanItems (checkpointTurnId : Option Text) : List (RolloutItem J) → List (RolloutItem J) → Scan J → Scan J
  | [], _, s => s
  | item :: older, suffix, s =>
    let preceding := ((item :: older).findSome? startedTurnId).or checkpointTurnId
    scanItems checkpointTurnId older (item :: suffix) (scanItem p preceding suffix s item)

/-! ## The whole -/

/-- The newest compaction, when it can bound the replay. -/
def selectInputCompaction (mode : ThreadHistoryMode) : List (RolloutItem J) → Option (ReplayCheckpoint J)
  | [] => none
  | item :: items =>
    if items.any isCompacted then selectInputCompaction mode items
    else
      match item with
      | .compacted compacted =>
        if compacted.replacementHistory.isNone || compacted.windowNumber.isNone ||
            (compacted.resumeMetadata.isNone && mode ≠ .paginated) then none
        else some ⟨compacted, items⟩
      | _ => none

/-- The segment that no start of a turn ended. -/
def finishScan (resume : Option ResumeMetadata) (checkpointTurnId : Option Text) (s : Scan J) : Scan J :=
  match s.activeSegment with
  | none => s
  | some segment =>
    let completed := segment.turnCompleted ||
      (segment.turnId.or checkpointTurnId).any s.lateCompletedTurnIds.contains
    -- a context alone restores the baseline; the settings are those of the compaction
    finalizeActiveSegment s
      (if resume.isSome && !completed then { segment with previousTurnSettings := none } else segment)

def worldStateStep (baseline : Option W) : RolloutItem J → Option W
  | .compacted _ => none
  | .worldState full state =>
    if full then some (p.fromState state) else baseline.map fun baseline => p.applyMergePatch baseline state
  | _ => baseline

structure RolloutReconstruction (W : Type) where
  history : ContextManager
  lastStartedTurnId : Option Text
  previousTurnSettings : Option PreviousTurnSettings
  referenceContextItem : Option TurnContextItem
  worldStateBaseline : Option W
  window : Window

def TurnReference.item : TurnReference → Option TurnContextItem
  | .latest context => some context
  | _ => none

def sessionWindow : RolloutItem J → Option Window
  | .sessionMeta (some windowId) => windowFromSession p windowId
  | _ => none

def isUnnumbered : RolloutItem J → Bool
  | .compacted compacted => compacted.windowNumber.isNone
  | _ => false

def isUnreplaced : RolloutItem J → Bool
  | .compacted compacted => compacted.replacementHistory.isNone
  | _ => false

/-- The history before the items that follow the checkpoint. -/
def baseHistory (history : ContextManager) (checkpoint : Option (ReplayCheckpoint J)) : ContextManager :=
  match checkpoint.bind fun checkpoint => checkpoint.compacted.replacementHistory.map ((checkpoint.compacted, ·)) with
  | some (compacted, items) =>
    let replaced := history.replaceAnnotated items
    { replaced with
      retainedContext := p.restoreReviewContext replaced compacted.retainedContext compacted.guardianHistory }
  | none => history

def reconstructRollout (items : List (RolloutItem J)) (mode : ThreadHistoryMode) (history : ContextManager) :
    RolloutReconstruction W :=
  let input := selectInputCompaction mode items
  let replayed := (input.map (·.suffix)).getD items
  let resume := input.bind (·.compacted.resumeMetadata)
  let checkpointTurnId := resume.bind fun resume => resume.lastStartedTurnId.or resume.attributedTurnId
  let start : Scan J :=
    { historyCheckpoint := input, window := input.bind fun input => windowFromCompaction p input.compacted }
  let s := finishScan resume checkpointTurnId (scanItems p checkpointTurnId replayed.reverse [] start)
  let suffix := (s.historyCheckpoint.map (·.suffix)).getD items
  { history := suffix.foldl (replayItem p) (baseHistory p history s.historyCheckpoint)
    lastStartedTurnId := (replayed.reverse.findSome? startedTurnId).or (resume.bind (·.lastStartedTurnId))
    previousTurnSettings := s.previousTurnSettings.or (resume.bind (·.previousTurnSettings))
    referenceContextItem := if suffix.any isUnreplaced then none else s.referenceContextItem.item
    worldStateBaseline := s.worldStateReplay.reverse.foldl (worldStateStep p) none
    window := (s.window.or (if items.any isUnnumbered then none else items.findSome? (sessionWindow p))).getD
      ⟨(items.filter isCompacted).length, none, none, none⟩ }

end

end Codex.Rollout
