import Mathlib
import Codex.Entries
import Codex.Text

/-!
# Paginated thread history

`thread_history.rs` in paginated mode, `thread_history_projection.rs` and the upserts of
`thread-store/src/local/thread_history.rs`, for turns started and ended explicitly.
-/

namespace Codex.ThreadHistory

open Codex.Entries

inductive TurnStatus where
  | inProgress | completed | interrupted | failed
  deriving DecidableEq

inductive ItemKind where
  | userMessage | agentMessage | reasoning | plan | commandExecution | dynamicToolCall | hookPrompt
  deriving DecidableEq

/-- `text` is that of an agent message or a plan, `body` what else an item carries. -/
structure ThreadItemPayload (Body : Type) where
  kind : ItemKind
  id : Text
  text : Text
  body : Body

structure ErrorEvent (Error : Type) where
  affectsTurnStatus : Bool
  error : Error

structure Ending (Error : Type) where
  error : Option Error
  completedAt : Option Int
  durationMs : Option Int

inductive Event (Body Error : Type) where
  | turnStarted (turnId : Text)
  | itemCompleted (turnId : Text) (item : ThreadItemPayload Body)
  | error (payload : ErrorEvent Error)
  | turnComplete (turnId : Text) (ending : Ending Error)
  | turnAborted (turnId : Option Text) (ending : Ending Error)

structure TurnMetadata (Error : Type) where
  turnId : Text
  status : TurnStatus
  error : Option Error
  completedAt : Option Int
  durationMs : Option Int

def started {Error : Type} (turnId : Text) : TurnMetadata Error := ⟨turnId, .inProgress, none, none, none⟩

abbrev Items (Body : Type) := List (Text × ThreadItemPayload Body)

variable {Body Error : Type}

/-! ## The builder -/

structure PendingTurn (Body Error : Type) where
  metadata : TurnMetadata Error
  items : Items Body

structure ThreadHistoryBuilder (Body Error : Type) where
  turns : List (PendingTurn Body Error)
  currentTurn : Option (PendingTurn Body Error)

open PendingTurn

/-- Whether the builder takes a completed item: an agent message or a plan without text is left out. -/
def ThreadItemPayload.shown (item : ThreadItemPayload Body) : Bool :=
  match item.kind with
  | .agentMessage | .plan => !item.text.isEmpty
  | _ => true

def upsert (items : Items Body) (item : ThreadItemPayload Body) : Items Body := insert items item.id item

def PendingTurn.upsertItem (item : ThreadItemPayload Body) (turn : PendingTurn Body Error) : PendingTurn Body Error :=
  { turn with items := upsert turn.items item }

def PendingTurn.fail (error : Error) (turn : PendingTurn Body Error) : PendingTurn Body Error :=
  { turn with metadata := { turn.metadata with status := .failed, error := some error } }

def PendingTurn.applyAbort (ending : Ending Error) (turn : PendingTurn Body Error) : PendingTurn Body Error :=
  { turn with metadata := ⟨turn.metadata.turnId, .interrupted, ending.error.or turn.metadata.error, ending.completedAt,
      ending.durationMs⟩ }

def PendingTurn.applyCompletion (ending : Ending Error) (turn : PendingTurn Body Error) : PendingTurn Body Error :=
  let status := if ending.error.isSome then .failed
    else if turn.metadata.status = .completed ∨ turn.metadata.status = .inProgress then .completed
    else turn.metadata.status
  { turn with metadata := ⟨turn.metadata.turnId, status, ending.error.or turn.metadata.error, ending.completedAt,
      ending.durationMs⟩ }

def modifyTurn (turnId : Text) (f : PendingTurn Body Error → PendingTurn Body Error) :
    List (PendingTurn Body Error) → List (PendingTurn Body Error)
  | [] => []
  | turn :: turns => if turn.metadata.turnId = turnId then f turn :: turns else turn :: modifyTurn turnId f turns

namespace ThreadHistoryBuilder

section

variable (b : ThreadHistoryBuilder Body Error)

def isCurrent (turnId : Text) : Bool :=
  b.currentTurn.any (·.metadata.turnId = turnId)

def turnMut (turnId : Text) (f : PendingTurn Body Error → PendingTurn Body Error) : ThreadHistoryBuilder Body Error :=
  if b.isCurrent turnId then { b with currentTurn := b.currentTurn.map f }
  else { b with turns := modifyTurn turnId f b.turns }

def finishCurrentTurn : ThreadHistoryBuilder Body Error :=
  ⟨b.turns ++ b.currentTurn.toList, none⟩

def hasTurn (turnId : Text) : Bool := b.turns.any (·.metadata.turnId = turnId)

def handleEvent : Event Body Error → ThreadHistoryBuilder Body Error
  | .turnStarted turnId => { b.finishCurrentTurn with currentTurn := some ⟨started turnId, []⟩ }
  | .itemCompleted turnId item => if item.shown then b.turnMut turnId (upsertItem item) else b
  | .error payload =>
    if payload.affectsTurnStatus then { b with currentTurn := b.currentTurn.map (PendingTurn.fail payload.error) } else
      b
  | .turnComplete turnId ending =>
    if b.isCurrent turnId || !b.hasTurn turnId then
      { b with currentTurn := b.currentTurn.map (applyCompletion ending) }.finishCurrentTurn
    else b.turnMut turnId (applyCompletion ending)
  | .turnAborted turnId ending =>
    if turnId.all fun id => b.isCurrent id || !b.hasTurn id then
      { b with currentTurn := b.currentTurn.map (applyAbort ending) }
    else b.turnMut (turnId.getD []) (applyAbort ending)

def view : List (TurnMetadata Error × Items Body) :=
  (b.turns ++ b.currentTurn.toList).map fun turn => (turn.metadata, turn.items)

end

end ThreadHistoryBuilder

/-! ## The store -/

structure ThreadHistoryChangeSet (Body Error : Type) where
  changedTurns : List (TurnMetadata Error)
  changedItems : List (Text × ThreadItemPayload Body)

def projectRolloutLine : Event Body Error → ThreadHistoryChangeSet Body Error
  | .turnStarted turnId => ⟨[started turnId], []⟩
  | .turnComplete turnId ending =>
    ⟨[⟨turnId, if ending.error.isSome then .failed else .completed, ending.error, ending.completedAt,
      ending.durationMs⟩], []⟩
  | .turnAborted (some turnId) ending =>
    ⟨[⟨turnId, .interrupted, ending.error, ending.completedAt, ending.durationMs⟩], []⟩
  | .itemCompleted turnId item => ⟨[], [(turnId, item)]⟩
  | .turnAborted none _ | .error _ => ⟨[], []⟩

structure Store (Body Error : Type) where
  turns : List (Text × TurnMetadata Error)
  items : List ((Text × Text) × ThreadItemPayload Body)

def upsertTurn (turns : List (Text × TurnMetadata Error)) (turn : TurnMetadata Error) :
    List (Text × TurnMetadata Error) :=
  if (get turns turn.turnId).all (·.status = .inProgress) then insert turns turn.turnId turn else turns

def applyChangeSet (s : Store Body Error) (changes : ThreadHistoryChangeSet Body Error) : Store Body Error :=
  ⟨changes.changedTurns.foldl upsertTurn s.turns,
    changes.changedItems.foldl (fun items change => insert items (change.1, change.2.id) change.2) s.items⟩

def itemsOf (items : List ((Text × Text) × ThreadItemPayload Body)) (turnId : Text) : Items Body :=
  items.filterMap fun row => if row.1.1 = turnId then some (row.1.2, row.2) else none

def Store.view (s : Store Body Error) : List (TurnMetadata Error × Items Body) :=
  s.turns.map fun row => (row.2, itemsOf s.items row.1)

def built (events : List (Event Body Error)) : ThreadHistoryBuilder Body Error :=
  events.foldl ThreadHistoryBuilder.handleEvent ⟨[], none⟩

def stored (events : List (Event Body Error)) : Store Body Error :=
  events.foldl (fun s event => applyChangeSet s (projectRolloutLine event)) ⟨[], []⟩

end Codex.ThreadHistory
