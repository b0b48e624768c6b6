import Codex.RemoteControl.Tracker

/-!
# The reader

The reader of `remote_control/websocket.rs`. A reader that stops is followed by another over the same state.
-/

namespace Codex.RemoteControl

open Codex.Text Codex.Run

/-- The state of the reader, without the outbound buffer; `completed` is
`last_completed_client_chunk_seq_id_by_stream`. -/
structure Reader where
  tracker : ClientTracker := {}
  subscribeCursor : Option Text := none
  completed : HashMap (id : Text × Option Text → Text × Option Text) Nat := {}
  assemblies : Assemblies := {}

inductive ReaderEvent (M : Type) where
  | envelope (envelope : ClientEnvelope M) (wireSizeBytes now : Nat) (fresh : Text) (delivery : Delivery)
  | taskEnded (key : StreamKey) (connectionId : Nat) (closed : Nat → Bool)
  | taskFailed (key : StreamKey) (connectionId : Nat)
  | sweep (order : Order) (now : Nat) (closed : Nat → Bool)
  | shutdown (order : Order) (closed : Nat → Bool)

structure Acknowledgement where
  key : StreamKey
  seqId : Nat
  segmentId : Option Nat
  deriving DecidableEq

/-- What a step of the reader does to the rest of the server. -/
structure ReaderOutput (M : Type) where
  events : List (TransportEvent M) := []
  ack : Option Acknowledgement := none
  unknownPong : Option StreamKey := none

variable {M : Type}

def clientMessageKey (envelope : ClientEnvelope M) : Option ((Text × Option Text) × Nat) :=
  match envelope.event, envelope.seqId with
  | .clientMessageChunk .., some seqId => some ((envelope.clientId, envelope.streamId), seqId)
  | _, _ => none

namespace Reader

section

variable (r : Reader) (envelope : ClientEnvelope M)

def isCompleted : Bool :=
  (clientMessageKey envelope).any fun key => (r.completed.get key.1).any (key.2 ≤ ·)

def isIgnored : Bool :=
  match envelope.event, envelope.seqId, envelope.streamId with
  | .clientMessageChunk segmentId .., some seqId, some streamId =>
    r.assemblies.shouldIgnoreChunk envelope.clientId streamId seqId segmentId
  | _, _, _ => false

def observeClientMessage (crates : MessageCrates M) (r : Reader) (envelope : ClientEnvelope M)
    (wireSizeBytes now : Nat) : Assemblies × Observation M :=
  if r.isCompleted envelope then (r.assemblies, .dropped)
  else if r.isIgnored envelope then (r.assemblies, .dropped)
  else if (clientMessageKey envelope).isSome && segmentMaxBytes < wireSizeBytes then
    (match envelope.streamId with
      | some streamId => r.assemblies.removeAssembly envelope.clientId streamId
      | none => r.assemblies, .dropped)
  else r.assemblies.observe crates envelope now

def acknowledgement (envelope : ClientEnvelope M) : Option Acknowledgement :=
  match envelope.event, envelope.seqId, envelope.streamId with
  | .ack segmentId, some seqId, some streamId => some ⟨(envelope.clientId, streamId), seqId, segmentId⟩
  | _, _, _ => none

/-- The bookkeeping for an envelope that the tracker took; `key` is that of the envelope as it arrived. -/
def recordClientMessageDelivery (key : Option ((Text × Option Text) × Nat)) :
    Reader := { r with
  subscribeCursor := envelope.cursor.or r.subscribeCursor
  completed :=
    match key with
    | some (key, seqId) => r.completed.insert key seqId
    | none => r.completed }

def invalidateStream (r : Reader) (key : StreamKey) : Reader := { r with
  assemblies := r.assemblies.removeAssembly key.1 key.2
  completed := r.completed.remove (key.1, some key.2) }

def invalidateClient (r : Reader) (clientId : Text) : Reader := { r with
  assemblies := r.assemblies.remove clientId
  completed := ⟨r.completed.entries.filter fun entry => entry.1.1 ≠ clientId,
    (List.filter_sublist.map _).nodup r.completed.nodup⟩ }

/-- What a close sent by the client makes the reader forget. -/
def forgetClosed : Reader :=
  match envelope.event with
  | .clientClosed =>
    match envelope.streamId with
    | some streamId => r.invalidateStream (envelope.clientId, streamId)
    | none => r.invalidateClient envelope.clientId
  | _ => r

end

section

variable (crates : MessageCrates M)

/-- An envelope that came through the reassembler, with the key it arrived under. -/
def deliver (r : Reader) (envelope : ClientEnvelope M) (key : Option ((Text × Option Text) × Nat)) (now : Nat)
    (fresh : Text) (delivery : Delivery) : Reader × ReaderOutput M :=
  let outcome := r.tracker.handleMessage crates envelope now fresh delivery
  let r := { r with tracker := outcome.tracker }
  if outcome.ok then
    ((r.recordClientMessageDelivery envelope key).forgetClosed envelope,
      { events := outcome.events, ack := acknowledgement envelope, unknownPong := outcome.unknownPong })
  else (r, { events := outcome.events })

def receive (r : Reader) (envelope : ClientEnvelope M) (wireSizeBytes now : Nat) (fresh : Text) (delivery : Delivery) :
    Reader × ReaderOutput M :=
  let observed := r.observeClientMessage crates envelope wireSizeBytes now
  let r := { r with assemblies := observed.1 }
  match observed.2 with
  | .forward forwarded => r.deliver crates forwarded (clientMessageKey envelope) now fresh delivery
  | .pending | .dropped => (r, {})

end

/-- The end of an outbound task closes whatever connection its stream has. -/
def bookkeep (r : Reader) (key : StreamKey) (closed : Nat → Bool) : Reader × ReaderOutput M :=
  let outcome : Outcome M := r.tracker.closeClient closed key
  let r := { r with tracker := outcome.tracker }
  (if outcome.ok then r.invalidateStream key else r, { events := outcome.events })

def sweep (r : Reader) (order : Order) (now : Nat) (closed : Nat → Bool) : Reader × ReaderOutput M :=
  let keys := r.tracker.expired order now
  let outcome : Outcome M := ClientTracker.closeClients closed r.tracker keys
  let r := { r with tracker := outcome.tracker }
  (if outcome.ok then keys.foldl invalidateStream r else r, { events := outcome.events })

end Reader

def Reader.joined (r : Reader) (key : StreamKey) (connectionId : Nat) : Reader :=
  { r with tracker := { r.tracker with joinSet := r.tracker.joinSet.erase (key, connectionId) } }

/-- One turn of the loop. A task ends once, so its end is noticed once. -/
def readerStep (crates : MessageCrates M) (r : Reader) : ReaderEvent M → Option (Reader × ReaderOutput M)
  | .envelope envelope wireSizeBytes now fresh delivery =>
    some (r.receive crates envelope wireSizeBytes now fresh delivery)
  | .taskEnded key connectionId closed =>
    if (key, connectionId) ∈ r.tracker.joinSet then some ((r.joined key connectionId).bookkeep key closed) else none
  | .taskFailed key connectionId =>
    if (key, connectionId) ∈ r.tracker.joinSet then some (r.joined key connectionId, {}) else none
  | .sweep order now closed => some (r.sweep order now closed)
  | .shutdown order closed =>
    let outcome : Outcome M := r.tracker.shutdown order closed
    some ({ r with tracker := outcome.tracker }, { events := outcome.events })

def readerNext (crates : MessageCrates M) (r : Reader) (event : ReaderEvent M) : Option Reader :=
  (readerStep crates r event).map (·.1)

end Codex.RemoteControl
