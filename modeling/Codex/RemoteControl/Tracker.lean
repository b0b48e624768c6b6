import Codex.RemoteControl.Outbound

/-!
# The client tracker

`remote_control/client_tracker.rs`. Which transport events get through, the clock and new stream ids are given by
the environment.
-/

namespace Codex.RemoteControl

open Codex.Text

structure ClientState where
  connectionId : Nat
  lastActivityAt : Nat
  lastInboundSeqId : Option Nat
  deriving DecidableEq

/-- An outbound task ends with the key of its stream; the connection it was started for is not part of its result. -/
structure ClientTracker where
  clients : HashMap (id : StreamKey → StreamKey) ClientState := {}
  legacyStreamIds : HashMap (id : Text → Text) Text := {}
  joinSet : List (StreamKey × Nat) := []
  /-- A `u64`, which a run of fewer than 2 ^ 64 events does not exhaust. -/
  nextConnectionId : Nat := 0

inductive TransportEvent (M : Type) where
  | connectionOpened (connectionId : Nat)
  | connectionClosed (connectionId : Nat)
  | incomingMessage (connectionId : Nat) (message : M)
  deriving DecidableEq

/-- Which events the transport takes before the time is up; a close waits for as long as there is a receiver. -/
structure Delivery where
  closed : Nat → Bool
  opened : Bool
  incoming : Bool

/-- The tracker afterwards, the events that got through, the stream whose ping found no connection, and whether to
go on. -/
structure Outcome (M : Type) where
  tracker : ClientTracker
  events : List (TransportEvent M) := []
  unknownPong : Option StreamKey := none
  ok : Bool := true

variable {M : Type}

def clientIdleTimeout : Nat := 10 * 60 * 10 ^ 9

def ClientState.isAlive (client : ClientState) (now : Nat) : Bool := now - client.lastActivityAt < clientIdleTimeout

namespace ClientTracker

def removeClient (t : ClientTracker) (key : StreamKey) : ClientTracker := { t with
  clients := t.clients.remove key
  legacyStreamIds :=
    if t.legacyStreamIds.get key.1 = some key.2 then t.legacyStreamIds.remove key.1 else t.legacyStreamIds }

def closeClient (t : ClientTracker) (closed : Nat → Bool) (key : StreamKey) : Outcome M :=
  match t.clients.get key with
  | none => { tracker := t }
  | some client =>
    { tracker := t.removeClient key
      events := if closed client.connectionId then [.connectionClosed client.connectionId] else []
      ok := closed client.connectionId }

/-- One stream after the other, until a close does not get through. -/
def closeClients (closed : Nat → Bool) : ClientTracker → List StreamKey → Outcome M
  | t, [] => { tracker := t }
  | t, key :: keys =>
    let first : Outcome M := t.closeClient closed key
    if first.ok then
      let rest := closeClients closed first.tracker keys
      { rest with events := first.events ++ rest.events }
    else first

def expired (t : ClientTracker) (order : Order) (now : Nat) : List StreamKey :=
  ((order.visit t.clients.entries).filter fun entry => !entry.2.isAlive now).map (·.1)

/-- Every stream, whether or not its close gets through; the tasks end with the token. -/
def shutdown (t : ClientTracker) (order : Order) (closed : Nat → Bool) : Outcome M :=
  let closing := (order.visit t.clients.entries).map (·.1)
  closing.foldl (fun outcome key =>
    let next : Outcome M := outcome.tracker.closeClient closed key
    { tracker := next.tracker, events := outcome.events ++ next.events }) { tracker := { t with joinSet := [] } }

section

variable (t : ClientTracker) (key : StreamKey)

def recordInboundMessageDelivery (seqId : Option Nat) : ClientTracker :=
  match seqId, t.clients.get key with
  | some seqId, some client => { t with
      clients := t.clients.insert key { client with lastInboundSeqId := some seqId } }
  | _, _ => t

def touch (client : ClientState) (now : Nat) : ClientTracker :=
  { t with clients := t.clients.insert key { client with lastActivityAt := now } }

def forward (client : ClientState) (message : M) (seqId : Option Nat) (now : Nat) (delivery : Delivery) : Outcome M :=
  let t := t.touch key client now
  if delivery.incoming then
    { tracker := t.recordInboundMessageDelivery key seqId
      events := [.incomingMessage client.connectionId message] }
  else { tracker := t, ok := false }

section

variable (legacy : Bool) (message : M) (seqId : Option Nat) (now : Nat) (delivery : Delivery)

/-- A new connection. When its first message does not get through it is closed again. -/
def openConnection : Outcome M :=
  let connectionId := t.nextConnectionId
  let t := { t with nextConnectionId := t.nextConnectionId + 1 }
  if !delivery.opened then { tracker := t, ok := false }
  else
    let t := { t with
      clients := t.clients.insert key ⟨connectionId, now, none⟩
      legacyStreamIds := if legacy then t.legacyStreamIds.insert key.1 key.2 else t.legacyStreamIds
      joinSet := t.joinSet ++ [(key, connectionId)] }
    if delivery.incoming then
      { tracker := if legacy then t else t.recordInboundMessageDelivery key seqId
        events := [.connectionOpened connectionId, .incomingMessage connectionId message] }
    else
      { tracker := t.removeClient key
        events := .connectionOpened connectionId ::
          if delivery.closed connectionId then [.connectionClosed connectionId] else []
        ok := false }

def reopen : Outcome M :=
  let closing : Outcome M := t.closeClient delivery.closed key
  if closing.ok then
    let opening := closing.tracker.openConnection key legacy message seqId now delivery
    { opening with events := closing.events ++ opening.events }
  else closing

end

end

def isDuplicate (client : ClientState) (seqId : Option Nat) : Bool :=
  seqId.any fun seqId => client.lastInboundSeqId.any (seqId ≤ ·)

section

variable (crates : MessageCrates M)

def isInitialize : ClientEvent M → Bool
  | .clientMessage message => crates.startsConnection message
  | _ => false

section

variable (t : ClientTracker) (envelope : ClientEnvelope M)

/-- The stream of an envelope that names none: the client's, or a new one to initialise or to answer a ping on. -/
def streamOf (fresh : Text) : Text :=
  match envelope.streamId with
  | some streamId => streamId
  | none =>
    match t.legacyStreamIds.get envelope.clientId with
    | some streamId => streamId
    | none =>
      if isInitialize crates envelope.event then fresh
      else
        match envelope.event with
        | .ping => fresh
        | _ => []

/-- An `initialize` that names no stream takes the client's from the table. -/
def takeLegacy : ClientTracker :=
  if envelope.streamId.isNone && isInitialize crates envelope.event then
    { t with legacyStreamIds := t.legacyStreamIds.remove envelope.clientId }
  else t

def handleMessage (now : Nat) (fresh : Text) (delivery : Delivery) : Outcome M :=
  let streamId := t.streamOf crates envelope fresh
  let t := t.takeLegacy crates envelope
  let key : StreamKey := (envelope.clientId, streamId)
  if streamId.isEmpty then { tracker := t }
  else
    match envelope.event with
    | .clientMessage message =>
      if crates.startsConnection message then
        t.reopen key envelope.streamId.isNone message envelope.seqId now delivery
      else
        match t.clients.get key with
        | none => { tracker := t }
        | some client =>
          if isDuplicate client envelope.seqId then { tracker := t }
          else t.forward key client message envelope.seqId now delivery
    | .clientMessageChunk .. | .ack _ => { tracker := t }
    | .ping =>
      match t.clients.get key with
      | some client => { tracker := t.touch key client now }
      | none => { tracker := t, unknownPong := some key }
    | .clientClosed => t.closeClient delivery.closed key

end

end

end ClientTracker

end Codex.RemoteControl
