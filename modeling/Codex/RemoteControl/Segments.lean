import Mathlib
import Codex.Text
import Codex.HashMap
import Codex.Run

/-!
# Segments of client messages

`remote_control/protocol.rs` and the reassembler of `remote_control/segment.rs`. Base64, JSON and times are
parameters.
-/

namespace Codex.RemoteControl

open Codex.Text

/-- `base64` with the standard engine, `serde_json` for messages, the method of a request, and the order in which the
map of assemblies is iterated at a time. -/
structure MessageCrates (M : Type) where
  decode : Text → Option (List UInt8)
  fromSlice : List UInt8 → Option M
  startsConnection : M → Bool
  order : Nat → Order

inductive ClientEvent (M : Type) where
  | clientMessage (message : M)
  | clientMessageChunk (segmentId segmentCount messageSizeBytes : Nat) (messageChunkBase64 : Text)
  | ack (segmentId : Option Nat)
  | ping
  | clientClosed

structure ClientEnvelope (M : Type) where
  event : ClientEvent M
  clientId : Text
  streamId : Option Text
  seqId : Option Nat
  cursor : Option Text

def segmentMaxBytes : Nat := 150 * 1024
def reassembledMaxBytes : Nat := 100 * 1024 * 1024
def segmentCountMax : Nat := 1024
def segmentAssemblyMaxCount : Nat := 128

structure ClientSegmentMetadata where
  seqId : Nat
  segmentCount : Nat
  messageSizeBytes : Nat
  deriving DecidableEq

structure ClientSegmentAssembly where
  streamId : Text
  metadata : ClientSegmentMetadata
  raw : List UInt8
  nextSegmentId : Nat
  lastChunkSeenAt : Nat
  deriving DecidableEq

abbrev Assemblies := HashMap (id : Text → Text) ClientSegmentAssembly

inductive Observation (M : Type) where
  | forward (envelope : ClientEnvelope M)
  | pending
  | dropped

inductive AssemblyUpdate (M : Type) where
  | pending | ignore | drop
  | complete (message : M)

namespace Assemblies

section

variable (a : Assemblies) (clientId streamId : Text)

def shouldIgnoreChunk (seqId segmentId : Nat) : Bool :=
  (a.get clientId).any fun assembly => assembly.streamId == streamId &&
    (seqId < assembly.metadata.seqId || (seqId == assembly.metadata.seqId && segmentId < assembly.nextSegmentId))

def removeAssembly : Assemblies :=
  if (a.get clientId).any (·.streamId == streamId) then a.remove clientId else a

/-- The assembly whose last chunk came first goes, until there is room for one more. -/
def evictAssembliesIfFull (order : Order) (a : Assemblies) : Assemblies :=
  if segmentAssemblyMaxCount ≤ a.entries.length then
    match _h : (order.visit a.entries).argmin (·.2.lastChunkSeenAt) with
    | some oldest => evictAssembliesIfFull order (a.remove oldest.1)
    | none => a
  else a
termination_by a.entries.length
decreasing_by
  have hmem := Order.mem_visit.mp (List.argmin_mem _h)
  apply List.length_filter_lt_length_iff_exists.mpr
  exact ⟨oldest, hmem, by simp⟩

def newAssembly (streamId : Text) (metadata : ClientSegmentMetadata) (now : Nat) : ClientSegmentAssembly :=
  { streamId, metadata, raw := [], nextSegmentId := 0, lastChunkSeenAt := now }

/-- The assembly a valid chunk goes to: a new one when the client has none, or has one of another stream. -/
def prepare (order : Order) (metadata : ClientSegmentMetadata) (now : Nat) : Assemblies :=
  match a.get clientId with
  | some assembly =>
    if assembly.streamId ≠ streamId then a.insert clientId (newAssembly streamId metadata now) else a
  | none => (a.evictAssembliesIfFull order).insert clientId (newAssembly streamId metadata now)

end

section

variable {M : Type} (crates : MessageCrates M)

/-- The chunk decoded into the room that the declared size leaves, and what it makes of the assembly. -/
def addChunk (assembly : ClientSegmentAssembly) (segmentCount messageSizeBytes : Nat) (chunk : Text) (now : Nat) :
    ClientSegmentAssembly × AssemblyUpdate M :=
  match crates.decode chunk with
  | none => (assembly, .drop)
  | some bytes =>
    if messageSizeBytes < assembly.raw.length + bytes.length then (assembly, .drop)
    else
      let next := { assembly with
        raw := assembly.raw ++ bytes, nextSegmentId := assembly.nextSegmentId + 1, lastChunkSeenAt := now }
      if next.nextSegmentId < segmentCount then (next, .pending)
      else if next.raw.length ≠ messageSizeBytes then (next, .drop)
      else
        match crates.fromSlice next.raw with
        | some message => (next, .complete message)
        | none => (next, .drop)

def update (assembly : ClientSegmentAssembly) (metadata : ClientSegmentMetadata) (segmentId : Nat) (chunk : Text)
    (now : Nat) : ClientSegmentAssembly × AssemblyUpdate M :=
  if metadata.seqId < assembly.metadata.seqId then (assembly, .ignore)
  else if assembly.metadata ≠ metadata then (assembly, .drop)
  else if segmentId < assembly.nextSegmentId then (assembly, .pending)
  else if segmentId ≠ assembly.nextSegmentId then (assembly, .drop)
  else addChunk crates assembly metadata.segmentCount metadata.messageSizeBytes chunk now

def isValidChunk (segmentId : Nat) (metadata : ClientSegmentMetadata) (chunk : Text) : Bool :=
  metadata.segmentCount != 0 && metadata.segmentCount ≤ segmentCountMax && segmentId < metadata.segmentCount &&
    metadata.messageSizeBytes != 0 && metadata.messageSizeBytes ≤ reassembledMaxBytes && !chunk.isEmpty

/-- A chunk of a stream, with its number, to the assembly of its client. -/
def observeChunk (a : Assemblies) (envelope : ClientEnvelope M) (streamId : Text) (metadata : ClientSegmentMetadata)
    (segmentId : Nat) (chunk : Text) (now : Nat) : Assemblies × Observation M :=
  if a.shouldIgnoreChunk envelope.clientId streamId metadata.seqId segmentId then (a, .dropped)
  else if !isValidChunk segmentId metadata chunk then (a.removeAssembly envelope.clientId streamId, .dropped)
  else
    let a := a.prepare envelope.clientId streamId (crates.order now) metadata now
    match a.get envelope.clientId with
    | none => (a, .dropped)
    | some assembly =>
      let (assembly, result) := update crates assembly metadata segmentId chunk now
      let a : Assemblies := a.insert envelope.clientId assembly
      match result with
      | .pending => (a, .pending)
      | .ignore => (a, .dropped)
      | .drop => (removeAssembly a envelope.clientId streamId, .dropped)
      | .complete message =>
        (removeAssembly a envelope.clientId streamId, .forward { envelope with event := .clientMessage message })

def observe (a : Assemblies) (envelope : ClientEnvelope M) (now : Nat) : Assemblies × Observation M :=
  match envelope.event with
  | .clientMessageChunk segmentId segmentCount messageSizeBytes chunk =>
    match envelope.seqId, envelope.streamId with
    | some seqId, some streamId =>
      observeChunk crates a envelope streamId ⟨seqId, segmentCount, messageSizeBytes⟩ segmentId chunk now
    | _, _ => (a, .dropped)
  | _ => (a, .forward envelope)

end

end Assemblies

end Codex.RemoteControl
