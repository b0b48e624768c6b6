import Codex.RemoteControl.Segments

/-! # Splitting of `remote_control/segment.rs`; outbound buffer and writer of `remote_control/websocket.rs` -/

namespace Codex.RemoteControl

open Codex.Text Codex.Run List Option

inductive ServerEvent (M : Type) where
  | serverMessage (message : M)
  | serverMessageChunk (segmentId segmentCount messageSizeBytes : Nat) (messageChunkBase64 : Text)
  | ack
  | pong (active : Bool)

structure ServerEnvelope (M : Type) where
  event : ServerEvent M
  clientId : Text
  streamId : Text
  seqId : Nat

/-- `serde_json` for envelopes and messages, `base64`, and the message sent for a response that does not serialise. -/
structure ServerCrates (M : Type) where
  serializedLen : ServerEnvelope M → Option Nat
  toVec : M → Option (List UInt8)
  encode : List UInt8 → Text
  responseError : M → Option M

def segmentTargetBytes : Nat := 100 * 1024
def channelCapacity : Nat := 128
def u64Max : Nat := 2 ^ 64 - 1

def ServerEvent.segmentId {M : Type} : ServerEvent M → Option Nat
  | .serverMessageChunk segmentId _ _ _ => some segmentId
  | _ => none

abbrev StreamKey := Text × Text

variable {M : Type}

def ServerEnvelope.key (envelope : ServerEnvelope M) : StreamKey := (envelope.clientId, envelope.streamId)

def ServerEnvelope.cursor (envelope : ServerEnvelope M) : Nat × Nat :=
  (envelope.seqId, envelope.event.segmentId.getD 0)

def cursorLt (a b : Nat × Nat) : Bool := a.1 < b.1 || (a.1 == b.1 && a.2 < b.2)

/-! ## Splitting -/

section

variable (crates : ServerCrates M)

section

variable (envelope : ServerEnvelope M) (segmentId segmentCount messageSizeBytes : Nat) (chunk : List UInt8)

def buildChunkEnvelope : Option (ServerEnvelope M) :=
  if segmentCountMax < segmentCount then none
  else some { envelope with
    event := .serverMessageChunk segmentId segmentCount messageSizeBytes (crates.encode chunk) }

def serializedChunkLen : Option Nat :=
  (buildChunkEnvelope crates envelope segmentId segmentCount messageSizeBytes chunk).bind crates.serializedLen

end

def divCeil (a b : Nat) : Nat := (a + b - 1) / b

def chunkSizeFor (size segmentCount : Nat) : Nat := max 1 (divCeil size segmentCount)

/-- The next number of segments to try: one more, or one for each byte when that changes nothing. -/
def nextSegmentCount (size chunkSize : Nat) : Nat :=
  if chunkSizeFor size (divCeil size chunkSize + 1) = chunkSize then size else divCeil size chunkSize + 1

lemma chunkSizeFor_next (h : chunkSizeFor size segmentCount ≠ 1) :
    chunkSizeFor size (nextSegmentCount size (chunkSizeFor size segmentCount)) < chunkSizeFor size segmentCount := by
  generalize hc : chunkSizeFor size segmentCount = c at *
  have hp : 1 ≤ c := by rw [← hc]; exact le_max_left _ _
  unfold nextSegmentCount
  split
  · have hs : 1 ≤ size := by
      by_contra hz
      unfold chunkSizeFor divCeil at hc
      rcases Nat.eq_zero_or_pos segmentCount with rfl | _
      · omega
      · rw [Nat.div_eq_of_lt (by omega)] at hc
        omega
    have : divCeil size size = 1 := by
      unfold divCeil
      rw [Nat.div_eq_iff (by omega)]
      omega
    unfold chunkSizeFor
    omega
  have hco : size ≤ c * divCeil size c := by
    unfold divCeil
    have := Nat.div_add_mod (size + c - 1) c
    have := Nat.mod_lt (size + c - 1) (show 0 < c by omega)
    omega
  have hle : divCeil size (divCeil size c + 1) ≤ c := by
    generalize divCeil size c = d at hco
    show (size + (d + 1) - 1) / (d + 1) ≤ c
    rw [Nat.div_le_iff_le_mul_add_pred (by omega)]
    have : c * d ≤ (d + 1) * c := by ring_nf; omega
    omega
  have : chunkSizeFor size (divCeil size c + 1) ≤ c := max_le hp hle
  omega

/-- The loop over numbers of segments: the chunks get smaller until every envelope fits. -/
def splitFrom (envelope : ServerEnvelope M) (raw : List UInt8) (segmentCount : Nat) :
    Option (List (ServerEnvelope M)) :=
  let chunkSize := chunkSizeFor raw.length segmentCount
  let count := divCeil raw.length chunkSize
  let chunks := (raw.toChunks chunkSize).zipIdx
  if chunks.all fun c =>
      (serializedChunkLen crates envelope c.2 count raw.length c.1).any (· ≤ segmentMaxBytes) then
    chunks.mapM fun c => buildChunkEnvelope crates envelope c.2 count raw.length c.1
  else if chunkSize = 1 then some []
  else splitFrom envelope raw (nextSegmentCount raw.length chunkSize)
termination_by chunkSizeFor raw.length segmentCount
decreasing_by exact chunkSizeFor_next (by assumption)

/-- `none` is an error, and the empty list a message that was given up. -/
def splitServerEnvelopeForTransport (envelope : ServerEnvelope M) : Option (List (ServerEnvelope M)) :=
  match envelope.event with
  | .serverMessage message =>
    match crates.serializedLen envelope with
    | none => (crates.responseError message).map fun error => [{ envelope with event := .serverMessage error }]
    | some size =>
      if size ≤ segmentMaxBytes then some [envelope]
      else
        (crates.toVec message).bind fun raw =>
          if reassembledMaxBytes < raw.length then some []
          else
            (serializedChunkLen crates envelope 0 (min (max raw.length 1) segmentCountMax) raw.length
                (raw.take 1)).bind fun minimal =>
              if segmentMaxBytes < minimal then some []
              else splitFrom crates envelope raw (max 2 (divCeil raw.length segmentTargetBytes))
  | _ => some [envelope]

end

section

variable {crates : ServerCrates M} {envelope : ServerEnvelope M}

/-- The envelopes of one message, as the buffer sees them: one address, one number, and segments in order. -/
structure OneMessage (envelope : ServerEnvelope M) (out : List (ServerEnvelope M)) : Prop where
  key : ∀ e ∈ out, e.key = envelope.key
  seqId : ∀ e ∈ out, e.seqId = envelope.seqId
  segments : out.Pairwise fun a b => a.event.segmentId.getD 0 < b.event.segmentId.getD 0

lemma oneMessage_nil : OneMessage envelope [] := ⟨by simp, by simp, .nil⟩

lemma oneMessage_singleton (hk : e.key = envelope.key) (hs : e.seqId = envelope.seqId) : OneMessage envelope [e] :=
  ⟨by simpa using hk, by simpa using hs, pairwise_singleton _ _⟩

variable {out : List (ServerEnvelope M)}

lemma mapM_buildChunkEnvelope {count size : Nat} {chunks : List (List UInt8 × Nat)}
    (h : chunks.mapM (fun c => buildChunkEnvelope crates envelope c.2 count size c.1) = some out) :
    out = chunks.map fun c =>
      { envelope with event := .serverMessageChunk c.2 count size (crates.encode c.1) } := by
  induction chunks generalizing out with
  | nil => simpa using h.symm
  | cons c chunks ih => ?_
  simp only [mapM_cons, bind_eq_bind, bind_eq_some_iff, Option.pure_def, some.injEq] at h
  obtain ⟨_, hf, _, hr, rfl⟩ := h
  simp only [buildChunkEnvelope, ite_none_left_eq_some, some.injEq] at hf
  rw [ih hr, map_cons, ← hf.2]

lemma oneMessage_chunks (count size : Nat) (chunks : List (List UInt8)) :
    OneMessage envelope (chunks.zipIdx.map fun c =>
      { envelope with event := .serverMessageChunk c.2 count size (crates.encode c.1) }) := by
  refine ⟨?_, ?_, ?_⟩
  · intro e he
    obtain ⟨c, -, rfl⟩ := mem_map.mp he
    rfl
  · intro e he
    obtain ⟨c, -, rfl⟩ := mem_map.mp he
    rfl
  · rw [pairwise_map]
    have hr : (chunks.zipIdx.map Prod.snd).Pairwise (· < ·) := by
      rw [zipIdx_map_snd]
      exact pairwise_lt_range'
    exact pairwise_map.mp hr

lemma splitFrom_oneMessage (h : splitFrom crates envelope raw segmentCount = some out) :
    OneMessage envelope out := by
  fun_induction splitFrom crates envelope raw segmentCount with
  | case1 segmentCount chunkSize count chunks _ =>
    rw [mapM_buildChunkEnvelope h]
    exact oneMessage_chunks _ _ _
  | case2 =>
    cases h
    exact oneMessage_nil
  | case3 _ _ _ _ _ _ ih => exact ih h

lemma split_oneMessage (h : splitServerEnvelopeForTransport crates envelope = some out) :
    OneMessage envelope out := by
  unfold splitServerEnvelopeForTransport at h
  split at h
  · split at h
    · obtain ⟨_, -, rfl⟩ := map_eq_some_iff.mp h
      exact oneMessage_singleton rfl rfl
    split at h
    · cases h
      exact oneMessage_singleton rfl rfl
    obtain ⟨_, -, h⟩ := bind_eq_some_iff.mp h
    split at h
    · cases h
      exact oneMessage_nil
    obtain ⟨_, -, h⟩ := bind_eq_some_iff.mp h
    split at h
    · cases h
      exact oneMessage_nil
    · exact splitFrom_oneMessage h
  · cases h
    exact oneMessage_singleton rfl rfl

end

/-! ## The buffer -/

structure OutboundBuffer (M : Type) where
  bufferByStream : HashMap (id : StreamKey → StreamKey) (List (ServerEnvelope M)) := {}
  used : Nat := 0

namespace OutboundBuffer

def stream (b : OutboundBuffer M) (key : StreamKey) : List (ServerEnvelope M) := (b.bufferByStream.get key).getD []

def insert (b : OutboundBuffer M) (envelope : ServerEnvelope M) : OutboundBuffer M where
  bufferByStream := b.bufferByStream.insert envelope.key (b.stream envelope.key ++ [envelope])
  used := b.used + 1

/-- An acknowledgement without a segment covers every segment of its message. -/
def isAcked (seqId : Nat) (segmentId : Option Nat) (envelope : ServerEnvelope M) : Bool :=
  match segmentId with
  | some segmentId => !cursorLt (seqId, segmentId) envelope.cursor
  | none => envelope.seqId ≤ seqId

def ack (b : OutboundBuffer M) (key : StreamKey) (seqId : Nat) (segmentId : Option Nat) : OutboundBuffer M :=
  match b.bufferByStream.get key with
  | none => b
  | some buffer =>
    let kept := buffer.filter fun envelope => !isAcked seqId segmentId envelope
    { bufferByStream := if kept.isEmpty then b.bufferByStream.remove key else b.bufferByStream.insert key kept
      used := b.used - (buffer.filter (isAcked seqId segmentId)).length }

def serverEnvelopes (b : OutboundBuffer M) (order : Order) : List (ServerEnvelope M) :=
  (order.visit b.bufferByStream.entries).flatMap (·.2)

end OutboundBuffer

end Codex.RemoteControl
