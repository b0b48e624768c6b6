import Mathlib
import Codex.Framing
import Codex.Text

/-! # Framed messages: `exec-server/src/noise_relay/message_framing.rs`, and the records made of them -/

namespace Codex.Relay

open Codex.Text List

abbrev Bytes := List UInt8

inductive ExecServerError where
  | protocol (message : Text)
deriving DecidableEq

def lengthPrefixBytes : Nat := 4
def maxNoiseJsonrpcMessageLen : Nat := 64 * 1024 * 1024
def noiseRecordPlaintextLen : Nat := 60 * 1024

/-! ## Lengths -/

def toBeBytes (n : Nat) : Bytes :=
  [.ofNat (n / 2 ^ 24), .ofNat (n / 2 ^ 16), .ofNat (n / 2 ^ 8), .ofNat n]

def fromBeBytes (b0 b1 b2 b3 : UInt8) : Nat :=
  b0.toNat * 2 ^ 24 + b1.toNat * 2 ^ 16 + b2.toNat * 2 ^ 8 + b3.toNat

def messageLengthPrefix (messageLen : Nat) : Except ExecServerError Bytes :=
  if messageLen = 0 ∨ messageLen > maxNoiseJsonrpcMessageLen then
    .error (.protocol "Noise relay JSON-RPC message exceeds maximum length")
  else .ok (toBeBytes messageLen)

def frameMessage (message : Bytes) : Except ExecServerError Bytes := do
  return (← messageLengthPrefix message.length) ++ message

/-! ## The decoder -/

structure MessageDecoder where
  buffered : Bytes := []
deriving DecidableEq

/-- One turn of the decoder's loop. -/
def nextMessage (buffered : Bytes) : Except ExecServerError (Option (Bytes × Bytes)) :=
  match buffered with
  | b0 :: b1 :: b2 :: b3 :: rest =>
    let messageLen := fromBeBytes b0 b1 b2 b3
    if messageLen = 0 ∨ messageLen > maxNoiseJsonrpcMessageLen then
      .error (.protocol "Noise relay JSON-RPC message has invalid length")
    else if buffered.length < lengthPrefixBytes + messageLen then .ok none
    else .ok (some (rest.take messageLen, rest.drop messageLen))
  | _ => .ok none

/-- Every turn takes a prefix off the buffer, so its length bounds the turns. -/
def MessageDecoder.push (self : MessageDecoder) (plaintextRecord : Bytes) :
    MessageDecoder × Except ExecServerError (List Bytes) :=
  if plaintextRecord.length > noiseRecordPlaintextLen then
    (self, .error (.protocol "Noise relay plaintext record exceeds maximum length"))
  else
    let buffered := self.buffered ++ plaintextRecord
    match Framing.drain nextMessage buffered.length buffered [] with
    | (rest, .error e) => (⟨rest⟩, .error e)
    | (rest, .ok messages) =>
      if rest.length > lengthPrefixBytes + maxNoiseJsonrpcMessageLen then
        (⟨rest⟩, .error (.protocol "Noise relay JSON-RPC reassembly buffer exceeds maximum length"))
      else (⟨rest⟩, .ok messages)

/-! ## Framed messages are read back -/

def Sendable (message : Bytes) : Prop := 1 ≤ message.length ∧ message.length ≤ maxNoiseJsonrpcMessageLen

def framed (message : Bytes) : Bytes := toBeBytes message.length ++ message

variable {message bytes : Bytes} {size fuel : Nat}

lemma frameMessage_eq_ok (h : Sendable message) : frameMessage message = .ok (framed message) := by
  unfold frameMessage messageLengthPrefix
  rw [if_neg (by have := h.1; have := h.2; omega)]
  rfl

lemma fromBeBytes_toBeBytes (h : n < 2 ^ 32) :
    fromBeBytes (.ofNat (n / 2 ^ 24)) (.ofNat (n / 2 ^ 16)) (.ofNat (n / 2 ^ 8)) (.ofNat n) = n := by
  unfold fromBeBytes
  simp only [UInt8.toNat_ofNat']
  omega

lemma nextMessage_framed (h : Sendable message) (rest : Bytes) :
    nextMessage (framed message ++ rest) = .ok (some (message, rest)) := by
  have hlen : message.length < 2 ^ 32 := lt_of_le_of_lt h.2 (by decide)
  have hl : message.length ≠ 0 ∧ ¬ message.length > maxNoiseJsonrpcMessageLen := by
    have := h.1
    have := h.2
    omega
  unfold framed toBeBytes nextMessage
  simp only [cons_append, fromBeBytes_toBeBytes hlen, hl, or_self, if_false]
  rw [if_neg (by simp [lengthPrefixBytes]; omega)]
  simp

lemma nextMessage_part {part : Bytes} (h : Sendable message) (hp : part <+: framed message)
    (hne : part ≠ framed message) : nextMessage part = .ok none := by
  have hl : message.length < 2 ^ 32 := lt_of_le_of_lt h.2 (by decide)
  have hs : part.length < lengthPrefixBytes + message.length := by
    have hle := hp.length_le
    have hf : (framed message).length = lengthPrefixBytes + message.length := by
      simp [framed, toBeBytes, lengthPrefixBytes]
      omega
    have : part.length ≠ (framed message).length := fun heq => hne (hp.eq_of_length heq)
    omega
  unfold nextMessage
  split
  · unfold framed toBeBytes at hp
    simp only [cons_append, cons_prefix_cons] at hp
    obtain ⟨rfl, rfl, rfl, rfl, -⟩ := hp
    have := h.1
    have := h.2
    simp only [fromBeBytes_toBeBytes hl]
    rw [if_neg (by omega), if_pos hs]
  · rfl

lemma reads_framed : Framing.Reads nextMessage framed Sendable where
  complete _ _ h := nextMessage_framed h _
  incomplete _ _ h := nextMessage_part h
  nil := rfl
  ne_nil m := by simp [framed, toBeBytes]

lemma push_read (hs : ∀ p ∈ payloads, Sendable p) {input record : Bytes}
    {decoder : MessageDecoder} (hr : Framing.Read framed payloads input out decoder.buffered)
    (hre : record.length ≤ noiseRecordPlaintextLen) (hm : input ++ record <+: payloads.flatMap framed) :
    ∃ messages, ∃ decoder' : MessageDecoder, decoder.push record = (decoder', .ok messages) ∧
      Framing.Read framed payloads (input ++ record) (out ++ messages) decoder'.buffered := by
  obtain ⟨messages, left, hd, hr'⟩ := hr.more reads_framed hs hm
  refine ⟨messages, ⟨left⟩, ?_, hr'⟩
  have hl : left.length ≤ lengthPrefixBytes + maxNoiseJsonrpcMessageLen := by
    obtain ⟨later, hp, hpa⟩ := hr'.rest
    rcases later with _ | ⟨message, later⟩
    · obtain rfl : left = [] := hpa
      simp
    have hsi := (hs message (by simp [hp])).2
    have hle := hpa.1.length_le
    simp only [framed, toBeBytes, length_append, length_cons, length_nil] at hle
    unfold lengthPrefixBytes
    omega
  unfold MessageDecoder.push
  rw [if_neg (by omega)]
  simp only [hd]
  rw [if_neg (by omega)]

/-! ## The records of the writer -/

/-- `chunks` of a slice. -/
def chunks (size : Nat) : Nat → Bytes → List Bytes
  | 0, _ => []
  | fuel + 1, bytes => if bytes.isEmpty then [] else bytes.take size :: chunks size fuel (bytes.drop size)

def messageRecords (framed : Bytes) : List Bytes := chunks noiseRecordPlaintextLen framed.length framed

lemma chunks_flatten (hs : 0 < size) (hf : bytes.length ≤ fuel) :
    (chunks size fuel bytes).flatten = bytes := by
  induction fuel generalizing bytes with
  | zero =>
    rw [eq_nil_of_length_eq_zero (Nat.le_zero.mp hf)]
    rfl
  | succ fuel ih => ?_
  unfold chunks
  split
  · rename_i he
    simpa using (isEmpty_iff.mp he).symm
  · rw [flatten_cons, ih (by rw [length_drop]; omega), take_append_drop]

lemma chunks_length_le : ∀ c ∈ chunks size fuel bytes, c.length ≤ size := by
  induction fuel generalizing bytes with
  | zero => simp [chunks]
  | succ fuel ih => ?_
  unfold chunks
  split
  · simp
  intro c hc
  rcases mem_cons.mp hc with rfl | hin
  · exact List.length_take_le _ _
  · exact ih c hin

lemma messageRecords_cut (frames : List Bytes) :
    (frames.flatMap messageRecords).flatten = frames.flatten ∧
      ∀ record ∈ frames.flatMap messageRecords, record.length ≤ noiseRecordPlaintextLen := by
  constructor
  · induction frames with
    | nil => rfl
    | cons frame frames ih => ?_
    rw [flatMap_cons, flatten_append, ih, flatten_cons]
    unfold messageRecords
    rw [chunks_flatten (by decide) le_rfl]
  intro record hr
  obtain ⟨frame, -, hin⟩ := mem_flatMap.mp hr
  exact chunks_length_le record hin

end Codex.Relay
