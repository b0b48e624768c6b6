import Codex.Relay.OrderedCiphertext

/-!
# The writer of a stream

The task that `spawn_noise_virtual_stream` of `exec-server/src/noise_relay/executor_stream.rs` starts. The payload of a
frame stands for its ciphertext, as in the receiver.
-/

namespace Codex.Relay

open List

/-- Which records, by their number, are encrypted and taken by the channel. -/
structure WriterLine where
  encrypts : Nat → Bool
  sends : Nat → Bool

/-- The largest number is never given out, so that none comes twice. -/
def takeNextSequence (nextSeq : Nat) : Except ExecServerError (Nat × Nat) :=
  if nextSeq < u32Max then .ok (nextSeq, nextSeq + 1)
  else .error (.protocol "Noise relay sequence number exhausted")

/-- What is sent of the records of one message, the number after it, and whether the writer goes on. -/
def writeRecords (line : WriterLine) (nextSeq : Nat) : List Bytes → List RelayData × Nat × Bool
  | [] => ([], nextSeq, true)
  | record :: records =>
    match takeNextSequence nextSeq with
    | .error _ => ([], nextSeq, false)
    | .ok (seq, nextSeq) =>
      if line.encrypts seq && line.sends seq then
        let (sent, nextSeq, goesOn) := writeRecords line nextSeq records
        (⟨seq, record⟩ :: sent, nextSeq, goesOn)
      else ([], nextSeq, false)

/-- What is sent of the messages, and whether the writer gets through them all. -/
def writeMessages (line : WriterLine) (nextSeq : Nat) : List Bytes → List RelayData × Bool
  | [] => ([], true)
  | message :: messages =>
    match frameMessage message with
    | .error _ => ([], false)
    | .ok framed =>
      match writeRecords line nextSeq (messageRecords framed) with
      | (sent, _, false) => (sent, false)
      | (sent, nextSeq, true) =>
        let (later, goesOn) := writeMessages line nextSeq messages
        (sent ++ later, goesOn)

variable {nextSeq : Nat} {records : List Bytes}

/-- The records numbered from a number on. -/
def numbered (nextSeq : Nat) (records : List Bytes) : List RelayData :=
  (records.zipIdx nextSeq).map fun (record, seq) => ⟨seq, record⟩

lemma numbered_append (earlier later : List Bytes) : numbered nextSeq (earlier ++ later) =
    numbered nextSeq earlier ++ numbered (nextSeq + earlier.length) later := by
  unfold numbered
  rw [zipIdx_append, map_append]

lemma mem_numbered {data : RelayData} : data ∈ numbered 0 records ↔ records[data.seq]? = some data.payload := by
  unfold numbered
  simp only [mem_map, Prod.exists, mem_zipIdx_iff_getElem?]
  constructor
  · rintro ⟨record, seq, hr, rfl⟩
    exact hr
  · intro hr
    exact ⟨data.payload, data.seq, hr, rfl⟩

lemma length_numbered : (numbered nextSeq records).length = records.length := by simp [numbered]

/-- The records of a message go out in order and numbered on, up to where the writer stops. -/
lemma writeRecords_spec (line : WriterLine) (records : List Bytes) (hn : nextSeq ≤ u32Max) : ∃ done, done <+: records ∧
    (writeRecords line nextSeq records).1 = numbered nextSeq done ∧ nextSeq + done.length ≤ u32Max ∧
      ((writeRecords line nextSeq records).2.2 = true →
        done = records ∧ (writeRecords line nextSeq records).2.1 = nextSeq + records.length) := by
  induction records generalizing nextSeq with
  | nil => exact ⟨[], nil_prefix, rfl, hn, fun _ => ⟨rfl, rfl⟩⟩
  | cons record records ih => ?_
  unfold writeRecords takeNextSequence
  by_cases hlt : nextSeq < u32Max
  swap
  · rw [if_neg hlt]
    exact ⟨[], nil_prefix, rfl, hn, nofun⟩
  rw [if_pos hlt]
  dsimp only
  split
  · obtain ⟨done, hd, hw, hle, hgo⟩ := ih (Nat.succ_le_of_lt hlt)
    refine ⟨record :: done, cons_prefix_cons.mpr ⟨rfl, hd⟩, ?_, by simp; omega, fun hg => ?_⟩
    · simp only [hw]
      rfl
    · obtain ⟨rfl, hnext⟩ := hgo hg
      exact ⟨rfl, hnext.trans (by simp; omega)⟩
  · exact ⟨[], nil_prefix, rfl, hn, nofun⟩

/-- The records of the messages, in order. -/
abbrev recordsOf (messages : List Bytes) : List Bytes := (messages.map framed).flatMap messageRecords

/-- Of messages that can be framed a beginning of their records goes out, numbered on. -/
lemma writeMessages_spec (line : WriterLine) (messages : List Bytes) (hn : nextSeq ≤ u32Max) : ∃ framable done,
    framable <+: messages ∧ (∀ message ∈ framable, Sendable message) ∧ done <+: recordsOf framable ∧
      (writeMessages line nextSeq messages).1 = numbered nextSeq done ∧ nextSeq + done.length ≤ u32Max ∧
      ((writeMessages line nextSeq messages).2 = true → framable = messages ∧ done = recordsOf messages) := by
  induction messages generalizing nextSeq with
  | nil => exact ⟨[], [], prefix_rfl, nofun, prefix_rfl, rfl, hn, fun _ => ⟨rfl, rfl⟩⟩
  | cons message messages ih => ?_
  unfold writeMessages
  by_cases hs : Sendable message
  swap
  · have hf : frameMessage message = .error (.protocol "Noise relay JSON-RPC message exceeds maximum length") := by
      unfold frameMessage messageLengthPrefix
      rw [if_pos (by unfold Sendable at hs; omega)]
      rfl
    rw [hf]
    exact ⟨[], [], nil_prefix, nofun, prefix_rfl, rfl, hn, nofun⟩
  rw [frameMessage_eq_ok hs]
  dsimp only
  obtain ⟨done, hd, hw, hle, hgo⟩ := writeRecords_spec line (messageRecords (framed message)) hn
  split
  · rename_i heq
    rw [heq] at hw
    refine ⟨[message], done, by simp, by simpa using hs, by simpa [recordsOf] using hd, hw, hle, nofun⟩
  · rename_i sent next heq
    rw [heq] at hw hgo
    obtain ⟨rfl, rfl⟩ := hgo rfl
    obtain ⟨framable, done, hpre, hse, hd', hw', hle', hgo'⟩ := ih hle
    refine ⟨message :: framable, messageRecords (framed message) ++ done, cons_prefix_cons.mpr ⟨rfl, hpre⟩,
      by simpa using ⟨hs, hse⟩, ?_, ?_, by simp; omega, fun hg => ?_⟩
    · simpa [recordsOf] using hd'
    · rw [numbered_append, ← hw', ← hw]
    · obtain ⟨rfl, rfl⟩ := hgo' hg
      exact ⟨rfl, by simp [recordsOf]⟩

end Codex.Relay
