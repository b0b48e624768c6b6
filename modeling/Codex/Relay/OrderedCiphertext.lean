import Codex.Result
import Codex.Relay.MessageFraming

/-!
# Records in order

`OrderedCiphertextFrames` of `exec-server/src/noise_relay/ordered_ciphertext.rs` and `receive_data` of
`executor_stream.rs`, for a queue with room.
-/

namespace Codex.Relay

open Codex.Text List

def maxReorderDistance : Nat := 64
def maxPendingBytes : Nat := 1024 * 1024
def u32Max : Nat := 2 ^ 32 - 1

/-- The pending records are only looked up by their number, so they are kept in no order. -/
structure OrderedCiphertextFrames where
  nextSeq : Nat := 0
  pending : List (Nat × Bytes) := []
  pendingBytes : Nat := 0
deriving DecidableEq

namespace OrderedCiphertextFrames

def containsKey (self : OrderedCiphertextFrames) (seq : Nat) : Bool := self.pending.any (·.1 = seq)

def advance (self : OrderedCiphertextFrames) : Except ExecServerError OrderedCiphertextFrames :=
  if self.nextSeq < u32Max then .ok { self with nextSeq := self.nextSeq + 1 }
  else .error (.protocol "Noise relay sequence number exhausted")

/-- `advance`, and then the pending records that follow. Each turn removes one, so their number bounds the turns. -/
def release : Nat → OrderedCiphertextFrames → List Bytes → OrderedCiphertextFrames × Except ExecServerError (List Bytes)
  | fuel, self, ready =>
    match self.advance with
    | .error e => (self, .error e)
    | .ok self =>
      match fuel, self.pending.find? (·.1 = self.nextSeq) with
      | fuel + 1, some (_, payload) =>
        release fuel
          { self with pending := self.pending.eraseP (·.1 = self.nextSeq),
                      pendingBytes := self.pendingBytes - payload.length }
          (ready ++ [payload])
      | _, _ => (self, .ok ready)

def push (self : OrderedCiphertextFrames) (seq : Nat) (payload : Bytes) :
    OrderedCiphertextFrames × Except ExecServerError (List Bytes) :=
  if seq < self.nextSeq || self.containsKey seq then (self, .ok [])
  else if seq > self.nextSeq then
    if seq - self.nextSeq > maxReorderDistance then
      (self, .error (.protocol "Noise relay ciphertext exceeds reorder window"))
    else
      let pendingBytes := self.pendingBytes + payload.length
      if pendingBytes > maxPendingBytes then
        (self, .error (.protocol "Noise relay pending ciphertext buffer is full"))
      else ({ self with pending := self.pending ++ [(seq, payload)], pendingBytes }, .ok [])
  else release self.pending.length self [payload]

end OrderedCiphertextFrames

/-! ## The window -/

/-- The frames that wait are few and near. -/
structure Window (frames : OrderedCiphertextFrames) : Prop where
  keys : ∀ e ∈ frames.pending, frames.nextSeq < e.1 ∧ e.1 ≤ frames.nextSeq + maxReorderDistance
  nodup : (frames.pending.map (·.1)).Nodup
  bytes : frames.pendingBytes = (frames.pending.map (·.2.length)).sum
  bound : frames.pendingBytes ≤ maxPendingBytes

/-- The frame is the record of its number. -/
def Sent (records : List Bytes) (e : Nat × Bytes) : Prop := e.1 ≤ u32Max ∧ records[e.1]? = some e.2

/-- Only sent records wait. -/
structure Holds (records : List Bytes) (frames : OrderedCiphertextFrames) : Prop extends Window frames where
  sent : ∀ e ∈ frames.pending, Sent records e
  next : frames.nextSeq ≤ records.length
  max : frames.nextSeq ≤ u32Max

section Push

variable {records : List Bytes} {frames frames' : OrderedCiphertextFrames} {seq : Nat} {payload : Bytes}

open OrderedCiphertextFrames

lemma advance_cases (frames : OrderedCiphertextFrames) :
    (frames.nextSeq < u32Max ∧ frames.advance = .ok { frames with nextSeq := frames.nextSeq + 1 }) ∨
    (¬ frames.nextSeq < u32Max ∧ frames.advance = .error (.protocol "Noise relay sequence number exhausted")) := by
  unfold advance
  by_cases h : frames.nextSeq < u32Max
  · exact .inl ⟨h, if_pos h⟩
  · exact .inr ⟨h, if_neg h⟩

lemma window_remove (frames : OrderedCiphertextFrames)
    (h : ∀ e ∈ frames.pending, frames.nextSeq ≤ e.1 ∧ e.1 ≤ frames.nextSeq + maxReorderDistance)
    (hn : (frames.pending.map (·.1)).Nodup)
    (hby : frames.pendingBytes = (frames.pending.map (·.2.length)).sum)
    (hbo : frames.pendingBytes ≤ maxPendingBytes)
    (hf : frames.pending.find? (·.1 = frames.nextSeq) = some (seq, payload)) :
    Window { frames with pending := frames.pending.eraseP (·.1 = frames.nextSeq),
                         pendingBytes := frames.pendingBytes - payload.length } ∧
      seq = frames.nextSeq ∧ (seq, payload) ∈ frames.pending ∧
      (frames.pending.eraseP (·.1 = frames.nextSeq)).length + 1 = frames.pending.length := by
  have hs : seq = frames.nextSeq := by simpa using find?_some hf
  have hm := mem_of_find?_eq_some hf
  obtain ⟨-, pre, after, heq, hb⟩ := find?_eq_some_iff_append.mp hf
  have hera : frames.pending.eraseP (·.1 = frames.nextSeq) = pre ++ after := by
    rw [heq, eraseP_append_right, eraseP_cons_of_pos (by simp [hs])]
    intro e he
    simpa using hb e he
  have hk : ∀ e ∈ pre ++ after, e.1 ≠ seq := by
    rw [heq, map_append, map_cons, nodup_append] at hn
    obtain ⟨-, ha, hd⟩ := hn
    intro e he heq'
    rcases mem_append.mp he with hin | hin
    · exact hd e.1 (mem_map_of_mem hin) seq (by simp) heq'
    · exact (nodup_cons.mp ha).1 (mem_map.mpr ⟨e, hin, heq'⟩)
  rw [hera]
  refine ⟨⟨?_, ?_, ?_, ?_⟩, hs, hm, ?_⟩
  · intro e he
    have hin : e ∈ frames.pending := by
      rw [heq]
      rcases mem_append.mp he with hin | hin
      · exact mem_append_left _ hin
      · exact mem_append_right _ (mem_cons_of_mem _ hin)
    have hne := hk e he
    have := h e hin
    exact ⟨by dsimp only; omega, this.2⟩
  · rw [heq, map_append, map_cons] at hn
    rw [map_append]
    exact (nodup_middle.mp hn).of_cons
  · simp only [hby, heq, map_append, sum_append, map_cons, sum_cons]
    omega
  · exact (Nat.sub_le _ _).trans hbo
  · simp [heq]
    omega

lemma containsKey_iff : frames.containsKey seq ↔ ∃ payload, (seq, payload) ∈ frames.pending := by
  unfold containsKey
  simp only [any_eq_true, decide_eq_true_eq, Prod.exists]
  constructor
  · rintro ⟨seq, payload, hin, rfl⟩
    exact ⟨payload, hin⟩
  · rintro ⟨payload, hin⟩
    exact ⟨seq, payload, hin, rfl⟩

def slice (records : List Bytes) (start stop : Nat) : List Bytes := (records.take stop).drop start

lemma slice_cons (h : start < stop) (hr : records[start]? = some payload) :
    slice records start stop = payload :: slice records (start + 1) stop := by
  unfold slice
  have hl : start < (records.take stop).length := by
    rw [length_take]
    have := (List.getElem?_eq_some_iff.mp hr).1
    omega
  rw [drop_eq_getElem_cons hl]
  have hg : (records.take stop)[start]? = some payload := by rw [getElem?_take_of_lt h, hr]
  rw [(List.getElem?_eq_some_iff.mp hg).2]

lemma slice_self (start : Nat) : slice records start start = [] := by
  unfold slice
  rw [drop_eq_nil_iff, length_take]
  exact Nat.min_le_left _ _

lemma release_spec (h : Holds records frames) (ready : List Bytes) (hfu : frames.pending.length ≤ fuel)
    (hn : frames.nextSeq < records.length) :
    ∃ frames' result, release fuel frames ready = (frames', result) ∧ Holds records frames' ∧
      frames.nextSeq ≤ frames'.nextSeq ∧
      ((frames.nextSeq < frames'.nextSeq ∧ result = .ok (ready ++ slice records (frames.nextSeq + 1) frames'.nextSeq) ∧
          ∀ seq, frames.containsKey seq → seq < frames'.nextSeq ∨ frames'.containsKey seq) ∨
        (u32Max ≤ frames'.nextSeq ∧ ∃ e, result = .error e)) := by
  induction fuel generalizing frames ready with
  | zero =>
    have hem : frames.pending = [] := eq_nil_of_length_eq_zero (Nat.le_zero.mp hfu)
    unfold release
    rcases advance_cases frames with ⟨hr, ha⟩ | ⟨hl, ha⟩
    · simp only [ha]
      refine ⟨_, _, rfl, ⟨⟨?_, h.nodup, h.bytes, h.bound⟩, h.sent, hn, hr⟩, Nat.le_succ _,
        .inl ⟨Nat.lt_succ_self _, ?_, ?_⟩⟩
      · simp [hem]
      · simp [slice_self]
      · exact fun seq hs => .inr hs
    · simp only [ha]
      exact ⟨_, _, rfl, h, le_rfl, .inr ⟨Nat.le_of_not_lt hl, _, rfl⟩⟩
  | succ fuel ih => ?_
  unfold release
  rcases advance_cases frames with ⟨hr, ha⟩ | ⟨hl, ha⟩
  · simp only [ha]
    cases hf : frames.pending.find? (·.1 = frames.nextSeq + 1) with
    | none =>
      -- No record follows: those pending are further away.
      refine ⟨_, _, rfl, ⟨⟨fun e he => ?_, h.nodup, h.bytes, h.bound⟩, h.sent, hn, hr⟩, Nat.le_succ _,
        .inl ⟨Nat.lt_succ_self _, ?_, fun seq hs => .inr hs⟩⟩
      · have hne : ¬ e.1 = frames.nextSeq + 1 := by simpa using find?_eq_none.mp hf e he
        have := h.keys e he
        dsimp only
        omega
      · simp [slice_self]
    | some found => ?_
    obtain ⟨seq, payload⟩ := found
    have hke : ∀ e ∈ frames.pending,
        frames.nextSeq + 1 ≤ e.1 ∧ e.1 ≤ frames.nextSeq + 1 + maxReorderDistance := by
      intro e he
      have := h.keys e he
      omega
    obtain ⟨hw, rfl, hm, hlen⟩ :=
      window_remove { frames with nextSeq := frames.nextSeq + 1 } hke h.nodup h.bytes h.bound hf
    have hre := (h.sent _ hm).2
    have hb : frames.nextSeq + 1 < records.length := (List.getElem?_eq_some_iff.mp hre).1
    simp only at hlen hw ⊢
    obtain ⟨frames', result, hrel, hh, hle, hres⟩ := ih
      ⟨hw, fun e he => h.sent e (mem_of_mem_eraseP he), hb.le, hr⟩ (ready ++ [payload])
      (by simp only; omega) hb
    refine ⟨frames', result, hrel, hh, by simp only at hle; omega, ?_⟩
    rcases hres with ⟨hles, rfl, hk⟩ | hl
    · simp only at hles hk
      refine .inl ⟨by omega, ?_, fun other ho => ?_⟩
      · rw [slice_cons hles hre]
        simp
      obtain ⟨otherPayload, hin⟩ := containsKey_iff.mp ho
      by_cases heq : other = frames.nextSeq + 1
      · exact .inl (by omega)
      · refine hk other (containsKey_iff.mpr ⟨otherPayload, ?_⟩)
        exact (mem_eraseP_of_neg (by simpa using heq)).mpr hin
    · exact .inr hl
  · simp only [ha]
    exact ⟨_, _, rfl, h, le_rfl, .inr ⟨Nat.le_of_not_lt hl, _, rfl⟩⟩

def WithinLimits (frames : OrderedCiphertextFrames) (seq : Nat) (payload : Bytes) : Prop :=
  seq ≤ frames.nextSeq + maxReorderDistance ∧
    (frames.nextSeq < seq → frames.pendingBytes + payload.length ≤ maxPendingBytes)

def Taken (frames : OrderedCiphertextFrames) (seq : Nat) : Prop :=
  seq < frames.nextSeq ∨ frames.containsKey seq = true

lemma push_spec (h : Holds records frames) (hs : Sent records (seq, payload)) :
    ∃ frames' result, frames.push seq payload = (frames', result) ∧ Holds records frames' ∧
      frames.nextSeq ≤ frames'.nextSeq ∧
      (result = .ok (slice records frames.nextSeq frames'.nextSeq) ∨
        (∃ e, result = .error e) ∧ (frames' = frames ∨ u32Max ≤ frames'.nextSeq)) ∧
      (frames'.nextSeq < u32Max → (∀ other, Taken frames other → Taken frames' other) ∧
        (WithinLimits frames seq payload → Taken frames' seq)) := by
  have hbe : seq < records.length := (List.getElem?_eq_some_iff.mp hs.2).1
  unfold push
  split
  · rename_i ht
    refine ⟨_, _, rfl, h, le_rfl, .inl (by rw [slice_self]), fun _ => ⟨fun other ho => ho, fun _ => ?_⟩⟩
    unfold Taken
    simpa using ht
  rename_i hn
  rw [Bool.or_eq_true, decide_eq_true_iff, not_or, Bool.not_eq_true] at hn
  split
  · rename_i hlat
    split
    · refine ⟨_, _, rfl, h, le_rfl, .inr ⟨⟨_, rfl⟩, .inl rfl⟩, fun _ => ⟨fun other ho => ho, fun hl => ?_⟩⟩
      have := hl.1
      omega
    simp only
    split
    · refine ⟨_, _, rfl, h, le_rfl, .inr ⟨⟨_, rfl⟩, .inl rfl⟩, fun _ => ⟨fun other ho => ho, fun hl => ?_⟩⟩
      have := hl.2 hlat
      omega
    rename_i hro
    refine ⟨_, _, rfl, ⟨⟨?_, ?_, ?_, Nat.le_of_not_lt hro⟩, ?_, h.next, h.max⟩, le_rfl, .inl (by rw [slice_self]),
      fun _ => ⟨fun other ho => ho.imp id fun hke => ?_, fun _ => .inr ?_⟩⟩
    · intro e he
      rcases mem_append.mp he with hin | hin
      · exact h.keys e hin
      obtain rfl := mem_singleton.mp hin
      dsimp only
      omega
    · have hke : seq ∉ frames.pending.map (·.1) := by
        intro hin
        obtain ⟨e, he, rfl⟩ := mem_map.mp hin
        rw [containsKey_iff.mpr ⟨e.2, he⟩] at hn
        exact absurd hn.2 (by simp)
      rw [map_append]
      refine nodup_append.mpr ⟨h.nodup, nodup_singleton _, fun a ha b hb hab => hke ?_⟩
      obtain rfl : b = seq := mem_singleton.mp hb
      exact hab ▸ ha
    · simp [h.bytes]
    · intro e he
      rcases mem_append.mp he with hin | hin
      · exact h.sent e hin
      · exact mem_singleton.mp hin ▸ hs
    · obtain ⟨payload', hin⟩ := containsKey_iff.mp hke
      exact containsKey_iff.mpr ⟨payload', mem_append_left _ hin⟩
    · exact containsKey_iff.mpr ⟨payload, mem_append_right _ (by simp)⟩
  · obtain rfl : seq = frames.nextSeq := by omega
    obtain ⟨frames', result, hre, hh, hle, hr⟩ := release_spec h [payload] le_rfl hbe
    refine ⟨frames', result, hre, hh, hle, ?_, fun hro => ?_⟩
    · rcases hr with ⟨hles, rfl, -⟩ | ⟨hla, herr⟩
      · left
        rw [slice_cons hles hs.2]
        rfl
      · exact .inr ⟨herr, .inr hla⟩
    · rcases hr with ⟨hles, -, hk⟩ | ⟨hla, -⟩
      · refine ⟨fun other ho => ?_, fun _ => .inl hles⟩
        rcases ho with hbef | hke
        · exact .inl (by omega)
        · exact hk other hke
      · omega

end Push

/-! ## The receiver -/

structure RelayData where
  seq : Nat
  payload : Bytes
deriving DecidableEq

structure Receiver where
  inboundCiphertexts : OrderedCiphertextFrames := {}
  inboundDecoder : MessageDecoder := {}
deriving DecidableEq

/-- Decodes released records until one fails, with the messages that were delivered. -/
def deliver : MessageDecoder → List Bytes → MessageDecoder × List Bytes × Except ExecServerError Unit
  | decoder, [] => (decoder, [], .ok ())
  | decoder, plaintext :: rest =>
    match decoder.push plaintext with
    | (decoder, .error e) => (decoder, [], .error e)
    | (decoder, .ok messages) =>
      let (decoder, more, result) := deliver decoder rest
      (decoder, messages ++ more, result)

def Receiver.receiveData (self : Receiver) (data : RelayData) : Receiver × List Bytes × Except ExecServerError Unit :=
  match self.inboundCiphertexts.push data.seq data.payload with
  | (frames, .error e) => ({ self with inboundCiphertexts := frames }, [], .error e)
  | (frames, .ok ready) =>
    let (decoder, messages, result) := deliver self.inboundDecoder ready
    (⟨frames, decoder⟩, messages, result)

/-- The messages of a whole delivery. A record that is refused leaves the rest to be received. -/
def Receiver.receiveAll (self : Receiver) : List RelayData → Receiver × List Bytes
  | [] => (self, [])
  | data :: rest =>
    let (self, messages, _) := self.receiveData data
    let (self, more) := self.receiveAll rest
    (self, messages ++ more)

section Run

variable {payloads records out : List Bytes} {receiver : Receiver}

lemma deliver_spec (hse : ∀ p ∈ payloads, Sendable p) {input : Bytes}
    (hre : Framing.Read framed payloads input out decoder.buffered)
    (hrea : ∀ r ∈ ready, r.length ≤ noiseRecordPlaintextLen)
    (hm : input ++ ready.flatten <+: payloads.flatMap framed) :
    ∃ messages, ∃ decoder' : MessageDecoder, deliver decoder ready = (decoder', messages, .ok ()) ∧
      Framing.Read framed payloads (input ++ ready.flatten) (out ++ messages) decoder'.buffered := by
  induction ready generalizing input out decoder with
  | nil => exact ⟨[], decoder, rfl, by simpa using hre⟩
  | cons record ready ih => ?_
  rw [flatten_cons, ← append_assoc] at hm
  obtain ⟨messages, decoder', hp, hre'⟩ := push_read hse hre (hrea record (by simp)) ((prefix_append _ _).trans hm)
  obtain ⟨more, decoder'', hd, hre''⟩ := ih hre' (fun r hr => hrea r (by simp [hr])) hm
  refine ⟨messages ++ more, decoder'', ?_, ?_⟩
  · simp only [deliver, hp, hd]
  · simpa using hre''

/-- What came out is what the records fed so far spell. -/
structure Follows (payloads records : List Bytes) (receiver : Receiver) (out : List Bytes) : Prop where
  holds : Holds records receiver.inboundCiphertexts
  decoded : ∃ fed, fed ≤ receiver.inboundCiphertexts.nextSeq ∧
    (fed = receiver.inboundCiphertexts.nextSeq ∨ u32Max ≤ receiver.inboundCiphertexts.nextSeq) ∧
    Framing.Read framed payloads (records.take fed).flatten out receiver.inboundDecoder.buffered

lemma follows_start (hse : ∀ p ∈ payloads, Sendable p) : Follows payloads records {} [] where
  holds := ⟨⟨by simp, by simp, rfl, by simp⟩, by simp, Nat.zero_le _, Nat.zero_le _⟩
  decoded := by
    refine ⟨0, le_rfl, .inl rfl, rfl, payloads, rfl, ?_⟩
    cases payloads with
    | nil => rfl
    | cons payload payloads => exact ⟨List.nil_prefix, fun heq => reads_framed.ne_nil payload heq.symm⟩

lemma take_append_slice (records : List Bytes) (h : start ≤ stop) :
    (records.take start).flatten ++ (slice records start stop).flatten = (records.take stop).flatten := by
  unfold slice
  rw [← flatten_append]
  congr 1
  conv_rhs => rw [← take_append_drop start (records.take stop)]
  rw [take_take, Nat.min_eq_left h]

section Cut

variable (hse : ∀ p ∈ payloads, Sendable p) (hcut : records.flatten = payloads.flatMap framed)
  (hrec : ∀ r ∈ records, r.length ≤ noiseRecordPlaintextLen) {delivery : List RelayData}

include hse hcut hrec

lemma Follows.receiveData (h : Follows payloads records receiver out) (hs : Sent records (data.seq, data.payload)) :
    Follows payloads records (receiver.receiveData data).1 (out ++ (receiver.receiveData data).2.1) ∧
      ((receiver.receiveData data).1.inboundCiphertexts.nextSeq < u32Max →
        (∀ seq, Taken receiver.inboundCiphertexts seq → Taken (receiver.receiveData data).1.inboundCiphertexts seq) ∧
        (WithinLimits receiver.inboundCiphertexts data.seq data.payload →
          Taken (receiver.receiveData data).1.inboundCiphertexts data.seq)) := by
  obtain ⟨frames, _, hp, hh, hle, hres, ht⟩ := push_spec h.holds hs
  obtain ⟨fed, hf, hc, hre⟩ := h.decoded
  unfold Receiver.receiveData
  rw [hp]
  rcases hres with rfl | ⟨⟨e, rfl⟩, hsa⟩
  · -- The released records continue what was decoded.
    have hm := hh.max
    by_cases heq : fed = receiver.inboundCiphertexts.nextSeq
    · subst heq
      have hb := take_append_slice records hle
      have hrea : ∀ r ∈ slice records receiver.inboundCiphertexts.nextSeq frames.nextSeq,
          r.length ≤ noiseRecordPlaintextLen := fun r hr =>
        hrec r (mem_of_mem_take (mem_of_mem_drop hr))
      obtain ⟨_, _, hd, hre'⟩ := deliver_spec hse hre hrea (by
        rw [hb, ← hcut]
        exact (List.take_prefix _ _).flatten)
      simp only [hd]
      refine ⟨⟨hh, _, le_rfl, .inl rfl, ?_⟩, ht⟩
      rw [← hb]
      exact hre'
    · have hst : receiver.inboundCiphertexts.nextSeq = frames.nextSeq := by omega
      rw [hst, slice_self]
      simp only [deliver, append_nil]
      exact ⟨⟨hh, fed, by dsimp only; omega, .inr (by dsimp only; omega), hre⟩, ht⟩
  · simp only [append_nil]
    refine ⟨⟨hh, fed, hf.trans hle, ?_, hre⟩, ht⟩
    rcases hsa with rfl | hl
    · exact hc
    · exact .inr hl

lemma Follows.receiveAll (h : Follows payloads records receiver out)
    (hs : ∀ data ∈ delivery, Sent records (data.seq, data.payload)) :
    Follows payloads records (receiver.receiveAll delivery).1 (out ++ (receiver.receiveAll delivery).2) := by
  induction delivery generalizing receiver out with
  | nil => simpa [Receiver.receiveAll] using h
  | cons data rest ih => ?_
  have hst := (h.receiveData hse hcut hrec (hs data (by simp))).1
  have hr := ih hst fun data hd => hs data (by simp [hd])
  unfold Receiver.receiveAll
  simpa using hr

omit hse hcut hrec in
lemma receiveAll_append (receiver : Receiver) (pre after : List RelayData) :
    (receiver.receiveAll (pre ++ after)).1 = ((receiver.receiveAll pre).1.receiveAll after).1 := by
  induction pre generalizing receiver with
  | nil => rfl
  | cons data pre ih => ?_
  show ((receiver.receiveData data).1.receiveAll (pre ++ after)).1 = _
  rw [ih]
  rfl

lemma Follows.taken_receiveAll (h : Follows payloads records receiver out)
    (hf : records.length < u32Max) (hs : ∀ data ∈ delivery, Sent records (data.seq, data.payload))
    (ht : Taken receiver.inboundCiphertexts seq) :
    Taken (receiver.receiveAll delivery).1.inboundCiphertexts seq := by
  induction delivery generalizing receiver out with
  | nil => exact ht
  | cons data rest ih => ?_
  obtain ⟨hst, hk⟩ := h.receiveData hse hcut hrec (hs data (by simp))
  have hr := lt_of_le_of_lt hst.holds.next hf
  unfold Receiver.receiveAll
  exact ih hst (fun data hd => hs data (by simp [hd])) ((hk hr).1 seq ht)

/-- A frame of the number arrives within the limits. -/
def Arrives (delivery : List RelayData) (seq : Nat) : Prop :=
  ∃ before data after, delivery = before ++ data :: after ∧ data.seq = seq ∧
    WithinLimits (Receiver.receiveAll {} before).1.inboundCiphertexts data.seq data.payload

lemma taken_of_arrives (hf : records.length < u32Max)
    (hs : ∀ data ∈ delivery, Sent records (data.seq, data.payload)) (ha : Arrives delivery seq) :
    Taken (Receiver.receiveAll {} delivery).1.inboundCiphertexts seq := by
  obtain ⟨pre, data, _, rfl, rfl, hl⟩ := ha
  have hsta : Follows payloads records {} [] := follows_start hse
  have hsb : ∀ data ∈ pre, Sent records (data.seq, data.payload) := fun data hd =>
    hs data (by simp [hd])
  have hb := hsta.receiveAll hse hcut hrec hsb
  obtain ⟨hst, hk⟩ := hb.receiveData hse hcut hrec (hs data (by simp))
  have hr := lt_of_le_of_lt hst.holds.next hf
  rw [receiveAll_append]
  unfold Receiver.receiveAll
  exact hst.taken_receiveAll hse hcut hrec hf (fun data hd => hs data (by simp [hd])) ((hk hr).2 hl)

end Cut

lemma next_eq_length (h : Holds records frames)
    (ha : ∀ seq < records.length, Taken frames seq) : frames.nextSeq = records.length := by
  rcases lt_or_eq_of_le h.next with hl | heq
  · rcases ha _ hl with _ | hk
    · omega
    obtain ⟨_, hin⟩ := containsKey_iff.mp hk
    have := (h.keys _ hin).1
    omega
  · exact heq

/-- What the receiver has of messages that were cut into records. -/
lemma receiveAll_intact {records : List Bytes} {delivery : List RelayData} (hse : ∀ p ∈ payloads, Sendable p)
    (hcut : records.flatten = payloads.flatMap framed) (hrec : ∀ r ∈ records, r.length ≤ noiseRecordPlaintextLen)
    (hs : ∀ data ∈ delivery, Sent records (data.seq, data.payload)) :
    (Receiver.receiveAll {} delivery).2 <+: payloads ∧ Window (Receiver.receiveAll {} delivery).1.inboundCiphertexts ∧
      (records.length < u32Max → (∀ seq < records.length, Arrives delivery seq) →
        (Receiver.receiveAll {} delivery).2 = payloads) := by
  have hst : Follows payloads records {} [] := follows_start hse
  have he := hst.receiveAll hse hcut hrec hs
  obtain ⟨fed, _, hc, hr⟩ := he.decoded
  refine ⟨?_, he.holds.toWindow, fun hfe ha => ?_⟩
  · obtain ⟨later, heq, -⟩ := hr.rest
    exact ⟨later, heq.symm⟩
  have hn := next_eq_length he.holds fun seq hseq =>
    taken_of_arrives hse hcut hrec hfe hs (ha seq hseq)
  have hal : fed = records.length := by
    rcases hc with heq | hl
    · omega
    · omega
  rw [hal, take_length, hcut] at hr
  exact hr.all

/-- **Messages cross the reordering relay intact.** -/
theorem messages_cross_intact (payloads : List Bytes)
    (hsizes : ∀ p ∈ payloads, 1 ≤ p.length ∧ p.length ≤ maxNoiseJsonrpcMessageLen) :
    ∃ frames, payloads.mapM frameMessage = .ok frames ∧ ∀ records, records.flatten = frames.flatten →
      (∀ r ∈ records, r.length ≤ noiseRecordPlaintextLen) → ∀ delivery : List RelayData,
        (∀ data ∈ delivery, Sent records (data.seq, data.payload)) →
        (Receiver.receiveAll {} delivery).2 <+: payloads ∧
        Window (Receiver.receiveAll {} delivery).1.inboundCiphertexts ∧
        (records.length < 2 ^ 32 - 1 → (∀ seq < records.length, Arrives delivery seq) →
          (Receiver.receiveAll {} delivery).2 = payloads) := by
  have hfr : payloads.mapM frameMessage = .ok (payloads.map framed) :=
    Result.mapM_ok_of_forall fun p hp => frameMessage_eq_ok (hsizes p hp)
  refine ⟨_, hfr, fun records hf hrec delivery hs => ?_⟩
  exact receiveAll_intact hsizes (by rw [hf, flatMap_def]) hrec hs

theorem two_messages_cross :
    (Receiver.receiveAll {} [⟨1, [0, 0, 2, 8, 9]⟩, ⟨0, [0, 0, 0, 1, 7, 0]⟩]).2 = [[7], [8, 9]] := by
  obtain ⟨frames, hf, hc⟩ := messages_cross_intact [[7], [8, 9]] (by decide)
  obtain rfl : [[0, 0, 0, 1, 7], [0, 0, 0, 2, 8, 9]] = frames := Except.ok.inj hf
  refine (hc [[0, 0, 0, 1, 7, 0], [0, 0, 2, 8, 9]] rfl (by decide) _ ?_).2.2 (by decide) fun seq hs => ?_
  · intro data hd
    simp only [mem_cons, not_mem_nil, or_false] at hd
    rcases hd with rfl | rfl <;> exact ⟨by decide, rfl⟩
  · obtain rfl | rfl : seq = 0 ∨ seq = 1 := by
      simp only [length_cons, length_nil] at hs
      omega
    · exact ⟨[⟨1, [0, 0, 2, 8, 9]⟩], ⟨0, [0, 0, 0, 1, 7, 0]⟩, [], rfl, rfl, by decide, by decide⟩
    · exact ⟨[], ⟨1, [0, 0, 2, 8, 9]⟩, [⟨0, [0, 0, 0, 1, 7, 0]⟩], rfl, rfl, by decide, by decide⟩

end Run

end Codex.Relay
