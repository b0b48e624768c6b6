import Codex.HashMap.Laws
import Codex.RemoteControl.Outbound

/-! # Envelopes survive reconnects of the writer of `remote_control/websocket.rs` -/

namespace Codex.RemoteControl

open Codex.Text Codex.Run List Option HashMap

variable {M : Type}

/-- What the writer shares with the reader, and what is still to be written; the last four fields are the history. -/
structure Writer (M : Type) where
  buffer : OutboundBuffer M := {}
  nextSeqIdByStream : HashMap (id : StreamKey → StreamKey) Nat := {}
  connection : Option (List (ServerEnvelope M)) := none
  serialised : List (ServerEnvelope M) := []
  resent : List (ServerEnvelope M) := []
  added : List (ServerEnvelope M) := []
  written : List (ServerEnvelope M) := []

/-- A connection sends again what is buffered, in the order in which the map of the streams is then iterated. -/
inductive WriterEvent (M : Type) where
  | connect (order : Order)
  | enqueue (event : ServerEvent M) (key : StreamKey)
  | write
  | fail
  | ack (key : StreamKey) (seqId : Nat) (segmentId : Option Nat)

def saturatingSucc (n : Nat) : Nat := min (n + 1) u64Max

section

variable (crates : ServerCrates M)

def serialises (envelope : ServerEnvelope M) : Bool := (crates.serializedLen envelope).isSome

def Writer.nextSeqId (w : Writer M) (key : StreamKey) : Nat := (w.nextSeqIdByStream.get key).getD 1

def payloads (event : ServerEvent M) (key : StreamKey) (seqId : Nat) : Option (List (ServerEnvelope M)) :=
  (splitServerEnvelopeForTransport crates ⟨event, key.1, key.2, seqId⟩).map (·.filter (serialises crates))

/-- One event of the channel. An event that cannot be split takes no number. -/
def Writer.enqueue (w : Writer M) (event : ServerEvent M) (key : StreamKey) : Writer M :=
  let seqId := w.nextSeqId key
  match payloads crates event key seqId with
  | none => { w with nextSeqIdByStream := w.nextSeqIdByStream.insert key seqId }
  | some envelopes => { w with
      buffer := envelopes.foldl OutboundBuffer.insert w.buffer
      nextSeqIdByStream := w.nextSeqIdByStream.insert key (saturatingSucc seqId)
      connection := some envelopes
      serialised := w.serialised ++ envelopes
      added := w.added ++ envelopes }

def writerStep (w : Writer M) : WriterEvent M → Option (Writer M)
  | .connect order =>
    match w.connection with
    | none =>
      let envelopes := (w.buffer.serverEnvelopes order).filter (serialises crates)
      some { w with connection := some envelopes, resent := envelopes, added := [], written := [] }
    | some _ => none
  | .enqueue event key =>
    match w.connection with
    | some [] => if w.buffer.used < channelCapacity then some (w.enqueue crates event key) else none
    | _ => none
  | .write =>
    match w.connection with
    | some (envelope :: rest) => some { w with connection := some rest, written := w.written ++ [envelope] }
    | _ => none
  | .fail =>
    match w.connection with
    | some _ => some { w with connection := none }
    | none => none
  | .ack key seqId segmentId => some { w with buffer := w.buffer.ack key seqId segmentId }

end

/-! ## The buffer by streams -/

namespace OutboundBuffer

variable {b : OutboundBuffer M} {key : StreamKey} {envelope : ServerEnvelope M}

lemma stream_insert (b : OutboundBuffer M) (envelope : ServerEnvelope M) (key : StreamKey) :
    (b.insert envelope).stream key = if key = envelope.key then b.stream key ++ [envelope] else b.stream key := by
  unfold stream insert
  rw [HashMap.get_insert]
  by_cases h : key = envelope.key
  · subst h
    simp [stream]
  · simp [h]

lemma stream_inserts (envelopes : List (ServerEnvelope M)) (b : OutboundBuffer M) (key : StreamKey) :
    (envelopes.foldl insert b).stream key = b.stream key ++ envelopes.filter (·.key = key) := by
  induction envelopes generalizing b with
  | nil => simp
  | cons envelope envelopes ih => ?_
  rw [foldl_cons, ih, stream_insert]
  by_cases h : key = envelope.key
  · simp [h]
  · simp [h, Ne.symm h]

lemma stream_ack (b : OutboundBuffer M) (acked key : StreamKey) (seqId : Nat) (segmentId : Option Nat) :
    (b.ack acked seqId segmentId).stream key =
      if key = acked then (b.stream key).filter (fun envelope => !isAcked seqId segmentId envelope)
      else b.stream key := by
  unfold ack
  rcases hg : b.bufferByStream.get acked with _ | buffer
  · dsimp only
    split
    · rename_i h
      subst h
      simp [stream, hg]
    · rfl
  dsimp only
  unfold stream
  by_cases h : key = acked
  · subst h
    rw [if_pos rfl, hg, getD_some]
    split
    · rename_i he
      rw [HashMap.get_remove, if_pos rfl, isEmpty_iff.mp he]
      rfl
    · rw [HashMap.get_insert, if_pos rfl]
      rfl
  split
  · rw [HashMap.get_remove, if_neg (by simpa using h)]
  · rw [HashMap.get_insert, if_neg (by simpa using h)]

def Balanced (b : OutboundBuffer M) : Prop := b.used = b.bufferByStream.total List.length

lemma length_stream (b : OutboundBuffer M) (key : StreamKey) :
    (b.bufferByStream.get key).elim 0 List.length = (b.stream key).length := by
  unfold stream
  cases b.bufferByStream.get key <;> rfl

lemma Balanced.insert (h : b.Balanced) (envelope : ServerEnvelope M) : (b.insert envelope).Balanced := by
  have hs := total_insert List.length b.bufferByStream envelope.key (b.stream envelope.key ++ [envelope])
  rw [length_stream, length_append, length_singleton] at hs
  unfold Balanced OutboundBuffer.insert at *
  dsimp only
  omega

lemma Balanced.inserts (h : b.Balanced) (envelopes : List (ServerEnvelope M)) :
    (envelopes.foldl OutboundBuffer.insert b).Balanced := by
  induction envelopes generalizing b with
  | nil => exact h
  | cons envelope envelopes ih => exact ih (h.insert envelope)

lemma Balanced.acked_le (h : b.Balanced) (key : StreamKey) (acked : ServerEnvelope M → Bool) :
    ((b.stream key).filter acked).length ≤ b.used := by
  have hs := total_remove List.length b.bufferByStream key
  rw [length_stream] at hs
  have hf := length_filter_le acked (b.stream key)
  unfold Balanced at h
  omega

lemma Balanced.ack (h : b.Balanced) (key : StreamKey) (seqId : Nat) (segmentId : Option Nat) :
    (b.ack key seqId segmentId).Balanced := by
  unfold OutboundBuffer.ack
  rcases hg : b.bufferByStream.get key with _ | buffer
  · exact h
  have hs := length_eq_length_filter_add (l := buffer) (isAcked seqId segmentId)
  unfold Balanced at h ⊢
  dsimp only
  split
  · rename_i he
    have hsu := total_remove List.length b.bufferByStream key
    rw [hg, elim_some] at hsu
    have hk := congrArg List.length (isEmpty_iff.mp he)
    simp only [length_nil] at hk
    omega
  have hsu := total_insert List.length b.bufferByStream key
    (buffer.filter fun envelope => !isAcked seqId segmentId envelope)
  rw [hg, elim_some] at hsu
  omega

lemma mem_serverEnvelopes {order : Order} : envelope ∈ b.serverEnvelopes order ↔ ∃ key, envelope ∈ b.stream key := by
  unfold serverEnvelopes
  rw [mem_flatMap]
  constructor
  · rintro ⟨entry, hen, he⟩
    have hg : b.bufferByStream.get entry.1 = some entry.2 :=
      get_eq_some_iff.mpr ⟨entry, Order.mem_visit.mp hen, rfl, rfl⟩
    exact ⟨entry.1, by simpa [stream, hg] using he⟩
  rintro ⟨key, he⟩
  unfold stream at he
  rcases hg : b.bufferByStream.get key with _ | buffer
  · simp [hg] at he
  obtain ⟨entry, hen, -, rfl⟩ := get_eq_some_iff.mp hg
  exact ⟨entry, Order.mem_visit.mpr hen, by simpa [hg] using he⟩

lemma filter_flatMap (key : StreamKey) {entries : List (StreamKey × List (ServerEnvelope M))}
    (hn : (entries.map fun e => id e.1).Nodup) (hk : ∀ entry ∈ entries, ∀ e ∈ entry.2, e.key = entry.1) :
    (entries.flatMap (·.2)).filter (·.key = key) =
      ((⟨entries, hn⟩ : HashMap (id : StreamKey → StreamKey) _).get key).getD [] := by
  unfold HashMap.get
  induction entries with
  | nil => rfl
  | cons entry entries ih => ?_
  obtain ⟨hf, hn⟩ := nodup_cons.mp hn
  have hr := ih hn fun e he => hk e (mem_cons_of_mem _ he)
  rw [flatMap_cons, filter_append, hr]
  by_cases h : entry.1 = key
  · have ha : entry.2.filter (·.key = key) = entry.2 := by
      rw [filter_eq_self]
      intro e he
      simp [hk entry (by simp) e he, h]
    have hno : (entries.find? fun e => id e.1 = id key) = none := by
      rw [find?_eq_none]
      intro e he hs
      exact hf (mem_map.mpr ⟨e, he, by simpa [h] using hs⟩)
    rw [ha, hno, find?_cons_of_pos (by simpa using h)]
    simp
  have hno : entry.2.filter (·.key = key) = [] := by
    rw [filter_eq_nil_iff]
    intro e he
    simp [hk entry (by simp) e he, h]
  rw [hno, find?_cons_of_neg (by simpa using h), nil_append]

lemma filter_serverEnvelopes (h : ∀ key, ∀ e ∈ b.stream key, e.key = key) (order : Order) (key : StreamKey) :
    (b.serverEnvelopes order).filter (·.key = key) = b.stream key := by
  have hp := order.perm b.bufferByStream.entries
  unfold serverEnvelopes stream
  rw [filter_flatMap key ((hp.map _).nodup_iff.mpr b.bufferByStream.nodup), get_perm hp]
  intro entry hen e he
  apply h
  have hg : b.bufferByStream.get entry.1 = some entry.2 := get_eq_some_iff.mpr ⟨entry, hp.mem_iff.mp hen, rfl, rfl⟩
  simpa [stream, hg] using he

end OutboundBuffer

/-! ## Whole runs -/

section

variable {crates : ServerCrates M} {events : List (WriterEvent M)} {event : WriterEvent M} {w w' : Writer M}
  {key : StreamKey}

/-- What a step of the writer does. -/
inductive Steps (crates : ServerCrates M) (w : Writer M) : WriterEvent M → Writer M → Prop
  | connect (order : Order) (h : w.connection = none) : Steps crates w (.connect order)
      (let envelopes := (w.buffer.serverEnvelopes order).filter (serialises crates)
      { w with connection := some envelopes, resent := envelopes, added := [], written := [] })
  | enqueue (event : ServerEvent M) (key : StreamKey) (h : w.connection = some []) :
      Steps crates w (.enqueue event key) (w.enqueue crates event key)
  | write (envelope : ServerEnvelope M) (rest : List (ServerEnvelope M)) (h : w.connection = some (envelope :: rest)) :
      Steps crates w .write { w with connection := some rest, written := w.written ++ [envelope] }
  | fail : Steps crates w .fail { w with connection := none }
  | ack (key : StreamKey) (seqId : Nat) (segmentId : Option Nat) :
      Steps crates w (.ack key seqId segmentId) { w with buffer := w.buffer.ack key seqId segmentId }

lemma steps_of_writerStep (h : writerStep crates w event = some w') : Steps crates w event w' := by
  cases event with
  | ack key seqId segmentId =>
    cases h
    exact .ack key seqId segmentId
  | enqueue serverEvent key => ?_
  | connect | write | fail =>
    simp only [writerStep] at h
    split at h
    · cases h
      constructor <;> assumption
    · simp at h
  simp only [writerStep] at h
  split at h
  · rename_i hc
    rw [ite_none_right_eq_some, some.injEq] at h
    obtain ⟨-, rfl⟩ := h
    exact .enqueue serverEvent key hc
  · simp at h

section

variable (key : StreamKey) (events : List (WriterEvent M))

def enqueued : Nat :=
  (events.filter fun | .enqueue _ other => other = key | _ => false).length

lemma enqueued_concat (event : WriterEvent M) :
    enqueued key events ≤ enqueued key (events ++ [event]) := by
  unfold enqueued
  rw [filter_append, length_append]
  omega

lemma enqueued_concat_self (event : ServerEvent M) :
    enqueued key (events ++ [.enqueue event key]) = enqueued key events + 1 := by
  simp [enqueued]

end

structure Numbered (events : List (WriterEvent M)) (w : Writer M) (issued : StreamKey → Nat) : Prop where
  enqueued : ∀ key, issued key ≤ enqueued key events
  next : ∀ key, w.nextSeqId key = min (issued key + 1) u64Max
  given : ∀ e ∈ w.serialised, e.seqId ≤ issued e.key

/-- An acknowledgement that covers the envelope came after the envelope was there. -/
def Acked (crates : ServerCrates M) (events : List (WriterEvent M)) (e : ServerEnvelope M) : Prop :=
  ∃ before after seqId segmentId middle, events = before ++ .ack e.key seqId segmentId :: after ∧
    run (writerStep crates) {} before = some middle ∧ e ∈ middle.serialised ∧
    OutboundBuffer.isAcked seqId segmentId e = true

lemma Acked.concat (h : Acked crates events e) (event : WriterEvent M) : Acked crates (events ++ [event]) e := by
  obtain ⟨before, after, seqId, segmentId, middle, rfl, h⟩ := h
  exact ⟨before, after ++ [event], seqId, segmentId, middle, by simp, h⟩

/-- What holds after every run: the buffer has what is not acknowledged, in order, and a connection its own queue. -/
structure Healthy (crates : ServerCrates M) (events : List (WriterEvent M)) (w : Writer M) : Prop where
  balanced : w.buffer.Balanced
  keyed : ∀ key, ∀ e ∈ w.buffer.stream key, e.key = key
  buffered : ∀ key, ∀ e ∈ w.buffer.stream key, e ∈ w.serialised ∧ serialises crates e = true
  covered : ∀ e ∈ w.serialised, e ∈ w.buffer.stream e.key ∨ Acked crates events e
  numbered : ∃ issued, Numbered events w issued
  ordered : ∀ key, enqueued key events ≤ u64Max →
    (w.buffer.stream key).Pairwise fun a b => cursorLt a.cursor b.cursor = true
  queue : ∀ q, w.connection = some q → w.written ++ q = w.resent ++ w.added
  history : ∀ e ∈ w.resent, e ∈ w.serialised
  newer : ∀ r ∈ w.resent, ∀ e ∈ w.added, r.key = e.key → enqueued e.key events ≤ u64Max → r.seqId < e.seqId

lemma nextSeqId_insert (h : w'.nextSeqIdByStream = w.nextSeqIdByStream.insert key seqId)
    (other : StreamKey) : w'.nextSeqId other = if other = key then seqId else w.nextSeqId other := by
  unfold Writer.nextSeqId
  rw [h, HashMap.get_insert]
  by_cases ho : other = key
  all_goals simp [ho]

lemma payloads_oneMessage (h : payloads crates serverEvent key seqId = some out) :
    (∀ e ∈ out, e.key = key ∧ e.seqId = seqId ∧ serialises crates e) ∧
      out.Pairwise fun a b => cursorLt a.cursor b.cursor := by
  obtain ⟨_, hal, rfl⟩ := map_eq_some_iff.mp h
  have ho := split_oneMessage hal
  refine ⟨fun e he => ?_, ?_⟩
  · obtain ⟨hin, hs⟩ := mem_filter.mp he
    exact ⟨ho.key e hin, ho.seqId e hin, hs⟩
  apply List.Pairwise.filter
  apply ho.segments.imp_of_mem
  intro a b ha hb hlt
  simp [cursorLt, ServerEnvelope.cursor, ho.seqId a ha, ho.seqId b hb, hlt]

section Healthy

variable (h : Healthy crates events w)

include h

lemma Healthy.concat (event : WriterEvent M) :
    Healthy crates (events ++ [event]) w := by
  obtain ⟨issued, hn⟩ := h.numbered
  refine ⟨h.balanced, h.keyed, h.buffered, ?_, ⟨issued, ?_, hn.next, hn.given⟩, ?_, h.queue, h.history, ?_⟩
  · exact fun e he => (h.covered e he).imp_right (·.concat event)
  · exact fun other => (hn.enqueued other).trans (enqueued_concat _ _ _)
  · exact fun other hle => h.ordered other ((enqueued_concat _ _ _).trans hle)
  · exact fun r hr e he hk hle => h.newer r hr e he hk ((enqueued_concat _ _ _).trans hle)

omit h in
lemma filter_payloads (hp : payloads crates serverEvent key seqId = some envelopes) (other : StreamKey) :
    envelopes.filter (·.key = other) = if other = key then envelopes else [] := by
  have hon := (payloads_oneMessage hp).1
  split
  · rename_i ho
    rw [filter_eq_self]
    intro e he
    simp [(hon e he).1, ho]
  rename_i ho
  rw [filter_eq_nil_iff]
  intro e he
  simp [(hon e he).1, Ne.symm ho]

lemma Healthy.unsplit (serverEvent : ServerEvent M) (key : StreamKey) :
    Healthy crates (events ++ [.enqueue serverEvent key])
      { w with nextSeqIdByStream := w.nextSeqIdByStream.insert key (w.nextSeqId key) } := by
  have h := h.concat (.enqueue serverEvent key)
  obtain ⟨issued, hn⟩ := h.numbered
  refine ⟨h.balanced, h.keyed, h.buffered, h.covered, ⟨issued, hn.enqueued, ?_, hn.given⟩, h.ordered,
    h.queue, h.history, h.newer⟩
  intro other
  rw [nextSeqId_insert (w := w) rfl]
  split
  · rename_i ho
    rw [ho]
    exact hn.next key
  · exact hn.next other

section Appending

variable {serverEvent : ServerEvent M} {envelopes : List (ServerEnvelope M)}
  (hp : payloads crates serverEvent key (w.nextSeqId key) = some envelopes)

include hp

omit h in
/-- The envelopes of an event get the number after those that were given. -/
lemma Numbered.append (hn : Numbered events w issued) : Numbered (events ++ [.enqueue serverEvent key])
    { w with
      nextSeqIdByStream := w.nextSeqIdByStream.insert key (saturatingSucc (w.nextSeqId key))
      serialised := w.serialised ++ envelopes } fun other => if other = key then issued key + 1 else issued other := by
  refine ⟨?_, ?_, ?_⟩
  · intro other
    split
    · rename_i ho
      rw [ho, enqueued_concat_self]
      exact Nat.succ_le_succ (hn.enqueued key)
    · exact (hn.enqueued other).trans (enqueued_concat _ _ _)
  · intro other
    rw [nextSeqId_insert (w := w) rfl]
    split
    · rw [hn.next key]
      unfold saturatingSucc
      omega
    · exact hn.next other
  intro e he
  rcases mem_append.mp he with he | he
  · have := hn.given e he
    split
    · rename_i hk
      rw [hk] at this
      omega
    · exact this
  obtain ⟨hk, hse, -⟩ := (payloads_oneMessage hp).1 e he
  rw [if_pos hk, hse, hn.next key]
  omega

/-- While numbers are left, what is appended is newer than what was there. -/
lemma Healthy.seqId_lt (hle : enqueued key (events ++ [.enqueue serverEvent key]) ≤ u64Max)
    (hold : old ∈ w.serialised) (hk : old.key = key) (hnew : new ∈ envelopes) : old.seqId < new.seqId := by
  obtain ⟨issued, hn⟩ := h.numbered
  have hg := hn.given old hold
  have hen := hn.enqueued key
  rw [hk] at hg
  rw [enqueued_concat_self] at hle
  rw [((payloads_oneMessage hp).1 new hnew).2.1, hn.next key]
  omega

lemma Healthy.ordered_append (hle : enqueued other (events ++ [.enqueue serverEvent key]) ≤ u64Max) :
    (w.buffer.stream other ++ envelopes.filter (·.key = other)).Pairwise
      fun a b => cursorLt a.cursor b.cursor = true := by
  have hb := h.ordered other ((enqueued_concat _ _ _).trans hle)
  rw [filter_payloads hp]
  split
  · rename_i ho
    subst ho
    rw [pairwise_append]
    refine ⟨hb, (payloads_oneMessage hp).2, fun old hold new hnew => ?_⟩
    have hlt := h.seqId_lt hp hle (h.buffered other old hold).1 (h.keyed other old hold) hnew
    simp [cursorLt, ServerEnvelope.cursor, hlt]
  · rwa [append_nil]

end Appending

lemma Healthy.enqueue (hc : w.connection = some []) (serverEvent : ServerEvent M) (key : StreamKey) :
    Healthy crates (events ++ [.enqueue serverEvent key]) (w.enqueue crates serverEvent key) := by
  obtain ⟨issued, hn⟩ := h.numbered
  unfold Writer.enqueue
  dsimp only
  rcases hp : payloads crates serverEvent key (w.nextSeqId key) with _ | envelopes
  · exact h.unsplit serverEvent key
  have hn := hn.append hp
  refine ⟨h.balanced.inserts _, ?_, ?_, ?_, ⟨_, hn.enqueued, hn.next, hn.given⟩, ?_, ?_, ?_, ?_⟩
  · intro other e he
    rw [OutboundBuffer.stream_inserts, mem_append] at he
    rcases he with he | he
    · exact h.keyed other e he
    · simpa using (mem_filter.mp he).2
  · intro other e he
    rw [OutboundBuffer.stream_inserts, mem_append] at he
    rcases he with he | he
    · exact ⟨mem_append_left _ (h.buffered other e he).1, (h.buffered other e he).2⟩
    · have hin := (mem_filter.mp he).1
      exact ⟨mem_append_right _ hin, ((payloads_oneMessage hp).1 e hin).2.2⟩
  · intro e he
    rw [OutboundBuffer.stream_inserts]
    rcases mem_append.mp he with he | he
    · exact (h.covered e he).imp (mem_append_left _) (·.concat _)
    · exact .inl (mem_append_right _ (mem_filter.mpr ⟨he, by simp⟩))
  · intro other hle
    rw [OutboundBuffer.stream_inserts]
    exact h.ordered_append hp hle
  · intro q hq
    obtain rfl := some.inj hq
    have := h.queue [] hc
    rw [append_nil] at this
    rw [this, append_assoc]
  · exact fun e he => mem_append_left _ (h.history e he)
  · intro r hr e he hk hle
    rcases mem_append.mp he with he | he
    · exact h.newer r hr e he hk ((enqueued_concat _ _ _).trans hle)
    have hek := ((payloads_oneMessage hp).1 e he).1
    rw [hek] at hle hk
    exact h.seqId_lt hp hle (h.history r hr) hk he

lemma Healthy.connect (order : Order) : Healthy crates (events ++ [.connect order]) { w with
      connection := some ((w.buffer.serverEnvelopes order).filter (serialises crates))
      resent := (w.buffer.serverEnvelopes order).filter (serialises crates), added := [], written := [] } := by
  have h := h.concat (.connect order)
  obtain ⟨issued, hn⟩ := h.numbered
  refine ⟨h.balanced, h.keyed, h.buffered, h.covered, ⟨issued, hn.enqueued, hn.next, hn.given⟩, h.ordered, ?_, ?_, ?_⟩
  · intro q hq
    cases hq
    simp
  · intro e he
    obtain ⟨key, hin⟩ := OutboundBuffer.mem_serverEnvelopes.mp (mem_filter.mp he).1
    exact (h.buffered key e hin).1
  · intro r hr e he
    simp at he

lemma Healthy.ack (hrun : run (writerStep crates) {} events = some w) (key : StreamKey) (seqId : Nat) (segmentId : Option Nat) :
    Healthy crates (events ++ [.ack key seqId segmentId]) { w with buffer := w.buffer.ack key seqId segmentId } := by
  obtain ⟨issued, hn⟩ := h.numbered
  have hs : ∀ other, ((w.buffer.ack key seqId segmentId).stream other).Sublist (w.buffer.stream other) := by
    intro other
    rw [OutboundBuffer.stream_ack]
    split
    · exact filter_sublist
    · exact List.Sublist.refl _
  refine ⟨h.balanced.ack key seqId segmentId, ?_, ?_, ?_, ⟨issued, ?_, hn.next, hn.given⟩, ?_, h.queue, h.history, ?_⟩
  · exact fun other e he => h.keyed other e ((hs other).subset he)
  · exact fun other e he => h.buffered other e ((hs other).subset he)
  · intro e he
    rw [OutboundBuffer.stream_ack]
    rcases h.covered e he with hin | hac
    · by_cases ha : e.key = key ∧ OutboundBuffer.isAcked seqId segmentId e
      · exact .inr ⟨events, [], seqId, segmentId, w, by rw [ha.1], hrun, he, ha.2⟩
      left
      split
      · rename_i hk
        exact mem_filter.mpr ⟨hin, by simpa [hk] using ha⟩
      · exact hin
    · exact .inr (hac.concat _)
  · exact fun other => (hn.enqueued other).trans (enqueued_concat _ _ _)
  · exact fun other hle => (h.ordered other ((enqueued_concat _ _ _).trans hle)).sublist (hs other)
  · exact fun r hr e he hk hle => h.newer r hr e he hk ((enqueued_concat _ _ _).trans hle)

lemma Healthy.writing (event : WriterEvent M) (hq : ∀ q, connection = some q → written ++ q = w.resent ++ w.added) :
    Healthy crates (events ++ [event]) { w with connection, written } := by
  have h := h.concat event
  obtain ⟨issued, hn⟩ := h.numbered
  exact ⟨h.balanced, h.keyed, h.buffered, h.covered, ⟨issued, hn.enqueued, hn.next, hn.given⟩,
    h.ordered, hq, h.history, h.newer⟩

lemma healthy_step (hrun : run (writerStep crates) {} events = some w) (hs : writerStep crates w event = some w') :
    Healthy crates (events ++ [event]) w' := by
  cases steps_of_writerStep hs with
  | connect order hc => exact h.connect order
  | enqueue serverEvent key hc => exact h.enqueue hc serverEvent key
  | write envelope rest hc => ?_
  | fail => exact h.writing .fail fun q hq => absurd hq (by simp)
  | ack key seqId segmentId => exact h.ack hrun key seqId segmentId
  refine h.writing .write fun q hq => ?_
  cases hq
  have := h.queue _ hc
  rw [append_assoc]
  exact this

end Healthy

lemma healthy_start : Healthy crates [] ({} : Writer M) := by
  have hs : ∀ key, (({} : Writer M).buffer.stream key) = [] := fun _ => rfl
  refine ⟨rfl, ?_, ?_, by simp, ⟨fun _ => 0, ?_, ?_, by simp⟩, ?_, by simp, by simp, by simp⟩
  · exact fun key e he => absurd he (by simp [hs])
  · exact fun key e he => absurd he (by simp [hs])
  · exact fun key => Nat.zero_le _
  · intro key
    show 1 = min (0 + 1) u64Max
    decide
  · intro key _
    exact .nil

lemma healthy_run (h : run (writerStep crates) {} events = some w) : Healthy crates events w :=
  invariant (fun events w => Healthy crates events w) healthy_start (fun _ _ _ _ hr ho hs => healthy_step ho hr hs) h

/-- The last connection began with what each stream then had in the buffer. -/
def LastConnect (crates : ServerCrates M) (events : List (WriterEvent M)) (resent : List (ServerEnvelope M)) : Prop :=
  ∃ before order after middle, events = before ++ .connect order :: after ∧ (∀ other, .connect other ∉ after) ∧
    run (writerStep crates) {} before = some middle ∧
    ∀ key, resent.filter (·.key = key) = middle.buffer.stream key

lemma LastConnect.concat {resent : List (ServerEnvelope M)} (h : LastConnect crates events resent)
    (he : ∀ order, event ≠ .connect order) : LastConnect crates (events ++ [event]) resent := by
  obtain ⟨before, order, after, middle, rfl, ha, hr⟩ := h
  refine ⟨before, order, after ++ [event], middle, by simp, fun other => ?_, hr⟩
  rw [mem_append, mem_singleton, not_or]
  exact ⟨ha other, (he other).symm⟩

lemma resent_eq_stream (h : Healthy crates events w) (order : Order) (key : StreamKey) :
    ((w.buffer.serverEnvelopes order).filter (serialises crates)).filter (·.key = key) = w.buffer.stream key := by
  have ha : (w.buffer.serverEnvelopes order).filter (serialises crates) = w.buffer.serverEnvelopes order := by
    rw [filter_eq_self]
    intro e he
    obtain ⟨other, hin⟩ := OutboundBuffer.mem_serverEnvelopes.mp he
    exact (h.buffered other e hin).2
  rw [ha, OutboundBuffer.filter_serverEnvelopes h.keyed]

lemma lastConnect_run (h : run (writerStep crates) {} events = some w) :
    ∀ q, w.connection = some q → LastConnect crates events w.resent := by
  refine invariant (fun events w => ∀ q, w.connection = some q → LastConnect crates events w.resent) (by simp) ?_ h
  intro events event w w' hru ho hs q hq
  have hh := healthy_run hru
  cases steps_of_writerStep hs with
  | connect order hc => exact ⟨events, order, [], w, rfl, by simp, hru, resent_eq_stream hh order⟩
  | enqueue serverEvent key hc => ?_
  | write envelope rest hc => exact (ho _ hc).concat (by simp)
  | fail => simp at hq
  | ack key seqId segmentId => exact (ho q hq).concat (by simp)
  have hr : (w.enqueue crates serverEvent key).resent = w.resent := by
    unfold Writer.enqueue
    dsimp only
    split <;> rfl
  rw [hr]
  exact (ho [] hc).concat (by simp)

/-- Envelopes are in the buffer until acknowledged, and a connection writes what it found before anything newer. -/
theorem unacknowledged_survive_reconnects (hrun : run (writerStep crates) {} events = some w) :
    (∀ e ∈ w.serialised, e ∈ w.buffer.stream e.key ∨ Acked crates events e) ∧
    (∀ key, enqueued key events ≤ u64Max →
      (w.buffer.stream key).Pairwise fun a b => cursorLt a.cursor b.cursor = true) ∧
    w.buffer.used = w.buffer.bufferByStream.total List.length ∧
    (∀ key acked, ((w.buffer.stream key).filter acked).length ≤ w.buffer.used) ∧
    ∀ q, w.connection = some q → LastConnect crates events w.resent ∧ w.written ++ q = w.resent ++ w.added ∧
      ∀ r ∈ w.resent, ∀ e ∈ w.added, r.key = e.key → enqueued e.key events ≤ u64Max → r.seqId < e.seqId := by
  have h := healthy_run hrun
  refine ⟨h.covered, h.ordered, h.balanced, h.balanced.acked_le, fun q hq => ?_⟩
  exact ⟨lastConnect_run hrun q hq, h.queue q hq, h.newer⟩

def shortLines : ServerCrates Unit where
  serializedLen _ := some 100
  toVec _ := some []
  encode _ := []
  responseError _ := none

/-- Of three envelopes the first is acknowledged and the others are sent again, before a newer one. -/
def pongAcrossReconnect : List (WriterEvent Unit) :=
  [.connect .same, .enqueue (.pong true) ("c", "s"), .write, .enqueue (.pong true) ("c", "s"),
    .ack ("c", "s") 1 none, .write, .enqueue (.pong false) ("d", "s"), .fail, .connect .same, .write, .write,
    .enqueue (.pong false) ("c", "s"), .write]

theorem pong_survives_reconnect : ∃ w, run (writerStep shortLines) {} pongAcrossReconnect = some w ∧
    w.buffer.used = w.buffer.bufferByStream.total List.length ∧ w.buffer.used = 3 ∧
    Acked shortLines pongAcrossReconnect ⟨.pong true, "c", "s", 1⟩ ∧
    LastConnect shortLines pongAcrossReconnect w.resent ∧ w.written ++ [] = w.resent ++ w.added ∧
    w.resent.map (·.cursor) = [(2, 0), (1, 0)] ∧ w.added.map (·.cursor) = [(3, 0)] := by
  obtain ⟨w, hr, hu, hq, hs, hb, hre, had⟩ : ∃ w, run (writerStep shortLines) {} pongAcrossReconnect = some w ∧
      w.buffer.used = 3 ∧ w.connection = some [] ∧ (⟨.pong true, "c", "s", 1⟩ : ServerEnvelope Unit) ∈ w.serialised ∧
      (w.buffer.stream ("c", "s")).map (·.seqId) = [2, 3] ∧
      w.resent.map (·.cursor) = [(2, 0), (1, 0)] ∧ w.added.map (·.cursor) = [(3, 0)] :=
    ⟨_, rfl, rfl, rfl, .head _, rfl, rfl, rfl⟩
  obtain ⟨hac, -, hba, -, hc⟩ := unacknowledged_survive_reconnects hr
  refine ⟨w, hr, hba, hu, (hac _ hs).resolve_left fun hin => ?_, (hc [] hq).1, (hc [] hq).2.1, hre, had⟩
  have hone : 1 ∈ (w.buffer.stream ("c", "s")).map (·.seqId) := mem_map.mpr ⟨_, hin, rfl⟩
  rw [hb] at hone
  simp at hone

/-! ## Numbers run out -/

structure Ready (key : StreamKey) (n : Nat) (w : Writer Unit) : Prop where
  connection : w.connection = some []
  used : w.buffer.used = 0
  empty : w.buffer.stream key = []
  next : w.nextSeqId key = n

def pongs (key : StreamKey) : List (WriterEvent Unit) :=
  [.enqueue (.pong true) key, .write, .ack key u64Max none]

lemma pong_buffered {w : Writer Unit} (h : Ready key n w) :
    ∃ w', run (writerStep shortLines) w [.enqueue (.pong true) key, .write] = some w' ∧ w'.connection = some [] ∧
      w'.buffer.used = 1 ∧ w'.buffer.stream key = [⟨.pong true, key.1, key.2, n⟩] ∧
      w'.nextSeqId key = saturatingSucc n := by
  have hp : payloads shortLines (.pong true) key n = some [⟨.pong true, key.1, key.2, n⟩] := rfl
  let envelope : ServerEnvelope Unit := ⟨.pong true, key.1, key.2, n⟩
  refine ⟨{ w with
    buffer := w.buffer.insert envelope
    nextSeqIdByStream := w.nextSeqIdByStream.insert key (saturatingSucc n)
    connection := some []
    serialised := w.serialised ++ [envelope]
    added := w.added ++ [envelope]
    written := w.written ++ [envelope] }, ?_, rfl, ?_, ?_, ?_⟩
  · unfold run
    simp only [foldlM_cons, writerStep, h.connection, h.used, Writer.enqueue, h.next]
    rfl
  · show w.buffer.used + 1 = 1
    rw [h.used]
  · rw [OutboundBuffer.stream_insert, if_pos (show key = envelope.key from rfl), h.empty, nil_append]
  · rw [nextSeqId_insert (w := w) rfl, if_pos rfl]

lemma pong_acked (hn : n ≤ u64Max) {w : Writer Unit} (h : Ready key n w) :
    ∃ w', run (writerStep shortLines) w (pongs key) = some w' ∧ Ready key (saturatingSucc n) w' := by
  obtain ⟨w', hr, hc, hu, hs, hnex⟩ := pong_buffered h
  have ha : (w'.buffer.ack key u64Max none).stream key = [] := by
    rw [OutboundBuffer.stream_ack, if_pos rfl, hs]
    simp [OutboundBuffer.isAcked, hn]
  have hz : (w'.buffer.ack key u64Max none).used = 0 := by
    unfold OutboundBuffer.ack
    rcases hg : w'.buffer.bufferByStream.get key with _ | buffer
    · simp [OutboundBuffer.stream, hg] at hs
    obtain rfl : buffer = [⟨.pong true, key.1, key.2, n⟩] := by simpa [OutboundBuffer.stream, hg] using hs
    simp [OutboundBuffer.isAcked, hn, hu]
  refine ⟨{ w' with buffer := w'.buffer.ack key u64Max none }, ?_, hc, hz, ha, hnex⟩
  rw [show pongs key = [.enqueue (.pong true) key, .write] ++ [.ack key u64Max none] from rfl, run_append]
  exact ⟨w', hr, rfl⟩

lemma ready_after (key : StreamKey) (count : Nat) : ∃ events w, run (writerStep shortLines) {} events = some w ∧
    Ready key (min (count + 1) u64Max) w := by
  induction count with
  | zero => exact ⟨[.connect .same], _, rfl, rfl, rfl, rfl, rfl⟩
  | succ count ih => ?_
  obtain ⟨events, w, hru, hr⟩ := ih
  obtain ⟨w', hm, hr'⟩ := pong_acked (Nat.min_le_right _ _) hr
  refine ⟨events ++ pongs key, w', run_append.mpr ⟨w, hru, hm⟩, ?_⟩
  have hn : saturatingSucc (min (count + 1) u64Max) = min (count + 1 + 1) u64Max := by
    unfold saturatingSucc
    omega
  rwa [hn] at hr'

theorem greatest_number_given_twice : ∃ events w, run (writerStep shortLines) {} events = some w ∧
    ¬ (w.buffer.stream ("c", "s")).Pairwise fun a b => cursorLt a.cursor b.cursor = true := by
  obtain ⟨events, w, hru, hr⟩ := ready_after ("c", "s") (u64Max - 1)
  obtain ⟨w', hm, hc, hu, hs, hn⟩ := pong_buffered hr
  have hn : w'.nextSeqId ("c", "s") = u64Max := hn
  refine ⟨events ++ [.enqueue (.pong true) ("c", "s"), .write] ++ [.enqueue (.pong true) ("c", "s")],
    w'.enqueue shortLines (.pong true) ("c", "s"), ?_, ?_⟩
  · refine run_concat.mpr ⟨w', run_append.mpr ⟨w, hru, hm⟩, ?_⟩
    simp only [writerStep, hc, hu]
    rfl
  have hp : payloads shortLines (.pong true) ("c", "s") u64Max =
      some [⟨.pong true, "c", "s", u64Max⟩] := rfl
  unfold Writer.enqueue
  simp only [hn, hp, foldl_cons, foldl_nil, OutboundBuffer.stream_insert, hs]
  decide

end

end Codex.RemoteControl
