import Codex.RemoteControl.Successor
import Codex.RemoteControl.Numbering

/-! # What holds the shared capacity: only acknowledgements take envelopes out of the buffer -/

namespace Codex.RemoteControl

open Codex.Text Codex.Run Option OutboundBuffer ClientTracker

variable {M N : Type} {messages : MessageCrates M} {server : ServerCrates N}

structure System (N : Type) where
  reader : Reader := {}
  writer : Writer N := {}

inductive SystemEvent (M N : Type) where
  | reader (event : ReaderEvent M)
  | writer (event : WriterEvent N)

def System.acknowledge (s : System N) : Option Acknowledgement → System N
  | some a => { s with writer := { s.writer with buffer := s.writer.buffer.ack a.key a.seqId a.segmentId } }
  | none => s

/-- The acknowledgements of the writer are those that the reader receives. -/
def systemStep (messages : MessageCrates M) (server : ServerCrates N) (s : System N) :
    SystemEvent M N → Option (System N)
  | .reader event =>
    (readerStep messages s.reader event).map fun next => { s with reader := next.1 }.acknowledge next.2.ack
  | .writer (.ack ..) => none
  | .writer event => (writerStep server s.writer event).map fun writer => { s with writer }

def Reader.isLive (r : Reader) (key : StreamKey) : Bool := r.tracker.clients.contains key

/-- An `initialize` gets its stream a new connection: the close of an old one and the first two events get through. -/
def Opens (t : ClientTracker) (key : StreamKey) (delivery : Delivery) : Prop :=
  (∀ client, t.clients.get key = some client → delivery.closed client.connectionId = true) ∧
    delivery.opened = true ∧ delivery.incoming = true

/-- The events after which a stream has no connection: a close from the client, an `initialize` that does not get
through, the end of an outbound task of the stream, a sweep that comes to it, and the shutdown. -/
def Closes (crates : MessageCrates M) (r : Reader) (key : StreamKey) : ReaderEvent M → Prop
  | .envelope envelope wireSizeBytes now fresh delivery =>
    ∃ forwarded, (r.observeClientMessage crates envelope wireSizeBytes now).2 = .forward forwarded ∧
      key = (forwarded.clientId, r.tracker.streamOf crates forwarded fresh) ∧
      (forwarded.event = .clientClosed ∨
        isInitialize crates forwarded.event = true ∧ ¬ Opens r.tracker key delivery)
  | .taskEnded other _ _ => other = key
  | .taskFailed _ _ => False
  | .sweep order now closed => ∃ before after, r.tracker.expired order now = before ++ key :: after ∧
      ∀ other ∈ before, ∀ client, r.tracker.clients.get other = some client → closed client.connectionId = true
  | .shutdown _ _ => True

/-- A connection ends with envelopes in the buffer of its stream, or something is sent to a stream without one. -/
def Strands (messages : MessageCrates M) (s : System N) : SystemEvent M N → Prop
  | .reader event => ∃ key, s.reader.isLive key = true ∧ s.writer.buffer.stream key ≠ [] ∧
      Closes messages s.reader key event
  | .writer (.enqueue _ key) => s.reader.isLive key = false
  | .writer _ => False

/-! ## Which streams keep their connection -/

section Live

variable {t : ClientTracker} {key other : StreamKey} {delivery : Delivery} {now : Nat} {seqId : Option Nat}

def ClientTracker.HasClient (t : ClientTracker) (key : StreamKey) : Prop := (t.clients.get key).isSome

lemma hasClient_insert (client : ClientState) :
    ({ t with clients := t.clients.insert key client } : ClientTracker).HasClient other ↔
      other = key ∨ t.HasClient other := by
  unfold ClientTracker.HasClient
  rw [HashMap.get_insert]
  by_cases ho : other = key <;> simp [ho]

lemma hasClient_recordInboundMessageDelivery :
    (t.recordInboundMessageDelivery key seqId).HasClient other ↔ t.HasClient other := by
  unfold recordInboundMessageDelivery
  split
  · rename_i client hg
    rw [hasClient_insert]
    refine ⟨?_, .inr⟩
    rintro (rfl | ho)
    · simp [ClientTracker.HasClient, hg]
    · exact ho
  · rfl

lemma hasClient_forward {client : ClientState} {message : M} (h : t.HasClient other) :
    (t.forward key client message seqId now delivery).tracker.HasClient other := by
  simp only [forward]
  split
  · exact hasClient_recordInboundMessageDelivery.mpr ((hasClient_insert _).mpr (.inr h))
  · exact (hasClient_insert _).mpr (.inr h)

lemma hasClient_closeClient {closed : Nat → Bool} :
    (t.closeClient closed key : Outcome M).tracker.HasClient other ↔ other ≠ key ∧ t.HasClient other := by
  unfold ClientTracker.HasClient
  rw [get_closeClient]
  by_cases ho : other = key <;> simp [ho]

lemma hasClient_openConnection {legacy : Bool} {message : M} (ho : t.HasClient other ∨ other = key)
    (hne : other = key → delivery.opened ∧ delivery.incoming) :
    (t.openConnection key legacy message seqId now delivery).tracker.HasClient other := by
  unfold openConnection
  cases hop : delivery.opened with
  | false =>
    rcases ho with ho | rfl
    · exact ho
    · simp [hop] at hne
  | true => ?_
  have hin : ∀ legacyStreamIds joinSet nextConnectionId client,
      (⟨t.clients.insert key client, legacyStreamIds, joinSet, nextConnectionId⟩ : ClientTracker).HasClient other :=
    fun _ _ _ client => (hasClient_insert client).mpr ho.symm
  cases hi : delivery.incoming with
  | true =>
    cases legacy with
    | true => exact hin _ _ _ _
    | false => exact hasClient_recordInboundMessageDelivery.mpr (hin _ _ _ _)
  | false =>
    have hother : other ≠ key := fun heq => by simp [hi] at hne; exact hne heq
    simp only [ClientTracker.HasClient, Bool.not_true, Bool.false_eq_true, if_false, get_removeClient, if_neg hother]
    rw [HashMap.get_insert, if_neg (by simpa using hother)]
    exact ho.resolve_right hother

lemma hasClient_reopen {legacy : Bool} {message : M} (ho : t.HasClient other)
    (hne : other = key → Opens t key delivery) :
    (t.reopen key legacy message seqId now delivery).tracker.HasClient other := by
  simp only [reopen]
  by_cases heq : other = key
  · obtain ⟨hc, hop⟩ := hne heq
    rw [if_pos (ok_closeClient.mpr hc)]
    exact hasClient_openConnection (.inr heq) fun _ => hop
  have hkept : (t.closeClient delivery.closed key : Outcome M).tracker.HasClient other :=
    hasClient_closeClient.mpr ⟨heq, ho⟩
  split
  · exact hasClient_openConnection (.inl hkept) fun h => absurd h heq
  · exact hkept

lemma hasClient_handleMessage {envelope : ClientEnvelope M} {fresh : Text} (ho : t.HasClient other)
    (hne : other = (envelope.clientId, t.streamOf messages envelope fresh) → envelope.event ≠ .clientClosed ∧
      (isInitialize messages envelope.event → Opens t other delivery)) :
    (t.handleMessage messages envelope now fresh delivery).tracker.HasClient other := by
  have hl : (t.takeLegacy messages envelope).HasClient other := by
    unfold ClientTracker.HasClient
    rwa [(clients_takeLegacy t envelope).1]
  simp only [handleMessage]
  split
  · exact hl
  split
  · rename_i message he
    split
    · rename_i hstart
      refine hasClient_reopen hl fun heq => ?_
      have hop := (hne heq).2 (by rw [he]; exact hstart)
      unfold Opens at hop ⊢
      rwa [(clients_takeLegacy t envelope).1, ← heq]
    split
    · exact hl
    split
    · exact hl
    · exact hasClient_forward hl
  · exact hl
  · exact hl
  · split
    · exact (hasClient_insert _).mpr (.inr hl)
    · exact hl
  · rename_i he
    exact hasClient_closeClient.mpr ⟨fun heq => (hne heq).1 he, hl⟩

lemma hasClient_closeClients {closed : Nat → Bool} {keys : List StreamKey} (ho : t.HasClient other)
    (hne : ∀ before after, keys = before ++ other :: after →
      ∃ key ∈ before, ∃ client, t.clients.get key = some client ∧ closed client.connectionId = false) :
    (closeClients closed t keys : Outcome M).tracker.HasClient other := by
  induction keys generalizing t with
  | nil => exact ho
  | cons key keys ih => ?_
  have hk : other ≠ key := by
    rintro rfl
    obtain ⟨_, hin, -⟩ := hne [] keys rfl
    simp at hin
  have hkept : (t.closeClient closed key : Outcome M).tracker.HasClient other := hasClient_closeClient.mpr ⟨hk, ho⟩
  simp only [closeClients]
  split
  · rename_i hok
    refine ih hkept fun before after heq => ?_
    obtain ⟨stuck, hin, client, hg, hc⟩ := hne (key :: before) after (by rw [heq, List.cons_append])
    have hs : stuck ≠ key := by
      rintro rfl
      rw [ok_closeClient.mp hok client hg] at hc
      cases hc
    refine ⟨stuck, (List.mem_cons.mp hin).resolve_left hs, client, ?_, hc⟩
    rw [get_closeClient, if_neg hs, hg]
  · exact hkept

end Live

lemma isLive_iff {r : Reader} {key : StreamKey} : r.isLive key ↔ r.tracker.HasClient key := by
  rfl

/-- A stream keeps its connection in every step that does not close it. -/
lemma isLive_of_not_closes {r : Reader} {key : StreamKey} {event : ReaderEvent M} {next : Reader × ReaderOutput M}
    (hs : readerStep messages r event = some next) (hl : r.isLive key) (hn : ¬ Closes messages r key event) :
    next.1.isLive key := by
  rw [isLive_iff] at hl ⊢
  cases event with
  | envelope envelope wireSizeBytes now fresh delivery =>
    cases hs
    simp only [Reader.receive]
    split
    · rename_i forwarded ho
      have hkept : (r.tracker.handleMessage messages forwarded now fresh delivery).tracker.HasClient key := by
        refine hasClient_handleMessage hl fun heq => ⟨fun he => hn ⟨forwarded, ho, heq, .inl he⟩, fun hi => ?_⟩
        by_contra hop
        exact hn ⟨forwarded, ho, heq, .inr ⟨hi, hop⟩⟩
      simp only [Reader.deliver]
      split
      · unfold Reader.forgetClosed
        split
        · split <;> exact hkept
        · exact hkept
      · exact hkept
    · exact hl
    · exact hl
  | taskEnded other connectionId closed =>
    simp only [readerStep] at hs
    split at hs
    · cases hs
      simp only [Reader.bookkeep]
      have hkept : ((r.joined other connectionId).tracker.closeClient closed other : Outcome M).tracker.HasClient key :=
        hasClient_closeClient.mpr ⟨fun heq => hn heq.symm, hl⟩
      split <;> exact hkept
    · cases hs
  | taskFailed other connectionId =>
    simp only [readerStep] at hs
    split at hs
    · cases hs
      exact hl
    · cases hs
  | sweep order now closed =>
    cases hs
    have hkept : (closeClients closed r.tracker (r.tracker.expired order now) : Outcome M).tracker.HasClient key := by
      refine hasClient_closeClients hl fun before after heq => ?_
      by_contra hno
      refine hn ⟨before, after, heq, fun other ho client hg => ?_⟩
      by_contra hc
      exact hno ⟨other, ho, client, hg, by simpa using hc⟩
    simp only [Reader.sweep]
    split
    · rw [tracker_invalidateStreams]
      exact hkept
    · exact hkept
  | shutdown order closed => exact absurd trivial hn

/-- Nothing is buffered for a stream without a connection. -/
structure Unstranded (s : System N) : Prop where
  balanced : s.writer.buffer.Balanced
  live : ∀ key, s.reader.isLive key = false → s.writer.buffer.stream key = []

lemma Unstranded.acknowledge {s : System N} (h : Unstranded s) (ack : Option Acknowledgement) :
    Unstranded (s.acknowledge ack) := by
  rcases ack with _ | a
  · exact h
  refine ⟨h.balanced.ack _ _ _, fun key hd => ?_⟩
  show (s.writer.buffer.ack a.key a.seqId a.segmentId).stream key = []
  rw [stream_ack, h.live key hd]
  split <;> rfl

lemma Unstranded.enqueue (h : Unstranded s)
    (hl : s.reader.isLive key) : Unstranded { s with writer := s.writer.enqueue server event key } := by
  rcases hp : payloads server event key (s.writer.nextSeqId key) with _ | envelopes
  · have hb : (s.writer.enqueue server event key).buffer = s.writer.buffer := by
      simp [Writer.enqueue, hp]
    exact ⟨hb ▸ h.balanced, fun other hd => hb ▸ h.live other hd⟩
  have hb : (s.writer.enqueue server event key).buffer = envelopes.foldl OutboundBuffer.insert s.writer.buffer := by
    simp [Writer.enqueue, hp]
  refine ⟨hb ▸ h.balanced.inserts envelopes, fun other hd => ?_⟩
  rw [hb, stream_inserts, h.live other hd, List.nil_append, List.filter_eq_nil_iff]
  intro e he
  have ho : other ≠ key := by
    rintro rfl
    exact absurd (hl.symm.trans hd) (by decide)
  simp [((payloads_oneMessage hp).1 e he).1, Ne.symm ho]

lemma buffer_of_not_enqueue (hs : writerStep server w event = some w')
    (he : ∀ serverEvent key, event ≠ .enqueue serverEvent key)
    (ha : ∀ key seqId segmentId, event ≠ .ack key seqId segmentId) : w'.buffer = w.buffer := by
  cases steps_of_writerStep hs with
  | enqueue serverEvent key => exact absurd rfl (he serverEvent key)
  | ack key seqId segmentId => exact absurd rfl (ha key seqId segmentId)
  | connect | write | fail => rfl

lemma unstranded_step (h : Unstranded s)
    (hg : ¬ Strands messages s event) (hs : systemStep messages server s event = some s') : Unstranded s' := by
  cases event with
  | reader event =>
    obtain ⟨next, hn, rfl⟩ := map_eq_some_iff.mp hs
    apply Unstranded.acknowledge
    refine ⟨h.balanced, fun key hd => ?_⟩
    by_contra hne
    cases hl : s.reader.isLive key with
    | true =>
      have hk := isLive_of_not_closes hn hl fun hc => hg ⟨key, hl, hne, hc⟩
      exact absurd (hk.symm.trans hd) (by decide)
    | false => exact hne (h.live key hl)
  | writer event => ?_
  by_cases ha : ∃ key seqId segmentId, event = .ack key seqId segmentId
  · obtain ⟨key, seqId, segmentId, rfl⟩ := ha
    simp [systemStep] at hs
  have hm : ∃ w, writerStep server s.writer event = some w ∧ { s with writer := w } = s' := by
    cases event with
    | ack key seqId segmentId => exact absurd ⟨key, seqId, segmentId, rfl⟩ ha
    | connect | enqueue serverEvent key | write | fail => exact map_eq_some_iff.mp hs
  obtain ⟨w, hw, rfl⟩ := hm
  by_cases he : ∃ serverEvent key, event = .enqueue serverEvent key
  · obtain ⟨serverEvent, key, rfl⟩ := he
    cases steps_of_writerStep hw
    exact h.enqueue (by simpa [Strands] using hg)
  have hb := buffer_of_not_enqueue hw (fun serverEvent key heq => he ⟨serverEvent, key, heq⟩)
    fun key seqId segmentId heq => ha ⟨key, seqId, segmentId, heq⟩
  exact ⟨hb ▸ h.balanced, fun key hd => hb ▸ h.live key hd⟩

/-- If connections end with everything acknowledged, streams without a connection hold nothing. -/
theorem closed_streams_hold_nothing {events : List (SystemEvent M N)} {s : System N}
    (hrun : run (systemStep messages server) {} events = some s)
    (hgood : Avoids (systemStep messages server) (Strands messages) {} events) :
    (∀ key, s.reader.isLive key = false → s.writer.buffer.stream key = []) ∧
      s.writer.buffer.used ≤ (s.reader.tracker.clients.keys.map fun key => (s.writer.buffer.stream key).length).sum :=
        by
  have h : Unstranded s := by
    have hst : Unstranded ({} : System N) := ⟨rfl, fun _ _ => rfl⟩
    refine invariant_of_avoids Unstranded hst ?_ hrun hgood
    exact fun s event s' h hgood hste => unstranded_step h hgood hste
  refine ⟨h.live, ?_⟩
  have hb : s.writer.buffer.used = s.writer.buffer.bufferByStream.total List.length := h.balanced
  rw [hb]
  refine le_trans (HashMap.total_le_sum List.length s.reader.tracker.clients.keys _ ?_) (le_of_eq ?_)
  · intro entry he hne
    have hs : s.writer.buffer.stream entry.1 = entry.2 := by
      have hg : s.writer.buffer.bufferByStream.get entry.1 = some entry.2 :=
        HashMap.get_eq_some_iff.mpr ⟨entry, he, rfl, rfl⟩
      simp [stream, hg]
    cases hl : s.reader.isLive entry.1 with
    | true => ?_
    | false =>
      rw [h.live entry.1 hl] at hs
      exact absurd (by rw [← hs]; rfl) hne
    obtain ⟨key, hk, hsa⟩ := HashMap.contains_iff.mp hl
    obtain rfl : key = entry.1 := hsa
    exact hk
  congr 1
  apply List.map_congr_left
  intro key _
  exact length_stream _ _

/-! ## A client that closes -/

def openedStream : List (SystemEvent Text Unit) :=
  [.writer (.connect .same), .reader (initializeStream 1), .writer (.enqueue (.pong true) ("c", "s")), .writer .write]

def fromClient (event : ClientEvent Text) (seqId : Nat) : SystemEvent Text Unit :=
  .reader (.envelope ⟨event, "c", some "s", some seqId, none⟩ 100 0 [] allDelivered)

theorem acknowledged_stream_holds_nothing : ∃ s, run (systemStep textMessages shortLines) {}
      (openedStream ++ [fromClient (.ack none) 1] ++ [fromClient .clientClosed 2]) = some s ∧
    s.reader.isLive ("c", "s") = false ∧ s.writer.buffer.stream ("c", "s") = [] := by
  obtain ⟨s, hr, hd⟩ : ∃ s, run (systemStep textMessages shortLines) {}
      (openedStream ++ [fromClient (.ack none) 1] ++ [fromClient .clientClosed 2]) = some s ∧
      s.reader.isLive ("c", "s") = false := ⟨_, rfl, rfl⟩
  have ho : Avoids (systemStep textMessages shortLines) (Strands textMessages) {} [.writer (.connect .same)] :=
    avoids_concat avoids_nil rfl (id : Strands textMessages _ (.writer (.connect .same)) → False)
  have htw := avoids_concat ho rfl (show ¬ Strands textMessages _ (.reader (initializeStream 1)) from
    fun ⟨_, _, hne, _⟩ => hne rfl)
  have ht := avoids_concat htw rfl
    (show ¬ Strands textMessages _ (.writer (.enqueue (.pong true) ("c", "s"))) from by
      intro h
      exact absurd (show true = false from h) (by decide))
  have hf := avoids_concat ht rfl (show ¬ Strands textMessages _ (.writer .write) from id)
  have hfi := avoids_concat hf rfl (show ¬ Strands textMessages _ (fromClient (.ack none) 1) from by
    rintro ⟨_, _, _, _, ho, _, he | ⟨hi, _⟩⟩ <;> cases ho
    · cases he
    · cases hi)
  have hs := avoids_concat hfi rfl (show ¬ Strands textMessages _ (fromClient .clientClosed 2) from
    fun ⟨_, _, hne, _⟩ => hne rfl)
  exact ⟨s, hr, hd, (closed_streams_hold_nothing hr hs).1 _ hd⟩

theorem closed_stream_holds_capacity : ∃ s, run (systemStep textMessages shortLines) {}
      (openedStream ++ [fromClient .clientClosed 2]) = some s ∧
    s.reader.isLive ("c", "s") = false ∧ s.reader.tracker.clients.keys = [] ∧
    (s.writer.buffer.stream ("c", "s")).length = 1 ∧ s.writer.buffer.used = 1 :=
  ⟨_, rfl, rfl, rfl, rfl, rfl⟩

end Codex.RemoteControl
