import Codex.RemoteControl.Reader

/-! # What closes a connection, but for a task's end taken for that of a later connection of its stream -/

namespace Codex.RemoteControl

open Codex.Text Codex.Run ClientTracker List Option Prod

variable {M : Type} {crates : MessageCrates M} {t : ClientTracker} {r r' : Reader} {key : StreamKey} {id : Nat}
  {closed : Nat → Bool} {client : ClientState}

/-- The connection is the one of the stream. -/
def ClientTracker.Stored (t : ClientTracker) (key : StreamKey) (id : Nat) : Prop :=
  ∃ client, t.clients.get key = some client ∧ client.connectionId = id

/-- A close or a new `initialize` for its stream, its own expiry, the end of its own task, or the shutdown. -/
def Ends (crates : MessageCrates M) (r : Reader) (key : StreamKey) (id : Nat) : ReaderEvent M → Prop
  | .envelope envelope wireSizeBytes now fresh _ =>
    ∃ forwarded, (r.observeClientMessage crates envelope wireSizeBytes now).2 = .forward forwarded ∧
      (forwarded.event = .clientClosed ∨ isInitialize crates forwarded.event = true) ∧
      key = (forwarded.clientId, r.tracker.streamOf crates forwarded fresh)
  | .taskEnded other connectionId _ => other = key ∧ connectionId = id
  | .taskFailed _ _ => False
  | .sweep _ now _ => ∃ client, r.tracker.clients.get key = some client ∧ client.isAlive now = false
  | .shutdown _ _ => True

/-- An `initialize` opens its connection and cannot hand over its message. -/
def LosesInitialize (crates : MessageCrates M) (t : ClientTracker) (envelope : ClientEnvelope M) (fresh : Text)
    (delivery : Delivery) : Prop :=
  isInitialize crates envelope.event = true ∧ t.streamOf crates envelope fresh ≠ [] ∧
    (∀ client, t.clients.get (envelope.clientId, t.streamOf crates envelope fresh) = some client →
      delivery.closed client.connectionId = true) ∧
    delivery.opened = true ∧ delivery.incoming = false ∧ delivery.closed t.nextConnectionId = true

/-- The task of an earlier connection ends while its stream has a later one, or an `initialize` is lost. -/
def Misattributed (crates : MessageCrates M) (r : Reader) : ReaderEvent M → Prop
  | .taskEnded key connectionId closed => ∃ client, r.tracker.clients.get key = some client ∧
      connectionId < client.connectionId ∧ closed client.connectionId = true
  | .envelope envelope wireSizeBytes now fresh delivery =>
    ∃ forwarded, (r.observeClientMessage crates envelope wireSizeBytes now).2 = .forward forwarded ∧
      LosesInitialize crates r.tracker forwarded fresh delivery
  | _ => False

/-! ## The closes of one step -/

lemma get_removeClient (t : ClientTracker) (key other : StreamKey) :
    (t.removeClient key).clients.get other = if other = key then none else t.clients.get other :=
  HashMap.get_remove _ _ _

lemma get_closeClient (t : ClientTracker) (closed : Nat → Bool) (key other : StreamKey) :
    (t.closeClient closed key : Outcome M).tracker.clients.get other =
      if other = key then none else t.clients.get other := by
  unfold closeClient
  cases hg : t.clients.get key with
  | none => ?_
  | some client => exact get_removeClient t key other
  dsimp only
  split
  · rename_i h
    rw [h, hg]
  · rfl

lemma closed_closeClient : .connectionClosed id ∈ (t.closeClient closed key : Outcome M).events ↔
    t.Stored key id ∧ closed id := by
  unfold closeClient ClientTracker.Stored
  rcases hg : t.clients.get key with _ | client
  · simp
  dsimp only
  split
  · rename_i h
    simp only [mem_singleton, TransportEvent.connectionClosed.injEq, some.injEq, exists_eq_left']
    constructor
    · rintro rfl
      exact ⟨rfl, h⟩
    · exact fun heq => heq.1.symm
  rename_i h
  simp only [not_mem_nil, some.injEq, exists_eq_left', false_iff, not_and]
  rintro rfl
  exact h

lemma closed_closeClients {keys : List StreamKey}
    (h : .connectionClosed id ∈ (closeClients closed t keys : Outcome M).events) : ∃ key ∈ keys, t.Stored key id := by
  induction keys generalizing t with
  | nil => simp [closeClients] at h
  | cons key keys ih => ?_
  have hf : .connectionClosed id ∈ (t.closeClient closed key : Outcome M).events →
      ∃ other ∈ key :: keys, t.Stored other id := fun h => ⟨key, by simp, (closed_closeClient.mp h).1⟩
  simp only [closeClients] at h
  split at h
  · rcases mem_append.mp h with h | h
    · exact hf h
    obtain ⟨other, ho, client, hg, rfl⟩ := ih h
    rw [get_closeClient] at hg
    split at hg
    · simp at hg
    · exact ⟨other, mem_cons_of_mem _ ho, client, hg, rfl⟩
  · exact hf h

variable {now : Nat} {delivery : Delivery} {envelope : ClientEnvelope M} {fresh : Text}

variable {legacy : Bool} {message : M} {seqId : Option Nat}

lemma closed_openConnection :
    .connectionClosed id ∈ (t.openConnection key legacy message seqId now delivery).events ↔
      id = t.nextConnectionId ∧ delivery.opened ∧ delivery.incoming = false ∧ delivery.closed id := by
  unfold openConnection
  rcases ho : delivery.opened with _ | _
  · simp
  cases hi : delivery.incoming with
  | true => simp
  | false => ?_
  by_cases hc : delivery.closed t.nextConnectionId
  · simp only [Bool.not_true, if_false, hc, if_true, mem_cons, reduceCtorEq,
      TransportEvent.connectionClosed.injEq, not_mem_nil, or_false, false_or, true_and]
    constructor
    · rintro rfl
      exact ⟨rfl, hc⟩
    · exact And.left
  simp only [Bool.not_true, if_false, hc, mem_cons, reduceCtorEq, not_mem_nil, or_false, false_iff, true_and, not_and]
  rintro rfl
  exact hc

lemma nextConnectionId_closeClient (t : ClientTracker) (closed : Nat → Bool) (key : StreamKey) :
    (t.closeClient closed key : Outcome M).tracker.nextConnectionId = t.nextConnectionId := by
  unfold closeClient
  split <;> rfl

lemma ok_closeClient : (t.closeClient closed key : Outcome M).ok ↔
    ∀ client, t.clients.get key = some client → closed client.connectionId := by
  unfold closeClient
  cases hg : t.clients.get key <;> simp

lemma closed_reopen : .connectionClosed id ∈ (t.reopen key legacy message seqId now delivery).events ↔
      t.Stored key id ∧ delivery.closed id ∨
      id = t.nextConnectionId ∧ delivery.opened ∧ delivery.incoming = false ∧ delivery.closed id ∧
        ∀ client, t.clients.get key = some client → delivery.closed client.connectionId := by
  unfold reopen
  dsimp only
  split
  · rename_i hok
    rw [mem_append, closed_closeClient, closed_openConnection, nextConnectionId_closeClient]
    have hol := ok_closeClient.mp hok
    constructor
    · rintro (h | ⟨hid, ho, hi, hc⟩)
      · exact .inl h
      · exact .inr ⟨hid, ho, hi, hc, hol⟩
    rintro (h | ⟨hid, ho, hi, hc, -⟩)
    · exact .inl h
    · exact .inr ⟨hid, ho, hi, hc⟩
  rename_i hok
  rw [closed_closeClient]
  constructor
  · exact .inl
  rintro (h | ⟨-, -, -, -, hol⟩)
  · exact h
  · exact absurd (ok_closeClient.mpr hol) hok

lemma clients_takeLegacy (t : ClientTracker) (envelope : ClientEnvelope M) :
    (t.takeLegacy crates envelope).clients = t.clients ∧
      (t.takeLegacy crates envelope).nextConnectionId = t.nextConnectionId ∧
      (t.takeLegacy crates envelope).joinSet = t.joinSet := by
  unfold takeLegacy
  split <;> exact ⟨rfl, rfl, rfl⟩

lemma closed_handleMessage (h : .connectionClosed id ∈ (t.handleMessage crates envelope now fresh delivery).events) :
    t.Stored (envelope.clientId, t.streamOf crates envelope fresh) id ∧
        (envelope.event = .clientClosed ∨ isInitialize crates envelope.event) ∨
      LosesInitialize crates t envelope fresh delivery := by
  obtain ⟨hc, hn, -⟩ := @clients_takeLegacy M crates t envelope
  simp only [handleMessage] at h
  split at h
  · simp at h
  rename_i hstr
  split at h
  · rename_i he
    split at h
    · rename_i hsta
      have hst : isInitialize crates envelope.event := by
        rw [he]
        exact hsta
      rcases closed_reopen.mp h with ⟨hs, -⟩ | ⟨hid, ho, hi, hcl, hol⟩
      · left
        unfold ClientTracker.Stored at hs ⊢
        rw [hc] at hs
        exact ⟨hs, .inr hst⟩
      right
      rw [hc] at hol
      rw [hid, hn] at hcl
      exact ⟨hst, fun hni => hstr (by simp [hni]), hol, ho, hi, hcl⟩
    split at h
    · simp at h
    split at h
    · simp at h
    simp only [forward] at h
    split at h <;> simp at h
  · simp at h
  · simp at h
  · split at h <;> simp at h
  · rename_i he
    left
    have hs := (closed_closeClient.mp h).1
    unfold ClientTracker.Stored at hs ⊢
    rw [hc] at hs
    exact ⟨hs, .inl he⟩

lemma closed_of_losesInitialize (h : LosesInitialize crates t envelope fresh delivery) :
    .connectionClosed t.nextConnectionId ∈ (t.handleMessage crates envelope now fresh delivery).events := by
  obtain ⟨hs, hst, hol, ho, hi, hcl⟩ := h
  obtain ⟨hc, hnex, -⟩ := @clients_takeLegacy M crates t envelope
  have hn : ¬ (t.streamOf crates envelope fresh).isEmpty := by
    rw [List.isEmpty_iff]
    exact hst
  cases he : envelope.event with
  | clientMessage message => ?_
  | clientMessageChunk segmentId segmentCount messageSizeBytes chunk
  | ack segmentId | ping | clientClosed => simp [isInitialize, he] at hs
  have hsta : crates.startsConnection message := by
    rw [he] at hs
    exact hs
  simp only [handleMessage, hn, if_false, he, hsta, if_true, Bool.false_eq_true]
  rw [closed_reopen, hc, hnex]
  exact .inr ⟨rfl, ho, hi, hcl, hol⟩

lemma events_deliver :
    (r.deliver crates envelope messageKey now fresh delivery).2.events =
      (r.tracker.handleMessage crates envelope now fresh delivery).events := by
  unfold Reader.deliver
  dsimp only
  split <;> rfl

lemma closed_shutdown (h : .connectionClosed id ∈ (t.shutdown order closed : Outcome M).events) :
    ∃ key, t.Stored key id := by
  have hf : ∀ (keys : List StreamKey) (outcome : Outcome M),
      (∀ key client, outcome.tracker.clients.get key = some client → t.clients.get key = some client) →
      (.connectionClosed id ∈ outcome.events → ∃ key, t.Stored key id) →
      .connectionClosed id ∈ (keys.foldl (fun outcome key =>
        let next : Outcome M := outcome.tracker.closeClient closed key
        { tracker := next.tracker, events := outcome.events ++ next.events }) outcome).events →
      ∃ key, t.Stored key id := by
    intro keys
    induction keys with
    | nil => exact fun outcome _ he h => he h
    | cons key keys ih => ?_
    intro outcome hs he h
    apply ih _ ?_ ?_ h
    · intro other client hg
      rw [get_closeClient] at hg
      split at hg
      · simp at hg
      · exact hs other client hg
    · intro hm
      rcases mem_append.mp hm with hm | hm
      · exact he hm
      · obtain ⟨⟨client, hg, hid⟩, -⟩ := closed_closeClient.mp hm
        exact ⟨key, client, hs key client hg, hid⟩
  exact hf _ _ (fun _ _ h => h) (by simp) h

/-! ## Connections are numbered in the order in which they open -/

structure Counted (opened : Nat) (t : ClientTracker) : Prop where
  next : t.nextConnectionId ≤ opened
  stored : ∀ key id, t.Stored key id → id < t.nextConnectionId
  task : ∀ key id, (key, id) ∈ t.joinSet → id < t.nextConnectionId
  later : ∀ key id other, (key, id) ∈ t.joinSet → t.Stored key other → id ≤ other

structure Shrinks (t t' : ClientTracker) : Prop where
  stored : ∀ key id, t'.Stored key id → t.Stored key id
  task : t'.joinSet ⊆ t.joinSet
  next : t'.nextConnectionId = t.nextConnectionId

lemma Shrinks.refl (t : ClientTracker) : Shrinks t t := ⟨fun _ _ h => h, List.Subset.refl _, rfl⟩

lemma Shrinks.trans (h : Shrinks t₁ t₂) (h' : Shrinks t₂ t₃) : Shrinks t₁ t₃ :=
  ⟨fun key id hs => h.stored key id (h'.stored key id hs), fun _ hm => h.task (h'.task hm), h'.next.trans h.next⟩

lemma Counted.succ (h : Counted opened t) : Counted (opened + 1) t :=
  ⟨h.next.trans (Nat.le_succ _), h.stored, h.task, h.later⟩

lemma Counted.of_shrinks (h : Counted opened t) (hs : Shrinks t t') : Counted opened t' := by
  refine ⟨hs.next ▸ h.next, ?_, ?_, ?_⟩
  · intro key id hst
    rw [hs.next]
    exact h.stored key id (hs.stored key id hst)
  · intro key id ht
    rw [hs.next]
    exact h.task key id (hs.task ht)
  · intro key id other ht hst
    exact h.later key id other (hs.task ht) (hs.stored key other hst)

lemma shrinks_removeClient (t : ClientTracker) (key : StreamKey) : Shrinks t (t.removeClient key) := by
  refine ⟨?_, List.Subset.refl _, rfl⟩
  rintro _ _ ⟨client, hg, hid⟩
  rw [get_removeClient] at hg
  split at hg
  · simp at hg
  · exact ⟨client, hg, hid⟩

lemma shrinks_closeClient (t : ClientTracker) (closed : Nat → Bool) (key : StreamKey) :
    Shrinks t (t.closeClient closed key : Outcome M).tracker := by
  unfold closeClient
  split
  · exact Shrinks.refl t
  · exact shrinks_removeClient t key

lemma shrinks_closeClients (closed : Nat → Bool) (t : ClientTracker) (keys : List StreamKey) :
    Shrinks t (closeClients closed t keys : Outcome M).tracker := by
  induction keys generalizing t with
  | nil => exact Shrinks.refl t
  | cons key keys ih => ?_
  simp only [closeClients]
  split
  · exact (shrinks_closeClient t closed key).trans (ih _)
  · exact shrinks_closeClient t closed key

lemma shrinks_shutdown (t : ClientTracker) (order : Order) (closed : Nat → Bool) :
    Shrinks t (t.shutdown order closed : Outcome M).tracker := by
  have hf : ∀ (keys : List StreamKey) (outcome : Outcome M), Shrinks t outcome.tracker →
      Shrinks t (keys.foldl (fun outcome key =>
        let next : Outcome M := outcome.tracker.closeClient closed key
        { tracker := next.tracker, events := outcome.events ++ next.events }) outcome).tracker := by
    intro keys
    induction keys with
    | nil => exact fun outcome h => h
    | cons key keys ih => exact fun outcome h => ih _ (h.trans (shrinks_closeClient _ _ _))
  exact hf _ _ ⟨fun _ _ h => h, by simp, rfl⟩

lemma shrinks_insert (hg : t.clients.get key = some client)
    (hid : new.connectionId = client.connectionId) : Shrinks t { t with clients := t.clients.insert key new } := by
  refine ⟨?_, List.Subset.refl _, rfl⟩
  rintro other id ⟨found, hf, rfl⟩
  rw [HashMap.get_insert] at hf
  split at hf
  · rename_i hs
    obtain rfl : other = key := hs
    cases hf
    exact ⟨client, hg, hid.symm⟩
  · exact ⟨found, hf, rfl⟩

lemma shrinks_touch (now : Nat) (hg : t.clients.get key = some client) : Shrinks t (t.touch key client now) :=
  shrinks_insert hg rfl

lemma shrinks_record (t : ClientTracker) (key : StreamKey) (seqId : Option Nat) :
    Shrinks t (t.recordInboundMessageDelivery key seqId) := by
  unfold recordInboundMessageDelivery
  split
  · rename_i hg
    exact shrinks_insert hg rfl
  · exact Shrinks.refl t

lemma shrinks_takeLegacy (t : ClientTracker) (envelope : ClientEnvelope M) :
    Shrinks t (t.takeLegacy crates envelope) := by
  obtain ⟨hc, hn, hj⟩ := @clients_takeLegacy M crates t envelope
  refine ⟨?_, ?_, hn⟩
  · intro key id hs
    unfold ClientTracker.Stored at hs ⊢
    rwa [hc] at hs
  · rw [hj]
    exact List.Subset.refl _

lemma Counted.openConnection (h : Counted opened t) (key : StreamKey) (legacy : Bool) (message : M) (seqId : Option Nat)
    (now : Nat) (delivery : Delivery) :
    Counted (opened + 1) (t.openConnection key legacy message seqId now delivery).tracker := by
  have hn : ∀ legacyStreamIds, Counted (opened + 1) { t with nextConnectionId := t.nextConnectionId + 1, legacyStreamIds } := by
    intro legacyStreamIds
    refine ⟨Nat.succ_le_succ h.next, fun key id hs => ?_, fun key id ht => ?_, h.later⟩
    · exact Nat.lt_succ_of_lt (h.stored key id hs)
    · exact Nat.lt_succ_of_lt (h.task key id ht)
  have ho : ∀ legacyStreamIds, Counted (opened + 1) { t with
      nextConnectionId := t.nextConnectionId + 1, legacyStreamIds
      clients := t.clients.insert key ⟨t.nextConnectionId, now, none⟩
      joinSet := t.joinSet ++ [(key, t.nextConnectionId)] } := by
    intro legacyStreamIds
    have hc : ∀ other id, ClientTracker.Stored { t with
        nextConnectionId := t.nextConnectionId + 1, legacyStreamIds
        clients := t.clients.insert key ⟨t.nextConnectionId, now, none⟩
        joinSet := t.joinSet ++ [(key, t.nextConnectionId)] } other id →
        other = key ∧ id = t.nextConnectionId ∨ other ≠ key ∧ t.Stored other id := by
      rintro other id ⟨client, hg, rfl⟩
      rw [HashMap.get_insert] at hg
      split at hg
      · rename_i hsa
        cases hg
        exact .inl ⟨hsa, rfl⟩
      · rename_i hoth
        exact .inr ⟨hoth, client, hg, rfl⟩
    refine ⟨Nat.succ_le_succ h.next, ?_, ?_, ?_⟩
    · intro other id hs
      dsimp only
      rcases hc other id hs with ⟨-, rfl⟩ | ⟨-, hol⟩
      · omega
      · exact Nat.lt_succ_of_lt (h.stored other id hol)
    · intro other id ht
      dsimp only
      rcases mem_append.mp ht with hol | hnew
      · exact Nat.lt_succ_of_lt (h.task other id hol)
      · obtain ⟨-, rfl⟩ := Prod.mk.inj (mem_singleton.mp hnew)
        omega
    · intro other id stored ht hs
      rcases mem_append.mp ht with hol | hnew
      · rcases hc other stored hs with ⟨-, rfl⟩ | ⟨-, hs⟩
        · exact (h.task other id hol).le
        · exact h.later other id stored hol hs
      obtain ⟨rfl, rfl⟩ := Prod.mk.inj (mem_singleton.mp hnew)
      rcases hc other stored hs with ⟨-, rfl⟩ | ⟨hne, -⟩
      · exact le_refl _
      · cases hne rfl
  simp only [ClientTracker.openConnection]
  split
  · exact hn _
  split
  · split
    · exact ho _
    · exact (ho _).of_shrinks (shrinks_record _ _ _)
  · exact (ho _).of_shrinks (shrinks_removeClient _ _)

lemma Counted.handleMessage (h : Counted opened t) (envelope : ClientEnvelope M) (now : Nat) (fresh : Text)
    (delivery : Delivery) : Counted (opened + 1) (t.handleMessage crates envelope now fresh delivery).tracker := by
  have hl := h.of_shrinks (@shrinks_takeLegacy M crates t envelope)
  simp only [ClientTracker.handleMessage]
  split
  · exact hl.succ
  split
  · split
    · simp only [reopen]
      have hc := hl.of_shrinks (@shrinks_closeClient M (t.takeLegacy crates envelope) delivery.closed
        (envelope.clientId, t.streamOf crates envelope fresh))
      split
      · exact hc.openConnection _ _ _ _ _ _
      · exact hc.succ
    split
    · exact hl.succ
    rename_i hg
    split
    · exact hl.succ
    simp only [forward]
    have ht := hl.of_shrinks (shrinks_touch now hg)
    split
    · exact (ht.of_shrinks (shrinks_record _ _ _)).succ
    · exact ht.succ
  · exact hl.succ
  · exact hl.succ
  · split
    · rename_i hg
      exact (hl.of_shrinks (shrinks_touch now hg)).succ
    · exact hl.succ
  · exact (hl.of_shrinks (shrinks_closeClient _ _ _)).succ

lemma counted_receive (h : Counted opened r.tracker) :
    Counted (opened + 1) (r.receive crates envelope wireSizeBytes now fresh delivery).1.tracker := by
  have hf : ∀ (r : Reader) (envelope : ClientEnvelope M), (r.forgetClosed envelope).tracker = r.tracker := by
    intro r envelope
    unfold Reader.forgetClosed
    split
    · split <;> rfl
    · rfl
  simp only [Reader.receive]
  split
  · simp only [Reader.deliver]
    split
    · rw [hf]
      exact h.handleMessage _ _ _ _
    · exact h.handleMessage _ _ _ _
  · exact h.succ
  · exact h.succ

lemma tracker_invalidateStreams (keys : List StreamKey) (r : Reader) :
    (keys.foldl Reader.invalidateStream r).tracker = r.tracker := by
  induction keys generalizing r with
  | nil => rfl
  | cons key keys ih => exact ih _

lemma shrinks_joined (r : Reader) (key : StreamKey) (connectionId : Nat) :
    Shrinks r.tracker (r.joined key connectionId).tracker :=
  ⟨fun _ _ h => h, erase_subset, rfl⟩

lemma counted_step (h : Counted opened r.tracker) (hn : readerNext crates r event = some r') :
    Counted (opened + 1) r'.tracker := by
  obtain ⟨⟨_, _⟩, hs, rfl⟩ := map_eq_some_iff.mp hn
  cases event with
  | envelope envelope wireSizeBytes now fresh delivery =>
    have hn := congrArg fst (some.inj hs)
    rw [← hn]
    exact counted_receive h
  | taskEnded key connectionId closed =>
    simp only [readerStep, ite_none_right_eq_some, some.injEq] at hs
    have hc := (h.of_shrinks (shrinks_joined r key connectionId)).of_shrinks (@shrinks_closeClient M _ closed key)
    have hn := congrArg fst hs.2
    simp only [Reader.bookkeep] at hn
    rw [← hn]
    split <;> exact hc.succ
  | taskFailed key connectionId =>
    simp only [readerStep, ite_none_right_eq_some, some.injEq, Prod.mk.injEq] at hs
    rw [← hs.2.1]
    exact (h.of_shrinks (shrinks_joined r key connectionId)).succ
  | sweep order now closed => ?_
  | shutdown order closed =>
    have hn := congrArg fst (some.inj hs)
    rw [← hn]
    exact (h.of_shrinks (shrinks_shutdown _ _ _)).succ
  have hn := congrArg fst (some.inj hs)
  have hc := h.of_shrinks (@shrinks_closeClients M closed r.tracker (r.tracker.expired order now))
  simp only [Reader.sweep] at hn
  rw [← hn]
  split
  · rw [tracker_invalidateStreams]
    exact hc.succ
  · exact hc.succ

lemma counted_run (h : run (readerNext crates) {} events = some r) :
    Counted events.length r.tracker := by
  refine invariant (fun events r => Counted events.length r.tracker) ?_ (fun events event _ _ _ ho hs => ?_) h
  · refine ⟨le_rfl, ?_, by simp, by simp⟩
    rintro _ _ ⟨_, hg, -⟩
    simp [HashMap.get] at hg
  · rw [length_append]
    exact counted_step ho hs

/-- Every connection that is reported closed ends for a reason of its own, unless that is misattributed. -/
theorem closed_for_own_reason {events : List (ReaderEvent M)} {event : ReaderEvent M} {output : ReaderOutput M}
    (hrun : run (readerNext crates) {} events = some r) (hstep : readerStep crates r event = some (r', output)) :
    r.tracker.nextConnectionId ≤ events.length ∧
    ((∀ id, .connectionClosed id ∈ output.events → ∃ key, r.tracker.Stored key id ∧ Ends crates r key id event) ↔
      ¬ Misattributed crates r event) := by
  have hco := counted_run hrun
  refine ⟨hco.next, ?_⟩
  cases event with
  | envelope envelope wireSizeBytes now fresh delivery => ?_
  | taskEnded key connectionId closed =>
    simp only [readerStep, ite_none_right_eq_some, some.injEq] at hstep
    obtain ⟨ht, hn⟩ := hstep
    obtain rfl := congrArg snd hn
    constructor
    · rintro ha ⟨client, hg, hlt, hc⟩
      obtain ⟨-, -, -, rfl⟩ := ha client.connectionId (closed_closeClient.mpr ⟨⟨client, hg, rfl⟩, hc⟩)
      exact absurd hlt (Nat.lt_irrefl _)
    intro hm id hid
    obtain ⟨hs, hc⟩ := closed_closeClient.mp hid
    refine ⟨key, hs, rfl, ?_⟩
    have hle := hco.later key connectionId id ht hs
    obtain ⟨client, hg, rfl⟩ := hs
    by_contra hne
    exact hm ⟨client, hg, by omega, hc⟩
  | taskFailed key connectionId =>
    simp only [readerStep, ite_none_right_eq_some, some.injEq] at hstep
    obtain ⟨-, -, rfl⟩ := hstep
    simp [Misattributed]
  | sweep order now closed =>
    obtain rfl := congrArg snd (some.inj hstep)
    simp only [Misattributed, not_false_eq_true, iff_true]
    intro id hid
    obtain ⟨key, hk, hs⟩ := closed_closeClients hid
    refine ⟨key, hs, ?_⟩
    obtain ⟨entry, hen, rfl⟩ := mem_map.mp hk
    obtain ⟨hin, he⟩ := mem_filter.mp hen
    rw [Order.mem_visit] at hin
    exact ⟨entry.2, HashMap.get_eq_some_iff.mpr ⟨entry, hin, rfl, rfl⟩, by simpa using he⟩
  | shutdown order closed =>
    obtain rfl := congrArg snd (some.inj hstep)
    simp only [Misattributed, Ends, not_false_eq_true, iff_true, and_true]
    intro id hid
    exact closed_shutdown hid
  obtain rfl := congrArg snd (some.inj hstep)
  simp only [Reader.receive, Misattributed, Ends]
  cases ho : (r.observeClientMessage crates envelope wireSizeBytes now).2 with
  | forward forwarded => ?_
  | pending | dropped => simp
  simp only [events_deliver, Observation.forward.injEq, exists_eq_left']
  constructor
  · intro ha hl
    obtain ⟨key, hs, -⟩ := ha _ (closed_of_losesInitialize hl)
    exact absurd (hco.stored key _ hs) (Nat.lt_irrefl _)
  intro hl id hid
  rcases closed_handleMessage hid with ⟨hs, hr⟩ | hlo
  · exact ⟨_, hs, hr, rfl⟩
  · exact absurd hlo hl

/-! ## A client that initialises its stream again -/

def textMessages : MessageCrates Text where
  decode chunk := some (chunk.map fun c => UInt8.ofNat c.toNat)
  fromSlice raw := some (raw.map fun b => Char.ofNat b.toNat)
  startsConnection message := message = "initialize"
  order _ := .same

def allDelivered : Delivery := ⟨fun _ => true, true, true⟩

def initializeStream (seqId : Nat) : ReaderEvent Text :=
  .envelope ⟨.clientMessage "initialize", "c", some "s", some seqId, none⟩ 100 0 [] allDelivered

theorem successor_closed : ∃ r r' output,
    run (readerNext textMessages) {} [initializeStream 1, initializeStream 2] = some r ∧
    r.tracker.Stored ("c", "s") 1 ∧
    readerStep textMessages r (.taskEnded ("c", "s") 0 fun _ => true) = some (r', output) ∧
    .connectionClosed 1 ∈ output.events ∧
    ¬ ∃ key, r.tracker.Stored key 1 ∧
      Ends textMessages r key 1 (.taskEnded ("c", "s") 0 fun _ => true) := by
  refine ⟨_, _, _, rfl, ⟨_, rfl, rfl⟩, rfl, mem_singleton.mpr rfl, ?_⟩
  rintro ⟨key, -, -, hz⟩
  cases hz

theorem second_connection_closed_by_own_end : ∃ r r' output,
    run (readerNext textMessages) {} [initializeStream 1, initializeStream 2] = some r ∧
    readerStep textMessages r (.taskEnded ("c", "s") 1 fun _ => true) = some (r', output) ∧
    .connectionClosed 1 ∈ output.events ∧ ∃ key, r.tracker.Stored key 1 ∧
      Ends textMessages r key 1 (.taskEnded ("c", "s") 1 fun _ => true) := by
  obtain ⟨r, r', output, hr, hst, hs, hc⟩ : ∃ r r' output,
      run (readerNext textMessages) {} [initializeStream 1, initializeStream 2] = some r ∧
      r.tracker.clients.get ("c", "s") = some ⟨1, 0, some 2⟩ ∧
      readerStep textMessages r (.taskEnded ("c", "s") 1 fun _ => true) = some (r', output) ∧
      .connectionClosed 1 ∈ output.events := ⟨_, _, _, rfl, rfl, rfl, mem_singleton.mpr rfl⟩
  refine ⟨r, r', output, hr, hs, hc, (closed_for_own_reason hr hs).2.mpr ?_ 1 hc⟩
  rintro ⟨_, hg, hlt, -⟩
  rw [hst] at hg
  cases hg
  exact absurd hlt (by decide)

end Codex.RemoteControl
