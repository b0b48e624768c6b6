import Codex.Relay.Multiplex

/-! # An active stream comes from a handshake whose own validation succeeded while nothing cancelled it -/

namespace Codex.Relay

open Codex.Text Codex.Run List Option

variable {H : Type} {noise : NoiseCrates H} {s s' : Environment H} {streamId : Text} {events : List RelayEvent}
  {event : RelayEvent}

def Interferes (streamId : Text) : RelayEvent → Prop
  | .frame id (.handshake _) _ => id = streamId
  | .frame id (.data _) _ => id = streamId
  | .frame id .reset _ => id = streamId
  | _ => False

/-- What cancels a handshake of the stream: data, a reset, or another handshake unless handshakes are paused. -/
def Cancels (streamId : Text) (s : Environment H) : RelayEvent → Prop
  | .frame id (.handshake _) now => id = streamId ∧ coolingDown s now = false
  | .frame id (.data _) _ => id = streamId
  | .frame id .reset _ => id = streamId
  | _ => False

/-- The stream's handshake was admitted for validation, nothing cancelled it, and its validation succeeded. -/
def Authorised (noise : NoiseCrates H) (events : List RelayEvent) (streamId : Text) (stream : NoiseVirtualStream H) :
    Prop :=
  ∃ before request now during task now' after s₁ s₂ s₃,
    events = before ++ .frame streamId (.handshake (some request)) now ::
      (during ++ .validated task true now' true :: after) ∧
    run (relayStep noise) (.start H) before = some s₁ ∧
    relayStep noise s₁ (.frame streamId (.handshake (some request)) now) = some s₂ ∧
    noise.readRequest streamId request = some stream.handshake ∧
    s₂.pendingHandshakes.get streamId =
      some { validationId := stream.instanceId, handshake := stream.handshake } ∧
    run (relayStep noise) s₂ during = some s₃ ∧
    Avoids (relayStep noise) (Cancels streamId) s₂ during ∧
    s₃.validationTasks[task]? =
      some { streamId, validationId := stream.instanceId, handshake := stream.handshake }

def Admitted (noise : NoiseCrates H) (events : List RelayEvent) (s : Environment H) (streamId : Text)
    (pending : PendingHandshake H) : Prop :=
  ∃ before request now during s₁ s₂, events = before ++ .frame streamId (.handshake (some request)) now :: during ∧
    run (relayStep noise) (.start H) before = some s₁ ∧
    relayStep noise s₁ (.frame streamId (.handshake (some request)) now) = some s₂ ∧
    noise.readRequest streamId request = some pending.handshake ∧
    s₂.pendingHandshakes.get streamId = some pending ∧
    run (relayStep noise) s₂ during = some s ∧ Avoids (relayStep noise) (Cancels streamId) s₂ during

structure Guarded (noise : NoiseCrates H) (events : List RelayEvent) (s : Environment H) : Prop where
  disjoint : ∀ id, s.pendingHandshakes.get id ≠ none → s.streams.get id = none
  active : s.streams.entries.length ≤ maxActiveNoiseRelayStreams
  validations : s.validationTasks.length ≤ maxPendingHandshakeValidations
  counted : s.nextValidationId ≤ events.length
  pendingId : ∀ id pending, s.pendingHandshakes.get id = some pending → pending.validationId < s.nextValidationId
  taskId : ∀ task ∈ s.validationTasks, task.validationId < s.nextValidationId
  same : ∀ id pending, s.pendingHandshakes.get id = some pending → ∀ task ∈ s.validationTasks,
    task.validationId = pending.validationId → task.streamId = id ∧ task.handshake = pending.handshake
  admitted : ∀ id pending, s.pendingHandshakes.get id = some pending → Admitted noise events s id pending
  authorised : ∀ id stream, s.streams.get id = some stream → Authorised noise events id stream

lemma Authorised.concat {stream : NoiseVirtualStream H} (h : Authorised noise events streamId stream) :
    Authorised noise (events ++ [event]) streamId stream := by
  obtain ⟨pre, request, now, during, task, now', after, s₁, s₂, s₃, rfl, hr⟩ := h
  refine ⟨pre, request, now, during, task, now', after ++ [event], s₁, s₂, s₃, ?_, hr⟩
  simp

lemma Admitted.concat {pending : PendingHandshake H} (h : Admitted noise events s streamId pending)
    (hs : relayStep noise s event = some s') (hc : ¬ Cancels streamId s event) :
    Admitted noise (events ++ [event]) s' streamId pending := by
  obtain ⟨pre, request, now, during, s₁, s₂, rfl, hb, had, hr, hp, hd, ha⟩ := h
  refine ⟨pre, request, now, during ++ [event], s₁, s₂, by simp, hb, had, hr, hp, ?_, ?_⟩
  · exact run_concat.mpr ⟨s, hd, hs⟩
  · exact avoids_concat ha hd hc

lemma pending_of_cancels (hd : s.pendingHandshakes.get streamId ≠ none → s.streams.get streamId = none)
    (hp : s.pendingHandshakes.get streamId ≠ none) (hs : relayStep noise s event = some s')
    (h : Cancels streamId s event) : s'.pendingHandshakes.get streamId = none := by
  have hr : (s.pendingHandshakes.remove streamId).get streamId = none := by
    rw [HashMap.get_remove, if_pos rfl]
  have hc : s.pendingHandshakes.contains streamId := by
    unfold HashMap.contains
    exact isSome_iff_ne_none.mpr hp
  have hi : s.streams.contains streamId = false := by
    unfold HashMap.contains
    rw [hd hp]
    rfl
  unfold Cancels at h
  split at h
  · obtain ⟨rfl, hcoo⟩ := h
    cases hs
    unfold handleHandshake
    rw [if_neg (by simp [hcoo])]
    by_cases hco : s.handshakeCooldownUntil.isSome
    · simp only [hco, if_true, hi, hc]
      exact hr
    simp only [hco, Bool.false_eq_true, if_false, hi, hc, if_true, recordFailedHandshake_pendingHandshakes]
    exact hr
  · obtain rfl := h
    cases hs
    unfold handleData
    simp only [hi, hc, Bool.false_eq_true, if_false, if_true, recordFailedHandshake_pendingHandshakes]
    exact hr
  · obtain rfl := h
    cases hs
    exact hr
  · exact h.elim

lemma guarded_start : Guarded noise [] (.start H) where
  disjoint _ _ := rfl
  active := Nat.zero_le _
  validations := Nat.zero_le _
  counted := Nat.zero_le _
  pendingId _ _ h := absurd h (by simp [Environment.start, HashMap.get])
  taskId _ h := absurd h (by simp [Environment.start])
  same _ _ h := absurd h (by simp [Environment.start, HashMap.get])
  admitted _ _ h := absurd h (by simp [Environment.start, HashMap.get])
  authorised _ _ h := absurd h (by simp [Environment.start, HashMap.get])

lemma Guarded.drops (h : Guarded noise events s) (hst : relayStep noise s event = some s') (hd : Drops s s') :
    Guarded noise (events ++ [event]) s' where
  disjoint id hp := by
    obtain ⟨pending, hso⟩ := ne_none_iff_exists'.mp hp
    have hn := h.disjoint id (by rw [hd.pending id pending hso]; simp)
    rcases hs : s'.streams.get id with _ | stream
    · rfl
    rw [hd.streams id stream hs] at hn
    simp at hn
  active := hd.active.trans h.active
  validations := hd.tasks.length_le.trans h.validations
  counted := by
    rw [hd.next]
    exact h.counted.trans (by simp)
  pendingId id pending hp := by
    rw [hd.next]
    exact h.pendingId id pending (hd.pending id pending hp)
  taskId task ht := by
    rw [hd.next]
    exact h.taskId task (hd.tasks.subset ht)
  same id pending hp task ht :=
    h.same id pending (hd.pending id pending hp) task (hd.tasks.subset ht)
  admitted id pending hp := by
    have hb := hd.pending id pending hp
    refine (h.admitted id pending hb).concat hst fun hc => ?_
    have hn := pending_of_cancels (h.disjoint id) (by rw [hb]; simp) hst hc
    rw [hn] at hp
    simp at hp
  authorised id stream hs := (h.authorised id stream (hd.streams id stream hs)).concat

lemma Guarded.activates (h : Guarded noise events s)
    (hst : relayStep noise s (.validated task true now true) = some s') (hf : s.validationTasks[task]? = some found)
    (hp : s.pendingHandshakes.get found.streamId = some pending) (hid : pending.validationId = found.validationId)
    (hr : s.streams.entries.length < maxActiveNoiseRelayStreams)
    (hs' : s'.streams = s.streams.insert found.streamId
      { instanceId := found.validationId, handshake := pending.handshake })
    (hrem : s'.pendingHandshakes = s.pendingHandshakes.remove found.streamId)
    (hta : s'.validationTasks = s.validationTasks.eraseIdx task) (hn : s'.nextValidationId = s.nextValidationId) :
    Guarded noise (events ++ [.validated task true now true]) s' := by
  have hk : ∀ id other, s'.pendingHandshakes.get id = some other →
      id ≠ found.streamId ∧ s.pendingHandshakes.get id = some other := by
    intro id other hs
    rw [hrem] at hs
    exact get_of_get_remove hs
  have hsu : s'.validationTasks.Sublist s.validationTasks := hta ▸ eraseIdx_sublist _ _
  refine ⟨?_, ?_, hsu.length_le.trans h.validations, ?_, ?_, ?_, ?_, ?_, ?_⟩
  · intro id hs
    obtain ⟨other, hs⟩ := ne_none_iff_exists'.mp hs
    obtain ⟨hne, hb⟩ := hk id other hs
    rw [hs', HashMap.get_insert, if_neg hne]
    exact h.disjoint id (by rw [hb]; simp)
  · rw [hs']
    exact (HashMap.length_insert_le _ _ _).trans hr
  · rw [hn]
    exact h.counted.trans (by simp)
  · intro id other hs
    rw [hn]
    exact h.pendingId id other (hk id other hs).2
  · intro other ho
    rw [hn]
    exact h.taskId other (hsu.subset ho)
  · intro id other hs task' ht'
    exact h.same id other (hk id other hs).2 task' (hsu.subset ht')
  · intro id other hs
    exact (h.admitted id other (hk id other hs).2).concat hst fun hc => hc
  intro id stream hs
  rw [hs', HashMap.get_insert] at hs
  split at hs
  · rename_i heq
    obtain rfl : id = found.streamId := heq
    cases hs
    obtain ⟨pre, request, now', during, s₁, s₂, rfl, hb, hadm, hre, ha, hd, hav⟩ := h.admitted _ _ hp
    refine ⟨pre, request, now', during, task, now, [], s₁, s₂, s, by simp, hb, hadm, hre, ?_, hd, hav, ?_⟩
    · rw [ha, ← hid]
    · rw [hf, ← (h.same _ _ hp found (mem_of_getElem? hf) hid.symm).2]
  · exact (h.authorised id stream hs).concat

lemma Guarded.admits (h : Guarded noise events s) (hru : run (relayStep noise) (.start H) events = some s)
    (hst : relayStep noise s (.frame streamId (.handshake (some request)) now) = some s')
    (hno : s.streams.get streamId = none) (hr : s.validationTasks.length < maxPendingHandshakeValidations)
    (hre : noise.readRequest streamId request = some handshake) (hs' : s'.streams = s.streams)
    (had : s'.pendingHandshakes =
      s.pendingHandshakes.insert streamId { validationId := s.nextValidationId, handshake })
    (hta : s'.validationTasks =
      s.validationTasks ++ [{ streamId, validationId := s.nextValidationId, handshake }])
    (hn : s'.nextValidationId = s.nextValidationId + 1) :
    Guarded noise (events ++ [.frame streamId (.handshake (some request)) now]) s' := by
  -- A handshake that was pending before has another stream and an older id.
  have hol : ∀ id pending, s'.pendingHandshakes.get id = some pending →
      (id = streamId ∧ pending = { validationId := s.nextValidationId, handshake }) ∨
        (id ≠ streamId ∧ s.pendingHandshakes.get id = some pending) := by
    intro id pending hs
    rw [had, HashMap.get_insert] at hs
    split at hs
    · rename_i heq
      exact .inl ⟨heq, (some.inj hs).symm⟩
    · rename_i hne
      exact .inr ⟨hne, hs⟩
  refine ⟨?_, ?_, ?_, ?_, ?_, ?_, ?_, ?_, ?_⟩
  · intro id hs
    obtain ⟨pending, hs⟩ := ne_none_iff_exists'.mp hs
    rw [hs']
    rcases hol id pending hs with ⟨rfl, -⟩ | ⟨-, hb⟩
    · exact hno
    · exact h.disjoint id (by rw [hb]; simp)
  · rw [hs']
    exact h.active
  · rw [hta, length_append]
    exact hr
  · rw [hn, length_append]
    exact Nat.succ_le_succ h.counted
  · intro id pending hs
    rw [hn]
    rcases hol id pending hs with ⟨-, rfl⟩ | ⟨-, hb⟩
    · exact Nat.lt_succ_self _
    · exact (h.pendingId id pending hb).trans (Nat.lt_succ_self _)
  · intro task ht
    rw [hn]
    rw [hta, mem_append, mem_singleton] at ht
    rcases ht with hin | rfl
    · exact (h.taskId task hin).trans (Nat.lt_succ_self _)
    · exact Nat.lt_succ_self _
  · intro id pending hs task ht hid
    rw [hta, mem_append, mem_singleton] at ht
    rcases hol id pending hs with ⟨rfl, rfl⟩ | ⟨-, hb⟩
    · rcases ht with hin | rfl
      · have := h.taskId task hin
        simp only at hid
        omega
      · exact ⟨rfl, rfl⟩
    rcases ht with hin | rfl
    · exact h.same id pending hb task hin hid
    have := h.pendingId id pending hb
    simp only at hid
    omega
  · intro id pending hs
    rcases hol id pending hs with ⟨rfl, rfl⟩ | ⟨hne, hb⟩
    · exact ⟨events, request, now, [], s, s', rfl, hru, hst, hre, hs, rfl, avoids_nil⟩
    · exact (h.admitted id pending hb).concat hst fun hc => hne hc.1.symm
  · intro id stream hs
    rw [hs'] at hs
    exact (h.authorised id stream hs).concat

lemma Guarded.step (h : Guarded noise events s) (hru : run (relayStep noise) (.start H) events = some s)
    (hst : relayStep noise s event = some s') : Guarded noise (events ++ [event]) s' := by
  cases relayStep_turn hst with
  | drops hdr => exact h.drops hst hdr
  | admits hno hp hr hre hs' had hta hn => exact h.admits hru hst hno hr hre hs' had hta hn
  | activates hf hp hid hr hs' hrem hta hn => exact h.activates hst hf hp hid hr hs' hrem hta hn

/-- **Only authorised handshakes become streams**, in every run of the loop. -/
theorem streams_are_authorised (noise : NoiseCrates H) (events : List RelayEvent) (s : Environment H)
    (h : run (relayStep noise) (.start H) events = some s) :
    (∀ id stream, s.streams.get id = some stream → Authorised noise events id stream) ∧
    (∀ id, ¬ (s.pendingHandshakes.contains id = true ∧ s.streams.contains id = true)) ∧
    s.streams.entries.length ≤ 128 ∧ s.validationTasks.length ≤ 32 ∧ s.nextValidationId ≤ events.length ∧
    ∀ closed instanceId s', relayStep noise s (.closedStream closed instanceId) = some s' →
      ∀ id, s'.streams.get id ≠ s.streams.get id →
        id = closed ∧ ∃ stream, s.streams.get closed = some stream ∧ stream.instanceId = instanceId := by
  have hg := invariant (Guarded noise) guarded_start (fun _ _ _ _ hr hg hst => hg.step hr hst) h
  refine ⟨hg.authorised, fun id hb => ?_, hg.active, hg.validations, hg.counted, ?_⟩
  · unfold HashMap.contains at hb
    rw [hg.disjoint id (isSome_iff_ne_none.mp hb.1)] at hb
    exact absurd hb.2 (by simp)
  intro closed instanceId s' hst id hc
  cases hst
  unfold handleClosedStream at hc
  split at hc
  · rename_i hcu
    rcases hs : s.streams.get closed with _ | stream
    · exact absurd (hs ▸ hcu) (by simp)
    rw [hs] at hcu
    refine ⟨?_, stream, rfl, of_decide_eq_true hcu⟩
    by_contra hne
    refine hc ?_
    show (s.streams.remove closed).get id = _
    rw [HashMap.get_remove, if_neg hne]
  · cases hc rfl

/-! ### A handshake while handshakes are paused -/

def byteNoise : NoiseCrates UInt8 where
  readRequest _ request := if request.length = 1 then request.head? else none
  payload _ := []
  completes _ := true

def firstHandshake : RelayEvent := .frame "a".toList (.handshake (some [7])) 0

def secondHandshake : RelayEvent := .frame "a".toList (.handshake (some [8])) 1

def unreadableHandshakes : List RelayEvent := replicate 8 (.frame "b".toList (.handshake (some [])) 0)

def pausedRun : List RelayEvent :=
  firstHandshake :: (unreadableHandshakes ++ [secondHandshake] ++ [.validated 0 true 2 true])

set_option maxRecDepth 4000 in
/-- The stream is there although a second handshake came between the first one and its validation. -/
theorem paused_handshake_keeps_pending : ∃ s stream, run (relayStep byteNoise) (.start UInt8) pausedRun = some s ∧
    s.streams.get "a".toList = some stream ∧ ∀ before request now during task now' after,
      pausedRun = before ++ .frame "a".toList (.handshake (some request)) now ::
        (during ++ .validated task true now' true :: after) →
      byteNoise.readRequest "a".toList request = some stream.handshake →
        ∃ event ∈ during, Interferes "a".toList event := by
  refine ⟨_, ⟨0, 7⟩, rfl, rfl, fun before request now during task now' after heq hr => ?_⟩
  have hreq : request = [7] := by
    rcases request with _ | ⟨byte, _ | ⟨_, _⟩⟩ <;> simp_all [byteNoise]
  rcases before with _ | ⟨x, before⟩
  · obtain ⟨-, htail⟩ := cons.inj heq
    rcases eq_nil_or_concat' after with rfl | ⟨after, z, rfl⟩
    · obtain ⟨rfl, -⟩ := append_inj' htail rfl
      exact ⟨secondHandshake, by simp, rfl⟩
    · rw [← cons_append, ← append_assoc] at htail
      obtain ⟨hl, -⟩ := append_inj' htail rfl
      have hin : RelayEvent.validated task true now' true ∈ unreadableHandshakes ++ [secondHandshake] := by simp [hl]
      simp [unreadableHandshakes, secondHandshake] at hin
  · have hin : RelayEvent.frame "a".toList (.handshake (some request)) now ∈ pausedRun.tail := by
      rw [heq]
      simp
    simp [pausedRun, unreadableHandshakes, secondHandshake, hreq] at hin

theorem validated_stream_authorised :
    ∃ s stream, run (relayStep byteNoise) (.start UInt8) [firstHandshake, .validated 0 true 2 true] = some s ∧
      s.streams.get "a".toList = some stream ∧
      Authorised byteNoise [firstHandshake, .validated 0 true 2 true] "a".toList stream := by
  refine ⟨_, ⟨0, 7⟩, rfl, rfl, ?_⟩
  exact (streams_are_authorised byteNoise _ _ rfl).1 "a".toList ⟨0, 7⟩ rfl

end Codex.Relay
