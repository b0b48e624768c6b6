import Codex.HashMap
import Codex.Run
import Codex.Relay.MessageFraming

/-!
# Handshakes and streams of one relay connection

The loop of `run_multiplexed_environment` of `exec-server/src/relay.rs`. What the peer, the validators and the
channels answer is part of the event. Diagnostics are left out.
-/

namespace Codex.Relay

open Codex.Text List

def maxActiveNoiseRelayStreams : Nat := 128
def maxFailedNoiseHandshakes : Nat := 8
def noiseHandshakeFailureCooldown : Nat := 10
def maxHarnessKeyAuthorizationBytes : Nat := 4096
def maxPendingHandshakeValidations : Nat := 32

/-- What is read from a handshake request, and whether the responder can complete it. -/
structure NoiseCrates (H : Type) where
  readRequest : Text → Bytes → Option H
  payload : H → Bytes
  completes : H → Bool

structure PendingHandshake (H : Type) where
  validationId : Nat
  handshake : H

structure ValidationTask (H : Type) where
  streamId : Text
  validationId : Nat
  handshake : H

structure NoiseVirtualStream (H : Type) where
  instanceId : Nat
  handshake : H

abbrev StreamMap (V : Type) := HashMap (fun streamId : Text => streamId) V

structure Environment (H : Type) where
  streams : StreamMap (NoiseVirtualStream H)
  pendingHandshakes : StreamMap (PendingHandshake H)
  validationTasks : List (ValidationTask H)
  failedHandshakes : Nat
  handshakeCooldownUntil : Option Nat
  /-- A `u64`, which a run of fewer than 2 ^ 64 events does not exhaust. -/
  nextValidationId : Nat
  resets : List Text

def Environment.start (H : Type) : Environment H where
  streams := ⟨[], nodup_nil⟩
  pendingHandshakes := ⟨[], nodup_nil⟩
  validationTasks := []
  failedHandshakes := 0
  handshakeCooldownUntil := none
  nextValidationId := 0
  resets := []

inductive RelayFrameBody where
  | handshake (payload : Option Bytes)
  /-- Whether the frame holds data and the stream takes it. -/
  | data (received : Bool)
  | reset
  | ack
  | resume
  | heartbeat
deriving DecidableEq

inductive RelayEvent where
  | writerExited
  | closedStream (streamId : Text) (instanceId : Nat)
  /-- The validation at this place ends, and the reply to a handshake is or is not queued. -/
  | validated (task : Nat) (authorized : Bool) (now : Nat) (queued : Bool)
  | validatorPanicked (task : Nat)
  /-- A frame that passed its own validation. -/
  | frame (streamId : Text) (body : RelayFrameBody) (now : Nat)
  | ignoredMessage
  | websocketClosed
deriving DecidableEq

section Step

variable {H : Type} (noise : NoiseCrates H) (s : Environment H)

def isUtf8 (bytes : Bytes) : Bool := (String.fromUTF8? ⟨bytes.toArray⟩).isSome

def sendReset (streamId : Text) : Environment H := { s with resets := s.resets ++ [streamId] }

def recordFailedHandshake (now : Nat) : Environment H :=
  if s.handshakeCooldownUntil.isSome then s
  else
    let failedHandshakes := s.failedHandshakes + 1
    if failedHandshakes ≥ maxFailedNoiseHandshakes then
      { s with failedHandshakes, handshakeCooldownUntil := some (now + noiseHandshakeFailureCooldown) }
    else { s with failedHandshakes }

def coolingDown (now : Nat) : Bool := s.handshakeCooldownUntil.any (now < ·)

def handleHandshake (streamId : Text) (payload : Option Bytes) (now : Nat) : Environment H :=
  if coolingDown s now then sendReset s streamId
  else
    let s := if s.handshakeCooldownUntil.isSome then
      { s with failedHandshakes := 0, handshakeCooldownUntil := none } else s
    if s.streams.contains streamId then sendReset s streamId
    else if s.pendingHandshakes.contains streamId then
      recordFailedHandshake (sendReset { s with pendingHandshakes := s.pendingHandshakes.remove streamId } streamId) now
    else if s.streams.entries.length ≥ maxActiveNoiseRelayStreams then sendReset s streamId
    else if s.validationTasks.length ≥ maxPendingHandshakeValidations then sendReset s streamId
    else match payload with
      | none => sendReset s streamId
      | some request =>
        match noise.readRequest streamId request with
        | none => recordFailedHandshake (sendReset s streamId) now
        | some handshake =>
          if isUtf8 (noise.payload handshake) && (noise.payload handshake).length ≤ maxHarnessKeyAuthorizationBytes then
            let validationId := s.nextValidationId
            { s with
              nextValidationId := s.nextValidationId + 1
              pendingHandshakes := s.pendingHandshakes.insert streamId { validationId, handshake }
              validationTasks := s.validationTasks ++ [{ streamId, validationId, handshake }] }
          else recordFailedHandshake (sendReset s streamId) now

def handleData (streamId : Text) (received : Bool) (now : Nat) : Environment H :=
  if s.streams.contains streamId then
    if received then s else sendReset { s with streams := s.streams.remove streamId } streamId
  else if s.pendingHandshakes.contains streamId then
    recordFailedHandshake (sendReset { s with pendingHandshakes := s.pendingHandshakes.remove streamId } streamId) now
  else sendReset s streamId

def handleReset (streamId : Text) : Environment H :=
  { s with pendingHandshakes := s.pendingHandshakes.remove streamId, streams := s.streams.remove streamId }

def handleClosedStream (streamId : Text) (instanceId : Nat) : Environment H :=
  if (s.streams.get streamId).any (·.instanceId = instanceId) then
    sendReset { s with streams := s.streams.remove streamId } streamId
  else s

/-- The result of a validation; `none` where the reply cannot be queued and the loop ends. -/
def handleValidation (task : ValidationTask H) (authorized : Bool) (now : Nat) (queued : Bool) :
    Option (Environment H) :=
  match s.pendingHandshakes.get task.streamId with
  | none => some s
  | some pending =>
    if pending.validationId ≠ task.validationId then some s
    else
      let s := { s with pendingHandshakes := s.pendingHandshakes.remove task.streamId }
      if !authorized then some (recordFailedHandshake (sendReset s task.streamId) now)
      else if s.streams.entries.length ≥ maxActiveNoiseRelayStreams then some (sendReset s task.streamId)
      else if !noise.completes pending.handshake then
        some (recordFailedHandshake (sendReset s task.streamId) now)
      else if !queued then none
      else some { s with
        streams := s.streams.insert task.streamId
          { instanceId := task.validationId, handshake := pending.handshake } }

/-- One turn of the loop; `none` where it ends. A validation that does not run cannot end. -/
def relayStep : RelayEvent → Option (Environment H)
  | .writerExited => none
  | .websocketClosed => none
  | .ignoredMessage => some s
  | .closedStream streamId instanceId => some (handleClosedStream s streamId instanceId)
  | .validated task authorized now queued =>
    match s.validationTasks[task]? with
    | none => some s
    | some found =>
      handleValidation noise { s with validationTasks := s.validationTasks.eraseIdx task } found authorized now queued
  | .validatorPanicked task =>
    match s.validationTasks[task]? with
    | none => some s
    | some _ => some { s with
        validationTasks := s.validationTasks.eraseIdx task
        pendingHandshakes := ⟨[], nodup_nil⟩
        resets := s.resets ++ s.pendingHandshakes.keys }
  | .frame streamId (.handshake payload) now => some (handleHandshake noise s streamId payload now)
  | .frame streamId (.data received) now => some (handleData s streamId received now)
  | .frame streamId .reset _ => some (handleReset s streamId)
  | .frame _ .ack _ => some s
  | .frame _ .resume _ => some s
  | .frame _ .heartbeat _ => some s

end Step

/-! ## What a turn does -/

section Turns

variable {H : Type} {noise : NoiseCrates H} {s s' : Environment H} {streamId : Text} {now : Nat}

lemma recordFailedHandshake_frame : (recordFailedHandshake s now).streams = s.streams ∧
    (recordFailedHandshake s now).pendingHandshakes = s.pendingHandshakes ∧
    (recordFailedHandshake s now).validationTasks = s.validationTasks ∧
    (recordFailedHandshake s now).nextValidationId = s.nextValidationId := by
  unfold recordFailedHandshake
  split
  · exact ⟨rfl, rfl, rfl, rfl⟩
  · simp only
    split <;> exact ⟨rfl, rfl, rfl, rfl⟩

@[simp] lemma recordFailedHandshake_streams : (recordFailedHandshake s now).streams = s.streams :=
  recordFailedHandshake_frame.1

@[simp] lemma recordFailedHandshake_pendingHandshakes :
    (recordFailedHandshake s now).pendingHandshakes = s.pendingHandshakes :=
  recordFailedHandshake_frame.2.1

@[simp] lemma recordFailedHandshake_validationTasks :
    (recordFailedHandshake s now).validationTasks = s.validationTasks :=
  recordFailedHandshake_frame.2.2.1

@[simp] lemma recordFailedHandshake_nextValidationId :
    (recordFailedHandshake s now).nextValidationId = s.nextValidationId :=
  recordFailedHandshake_frame.2.2.2

structure Drops (s s' : Environment H) : Prop where
  streams : ∀ id stream, s'.streams.get id = some stream → s.streams.get id = some stream
  pending : ∀ id pending, s'.pendingHandshakes.get id = some pending → s.pendingHandshakes.get id = some pending
  tasks : s'.validationTasks.Sublist s.validationTasks
  next : s'.nextValidationId = s.nextValidationId
  active : s'.streams.entries.length ≤ s.streams.entries.length

lemma drops_of_eq (hs : s'.streams = s.streams) (hp : s'.pendingHandshakes = s.pendingHandshakes)
    (ht : s'.validationTasks = s.validationTasks) (hn : s'.nextValidationId = s.nextValidationId) :
    Drops s s' := by
  refine ⟨?_, ?_, by rw [ht], hn, by rw [hs]⟩
  · rw [hs]
    exact fun _ _ h => h
  · rw [hp]
    exact fun _ _ h => h

lemma get_of_get_remove {m : StreamMap V} {removed id : Text} {v : V}
    (h : (m.remove removed).get id = some v) : id ≠ removed ∧ m.get id = some v := by
  rw [HashMap.get_remove] at h
  split at h
  · simp at h
  · rename_i hne
    exact ⟨hne, h⟩

lemma drops_remove_pending (streamId : Text) (hs : s'.streams = s.streams)
    (hp : s'.pendingHandshakes = s.pendingHandshakes.remove streamId)
    (ht : s'.validationTasks.Sublist s.validationTasks) (hn : s'.nextValidationId = s.nextValidationId) :
    Drops s s' := by
  refine ⟨?_, ?_, ht, hn, by rw [hs]⟩
  · rw [hs]
    exact fun _ _ h => h
  · rw [hp]
    exact fun _ _ h => (get_of_get_remove h).2

lemma drops_remove_stream (streamId : Text) (hs : s'.streams = s.streams.remove streamId)
    (hp : ∀ id pending, s'.pendingHandshakes.get id = some pending → s.pendingHandshakes.get id = some pending)
    (ht : s'.validationTasks = s.validationTasks) (hn : s'.nextValidationId = s.nextValidationId) :
    Drops s s' := by
  refine ⟨?_, hp, by rw [ht], hn, ?_⟩
  · rw [hs]
    exact fun _ _ h => (get_of_get_remove h).2
  · rw [hs]
    exact HashMap.length_remove_le _ _

lemma Drops.failed (h : Drops s s') : Drops s (recordFailedHandshake (sendReset s' streamId) now) := by
  refine ⟨?_, ?_, ?_, ?_, ?_⟩
  · rw [recordFailedHandshake_streams]
    exact h.streams
  · rw [recordFailedHandshake_pendingHandshakes]
    exact h.pending
  · rw [recordFailedHandshake_validationTasks]
    exact h.tasks
  · rw [recordFailedHandshake_nextValidationId]
    exact h.next
  · rw [recordFailedHandshake_streams]
    exact h.active

/-- What one event can do to the environment. -/
inductive Turn (noise : NoiseCrates H) (s : Environment H) : RelayEvent → Environment H → Prop where
  | drops {event : RelayEvent} {s' : Environment H} (h : Drops s s') : Turn noise s event s'
  | admits {streamId : Text} {request : Bytes} {now : Nat} {handshake : H} {s' : Environment H}
      (hstream : s.streams.get streamId = none) (hpending : s.pendingHandshakes.get streamId = none)
      (hroom : s.validationTasks.length < maxPendingHandshakeValidations)
      (hread : noise.readRequest streamId request = some handshake) (hstreams : s'.streams = s.streams)
      (hadded : s'.pendingHandshakes =
        s.pendingHandshakes.insert streamId { validationId := s.nextValidationId, handshake })
      (htasks : s'.validationTasks =
        s.validationTasks ++ [{ streamId, validationId := s.nextValidationId, handshake }])
      (hnext : s'.nextValidationId = s.nextValidationId + 1) :
      Turn noise s (.frame streamId (.handshake (some request)) now) s'
  | activates {task now : Nat} {found : ValidationTask H} {pending : PendingHandshake H} {s' : Environment H}
      (hfound : s.validationTasks[task]? = some found)
      (hpending : s.pendingHandshakes.get found.streamId = some pending)
      (hid : pending.validationId = found.validationId)
      (hroom : s.streams.entries.length < maxActiveNoiseRelayStreams)
      (hstreams : s'.streams = s.streams.insert found.streamId
        { instanceId := found.validationId, handshake := pending.handshake })
      (hremoved : s'.pendingHandshakes = s.pendingHandshakes.remove found.streamId)
      (htasks : s'.validationTasks = s.validationTasks.eraseIdx task)
      (hnext : s'.nextValidationId = s.nextValidationId) : Turn noise s (.validated task true now true) s'

lemma get_none_of_not_contains {m : StreamMap V} (h : ¬ m.contains streamId) :
    m.get streamId = none := by
  unfold HashMap.contains at h
  simpa using h

lemma handleHandshake_turn (payload : Option Bytes) :
    Turn noise s (.frame streamId (.handshake payload) now) (handleHandshake noise s streamId payload now) := by
  unfold handleHandshake
  split
  · exact .drops (drops_of_eq rfl rfl rfl rfl)
  -- The end of a cooldown changes nothing that a turn is about.
  have hc : ∀ s₁ : Environment H, s₁ = (if s.handshakeCooldownUntil.isSome then
      { s with failedHandshakes := 0, handshakeCooldownUntil := none } else s) →
      s₁.streams = s.streams ∧ s₁.pendingHandshakes = s.pendingHandshakes ∧
        s₁.validationTasks = s.validationTasks ∧ s₁.nextValidationId = s.nextValidationId := by
    rintro _ rfl
    split <;> exact ⟨rfl, rfl, rfl, rfl⟩
  simp only
  generalize hs₁ : (if s.handshakeCooldownUntil.isSome then
      { s with failedHandshakes := 0, handshakeCooldownUntil := none } else s) = s₁
  obtain ⟨hs, hp, ht, hn⟩ := hc s₁ hs₁.symm
  split
  · exact .drops (drops_of_eq hs hp ht hn)
  rename_i hst
  split
  · refine .drops (Drops.failed (drops_remove_pending streamId hs ?_ ?_ hn))
    · rw [← hp]
    · rw [ht]
  rename_i hnp
  split
  · exact .drops (drops_of_eq hs hp ht hn)
  split
  · exact .drops (drops_of_eq hs hp ht hn)
  rename_i hr
  have hf : Drops s (recordFailedHandshake (sendReset s₁ streamId) now) :=
    (drops_of_eq hs hp ht hn).failed
  split
  · exact .drops (drops_of_eq hs hp ht hn)
  split
  · exact .drops hf
  rename_i hre
  split
  · rw [hs] at hst
    rw [hp] at hnp
    rw [ht] at hr
    refine .admits (get_none_of_not_contains hst) (get_none_of_not_contains hnp) (Nat.lt_of_not_le hr) hre hs ?_ ?_ ?_
    · rw [← hp, ← hn]
    · rw [← ht, ← hn]
    · rw [← hn]
  · exact .drops hf

lemma handleValidation_turn (hf : s.validationTasks[task]? = some found)
    (h : handleValidation noise { s with validationTasks := s.validationTasks.eraseIdx task } found authorized now
      queued = some s') : Turn noise s (.validated task authorized now queued) s' := by
  have hs : (s.validationTasks.eraseIdx task).Sublist s.validationTasks := eraseIdx_sublist _ _
  have hk : Drops s { s with validationTasks := s.validationTasks.eraseIdx task } :=
    ⟨fun _ _ h => h, fun _ _ h => h, hs, rfl, le_rfl⟩
  unfold handleValidation at h
  split at h
  · cases h
    exact .drops hk
  rename_i hp
  split at h
  · cases h
    exact .drops hk
  rename_i hid
  rw [not_not] at hid
  have hr : Drops s { s with
      validationTasks := s.validationTasks.eraseIdx task
      pendingHandshakes := s.pendingHandshakes.remove found.streamId } :=
    drops_remove_pending found.streamId rfl rfl hs rfl
  simp only at h
  split at h
  · cases h
    exact .drops hr.failed
  rename_i ha
  split at h
  · cases h
    exact .drops ⟨hr.streams, hr.pending, hr.tasks, hr.next, hr.active⟩
  rename_i hro
  split at h
  · cases h
    exact .drops hr.failed
  split at h
  · simp at h
  rename_i hq
  cases h
  obtain rfl : authorized := by simpa using ha
  obtain rfl : queued := by simpa using hq
  exact .activates hf hp hid (Nat.lt_of_not_le hro) rfl rfl rfl rfl

lemma relayStep_turn (h : relayStep noise s event = some s') : Turn noise s event s' := by
  have hs : ∀ {event : RelayEvent}, Turn noise s event s := fun {event} => .drops (drops_of_eq rfl rfl rfl rfl)
  unfold relayStep at h
  split at h
  case h_1 => simp at h
  case h_2 => simp at h
  case h_3 => exact Option.some.inj h ▸ hs
  case h_4 =>
    cases h
    unfold handleClosedStream
    split
    · exact .drops (drops_remove_stream _ rfl (fun _ _ h => h) rfl rfl)
    · exact hs
  case h_5 =>
    split at h
    · exact Option.some.inj h ▸ hs
    · rename_i hf
      exact handleValidation_turn hf h
  case h_6 =>
    split at h
    · exact Option.some.inj h ▸ hs
    · cases h
      exact .drops ⟨fun _ _ h => h, fun _ _ h => absurd h (by simp [HashMap.get]), eraseIdx_sublist _ _, rfl, le_rfl⟩
  case h_7 =>
    cases h
    exact handleHandshake_turn _
  case h_8 =>
    cases h
    unfold handleData
    split
    · split
      · exact hs
      · exact .drops (drops_remove_stream _ rfl (fun _ _ h => h) rfl rfl)
    split
    · exact .drops (Drops.failed (drops_remove_pending _ rfl rfl (List.Sublist.refl _) rfl))
    · exact .drops (drops_of_eq rfl rfl rfl rfl)
  case h_9 =>
    cases h
    exact .drops (drops_remove_stream _ rfl (fun _ _ h => (get_of_get_remove h).2) rfl rfl)
  all_goals exact Option.some.inj h ▸ hs

end Turns

end Codex.Relay
