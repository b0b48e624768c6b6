import Codex.Run
import Codex.Text
import Mathlib

/-!
# Retried input to a process

Handlers of `exec_write` for one process take turns and may be cancelled at every await. A client that
got no reply repeats the request under its id. `chunk` is what the clients send under each id.
-/

namespace Codex.StdinWrites

open List Run

def retainedStdinWriteIdsPerProcess : Nat := 4096

structure AcceptedStdinWriteIds where
  ids : Finset Text := ∅
  order : List Text := []

namespace AcceptedStdinWriteIds

def evict (ids : Finset Text) : List Text → AcceptedStdinWriteIds
  | [] => ⟨ids, []⟩
  | evicted :: order =>
    if retainedStdinWriteIdsPerProcess < (evicted :: order).length then evict (ids.erase evicted) order
    else ⟨ids, evicted :: order⟩

def remember (accepted : AcceptedStdinWriteIds) (writeId : Text) : AcceptedStdinWriteIds :=
  if writeId ∈ accepted.ids then accepted
  else evict (insert writeId accepted.ids) (accepted.order ++ [writeId])

end AcceptedStdinWriteIds

inductive WriteStatus where
  | accepted
  | unknownProcess
  | stdinClosed
  | starting
deriving DecidableEq

inductive ProcessEntry where
  | starting
  | running (tty pipeStdin : Bool)

/-- What a handler awaits: the process map, the ids, a slot of the queue, the ids once more. -/
inductive Phase where
  | arrived
  | found
  | waiting
  | permitted

structure System (Chunk : Type) where
  accepted : AcceptedStdinWriteIds := {}
  queue : List (Text × Chunk) := []
  handlers : Nat → Option (Text × Phase) := fun _ => none
  replies : List (Text × Except Text WriteStatus) := []

inductive Event where
  | request (handler : Nat) (writeId : Text)
  | lookUp (handler : Nat) (entry : Option ProcessEntry)
  | check (handler : Nat)
  | reserve (handler : Nat) (granted : Bool)
  | commit (handler : Nat)
  | cancel (handler : Nat)

variable {Chunk : Type} (chunk : Text → Chunk)

namespace System

def await (s : System Chunk) (handler : Nat) (writeId : Text) (phase : Phase) : System Chunk :=
  { s with handlers := Function.update s.handlers handler (some (writeId, phase)) }

def answer (s : System Chunk) (handler : Nat) (writeId : Text) (reply : Except Text WriteStatus) : System Chunk :=
  { s with
    handlers := Function.update s.handlers handler none
    replies := s.replies ++ [(writeId, reply)] }

/-- The bytes are sent and the id is recorded without an await in between. -/
def send (s : System Chunk) (writeId : Text) : System Chunk :=
  { s with
    queue := s.queue ++ [(writeId, chunk writeId)]
    accepted := s.accepted.remember writeId }

def lookUp (s : System Chunk) (handler : Nat) (writeId : Text) : Option ProcessEntry → System Chunk
  | none => s.answer handler writeId (.ok .unknownProcess)
  | some .starting => s.answer handler writeId (.ok .starting)
  | some (.running tty pipeStdin) =>
    if !tty && !pipeStdin then s.answer handler writeId (.ok .stdinClosed)
    else s.await handler writeId .found

def step (s : System Chunk) : Event → Option (System Chunk)
  | .request handler writeId =>
    match s.handlers handler with
    | none => some <| if writeId.isEmpty then s.answer handler writeId (.error "writeId must not be empty")
      else s.await handler writeId .arrived
    | _ => none
  | .lookUp handler entry =>
    match s.handlers handler with
    | some (writeId, .arrived) => some (s.lookUp handler writeId entry)
    | _ => none
  | .check handler =>
    match s.handlers handler with
    | some (writeId, .found) => some <|
      if writeId ∈ s.accepted.ids then s.answer handler writeId (.ok .accepted)
      else s.await handler writeId .waiting
    | _ => none
  | .reserve handler granted =>
    match s.handlers handler with
    | some (writeId, .waiting) => some <| if granted then s.await handler writeId .permitted
      else s.answer handler writeId (.error "failed to write to process stdin")
    | _ => none
  | .commit handler =>
    match s.handlers handler with
    | some (writeId, .permitted) => some <|
      (if writeId ∈ s.accepted.ids then s else s.send chunk writeId).answer handler writeId (.ok .accepted)
    | _ => none
  | .cancel handler => some { s with handlers := Function.update s.handlers handler none }

def sent (s : System Chunk) : List Text := s.queue.map Prod.fst

/-- A handler's last check finds its id given up: 4096 others were accepted since. -/
def Late (writeId : Text) (s : System Chunk) (event : Event) : Prop :=
  ∃ handler, event = .commit handler ∧ s.handlers handler = some (writeId, .permitted) ∧
    writeId ∈ s.sent ∧ retainedStdinWriteIdsPerProcess ≤ s.sent.reverse.idxOf writeId

end System

/-! ## The ids that are kept -/

variable {accepted : AcceptedStdinWriteIds} {ids sent : List Text} {writeId : Text}

lemma evict_eq (hn : ids.Nodup) : AcceptedStdinWriteIds.evict ids.toFinset ids =
    ⟨(ids.rtake retainedStdinWriteIdsPerProcess).toFinset, ids.rtake retainedStdinWriteIdsPerProcess⟩ := by
  induction ids with
  | nil => simp [AcceptedStdinWriteIds.evict]
  | cons writeId ids ih => ?_
  obtain ⟨hno, hr⟩ := nodup_cons.mp hn
  unfold AcceptedStdinWriteIds.evict rtake
  split
  · rename_i hf
    have he : (writeId :: ids).toFinset.erase writeId = ids.toFinset := by simp [hno]
    have hl : (writeId :: ids).length - retainedStdinWriteIdsPerProcess =
        ids.length - retainedStdinWriteIdsPerProcess + 1 := by
      rw [length_cons] at hf ⊢
      omega
    rw [he, ih hr, hl, drop_succ_cons, rtake]
  · rw [Nat.sub_eq_zero_of_le (by omega), drop_zero]

structure Remembers (accepted : AcceptedStdinWriteIds) (sent : List Text) : Prop where
  ids : accepted.ids = accepted.order.toFinset
  nodup : accepted.order.Nodup
  newest : accepted.order = sent.rtake retainedStdinWriteIdsPerProcess

lemma Remembers.mem_iff (h : Remembers accepted sent) : writeId ∈ accepted.ids ↔
    writeId ∈ sent ∧ sent.reverse.idxOf writeId < retainedStdinWriteIdsPerProcess := by
  rw [h.ids, mem_toFinset, h.newest, rtake_eq_reverse_take_reverse, mem_reverse]
  constructor
  · intro hm
    have hin := mem_of_mem_take hm
    exact ⟨mem_reverse.mp hin, (mem_take_iff_idxOf_lt hin).mp hm⟩
  · rintro ⟨hin, hlt⟩
    exact (mem_take_iff_idxOf_lt (mem_reverse.mpr hin)).mpr hlt

lemma Remembers.remember (h : Remembers accepted sent) (hno : writeId ∉ accepted.ids) :
    Remembers (accepted.remember writeId) (sent ++ [writeId]) := by
  have hnew : (accepted.order ++ [writeId]).Nodup := by
    rw [h.ids, mem_toFinset] at hno
    exact h.nodup.append (nodup_singleton writeId) (by simpa using hno)
  have hi : insert writeId accepted.ids = (accepted.order ++ [writeId]).toFinset := by
    rw [h.ids, toFinset_append, Finset.union_comm]
    rfl
  rw [AcceptedStdinWriteIds.remember, if_neg hno, hi, evict_eq hnew]
  refine ⟨by dsimp only, ?_, ?_⟩
  · dsimp only [rtake]
    exact hnew.sublist (drop_sublist _ _)
  obtain ⟨n, hn⟩ : ∃ n, retainedStdinWriteIdsPerProcess = n + 1 := ⟨4095, rfl⟩
  rw [h.newest, hn]
  simp [rtake_eq_reverse_take_reverse, take_take]

/-! ## Runs -/

namespace System

variable {chunk} {s s' : System Chunk} {event : Event}

/-- What a step leaves as it is when it puts nothing on the queue. -/
structure Quiet (s s' : System Chunk) : Prop where
  accepted : s'.accepted = s.accepted
  queue : s'.queue = s.queue
  replies : ∀ writeId, (writeId, .ok .accepted) ∈ s'.replies →
    (writeId, .ok .accepted) ∈ s.replies ∨ writeId ∈ s.accepted.ids

lemma quiet_await (phase : Phase) : Quiet s (s.await han writeId phase) := ⟨rfl, rfl, fun _ => .inl⟩

lemma quiet_answer {reply : Except Text WriteStatus} (h : reply = .ok .accepted → writeId ∈ s.accepted.ids) :
    Quiet s (s.answer han writeId reply) := by
  refine ⟨rfl, rfl, fun id hin => ?_⟩
  rcases mem_append.mp hin with hin | hin
  · exact .inl hin
  · obtain ⟨rfl, rfl⟩ := Prod.mk.inj (mem_singleton.mp hin)
    exact .inr (h rfl)

lemma step_cases (h : s.step chunk event = some s') : Quiet s s' ∨
    ∃ han writeId, event = .commit han ∧ s.handlers han = some (writeId, .permitted) ∧
      writeId ∉ s.accepted.ids ∧ s' = (s.send chunk writeId).answer han writeId (.ok .accepted) := by
  unfold step at h
  split at h <;> try split at h
  all_goals try cases h
  · split
    · exact .inl (quiet_answer (by simp))
    · exact .inl (quiet_await _)
  · left
    unfold lookUp
    split
    · exact quiet_answer (by simp)
    · exact quiet_answer (by simp)
    split
    · exact quiet_answer (by simp)
    · exact quiet_await _
  · split
    · exact .inl (quiet_answer fun _ => by assumption)
    · exact .inl (quiet_await _)
  · split
    · exact .inl (quiet_await _)
    · exact .inl (quiet_answer (by simp))
  · rename_i han _ writeId hh
    by_cases hin : writeId ∈ s.accepted.ids
    · rw [if_pos hin]
      exact .inl (quiet_answer fun _ => hin)
    · rw [if_neg hin]
      exact .inr ⟨han, writeId, rfl, hh, hin, rfl⟩
  · exact .inl ⟨rfl, rfl, fun _ => .inl⟩

variable (chunk) in
structure Sound (s : System Chunk) : Prop where
  remembers : Remembers s.accepted s.sent
  bytes : ∀ put ∈ s.queue, put.2 = chunk put.1
  replies : ∀ writeId, (writeId, .ok .accepted) ∈ s.replies → writeId ∈ s.sent

lemma sent_send : ((s.send chunk writeId).answer han writeId reply).sent = s.sent ++ [writeId] := by
  simp [sent, send, answer]

lemma Sound.step (h : s.Sound chunk) (hs : s.step chunk event = some s') : s'.Sound chunk := by
  obtain hqu | ⟨han, writeId, -, -, hn, rfl⟩ := step_cases hs
  · obtain ⟨ha, hq, hr⟩ := hqu
    refine ⟨?_, ?_, fun id hin => ?_⟩
    · rw [ha, sent, hq]
      exact h.remembers
    · rw [hq]
      exact h.bytes
    · rw [sent, hq]
      rcases hr id hin with hin | hin
      · exact h.replies id hin
      · exact (h.remembers.mem_iff.mp hin).1
  refine ⟨?_, ?_, fun id hin => ?_⟩
  · rw [sent_send]
    exact h.remembers.remember hn
  · intro put hp
    rcases mem_append.mp hp with hp | hp
    · exact h.bytes put hp
    · rw [mem_singleton.mp hp]
  · rw [sent_send, mem_append]
    rcases mem_append.mp hin with hin | hin
    · exact .inl (h.replies id hin)
    · obtain ⟨rfl, -⟩ := Prod.mk.inj (mem_singleton.mp hin)
      simp

lemma Sound.run (h : s.Sound chunk) (hr : run (System.step chunk) s events = some s') : s'.Sound chunk :=
  invariant (fun _ s => s.Sound chunk) h (fun _ _ _ _ _ h hs => h.step hs) hr

lemma Sound.initial : ({} : System Chunk).Sound chunk :=
  ⟨⟨rfl, nodup_nil, by simp [sent]⟩, by simp, by simp⟩

/-- A late check sends again; no other step puts an id on the queue twice. -/
lemma Sound.count_step (h : s.Sound chunk) (hs : s.step chunk event = some s') (writeId : Text) :
    s'.sent.count writeId ≤ 1 ↔ s.sent.count writeId ≤ 1 ∧ ¬ Late writeId s event := by
  obtain hq | ⟨han, other, rfl, hh, hno, rfl⟩ := step_cases hs
  · have hsa : s'.sent = s.sent := by rw [sent, hq.queue, sent]
    rw [hsa, iff_self_and]
    rintro - ⟨han, rfl, hh, hin, hf⟩
    have hg : writeId ∉ s.accepted.ids := fun hm => by
      have hn := (h.remembers.mem_iff.mp hm).2
      omega
    simp only [System.step, hh, if_neg hg, Option.some.injEq] at hs
    rw [← hs, sent_send] at hsa
    simpa using congrArg length hsa
  rw [sent_send, count_append, count_singleton]
  by_cases heq : other = writeId
  · subst heq
    rw [beq_self_eq_true, if_pos rfl]
    by_cases hin : other ∈ s.sent
    · have hp := count_pos_iff.mpr hin
      have hl : Late other s (.commit han) := by
        refine ⟨han, rfl, hh, hin, ?_⟩
        by_contra hn
        exact hno (h.remembers.mem_iff.mpr ⟨hin, not_le.mp hn⟩)
      exact iff_of_false (by omega) fun hb => hb.2 hl
    · rw [count_eq_zero_of_not_mem hin]
      exact iff_of_true le_rfl ⟨by omega, fun ⟨_, _, _, hm, _⟩ => hin hm⟩
  rw [if_neg (by simpa using heq), Nat.add_zero, iff_self_and]
  rintro - ⟨_, he, ho, -⟩
  obtain rfl := Event.commit.inj he
  rw [hh] at ho
  exact heq (congrArg Prod.fst (Option.some.inj ho))

end System

def prepare (handler : Nat) (writeId : Text) : List Event :=
  [.request handler writeId, .lookUp handler (some (.running true false)), .check handler, .reserve handler true]

def accept (handler : Nat) (writeId : Text) : List Event := prepare handler writeId ++ [.commit handler]

theorem put_once_iff (events : List Event) (s : System Chunk) (hrun : run (System.step chunk) {} events = some s) :
    (∀ writeId, (writeId, .ok .accepted) ∈ s.replies → (writeId, chunk writeId) ∈ s.queue) ∧
      ∀ writeId, s.sent.count writeId ≤ 1 ↔ Avoids (System.step chunk) (System.Late writeId) {} events := by
  have hs : s.Sound chunk := System.Sound.initial.run hrun
  refine ⟨fun writeId hin => ?_, fun writeId => ?_⟩
  · obtain ⟨put, hp, rfl⟩ := mem_map.mp (hs.replies writeId hin)
    rw [← hs.bytes put hp]
    exact hp
  refine (iff_avoids (·.Sound chunk) (·.sent.count writeId ≤ 1) ⟨System.Sound.initial, ?_⟩ ?_ hrun).2
  · simp [System.sent]
  · exact fun _ _ _ h hst => ⟨h.step hst, h.count_step hst writeId⟩

theorem accepted_retry_put : ∃ s : System Text,
    run (System.step id) {} (prepare 0 "w" ++ accept 1 "w" ++ [.commit 0]) = some s ∧
      (("w", "w") : Text × Text) ∈ s.queue := by
  obtain ⟨s, hru, hr⟩ : ∃ s, run (System.step id) {} (prepare 0 "w" ++ accept 1 "w" ++ [.commit 0]) = some s ∧
      (("w" : Text), .ok .accepted) ∈ s.replies := ⟨_, rfl, mem_cons_self⟩
  exact ⟨s, hru, (put_once_iff id _ s hru).1 "w" hr⟩

/-! ## A handler that wakes up late -/

variable {chunk} {s : System Chunk}

lemma run_accept (hi : s.handlers han = none) (hid : writeId ≠ []) (hn : writeId ∉ s.accepted.ids) :
    run (System.step chunk) s (accept han writeId) =
      some ((s.send chunk writeId).answer han writeId (.ok .accepted)) := by
  simp [run, accept, prepare, System.step, System.lookUp, System.await, System.answer, System.send, hi, hid, hn]

lemma run_flood (h : s.Sound chunk) (hi : s.handlers han = none) (hids : ids.Nodup)
    (hf : ∀ writeId ∈ ids, writeId ≠ [] ∧ writeId ∉ s.sent) : ∃ s',
    run (System.step chunk) s (ids.flatMap (accept han)) = some s' ∧ s'.Sound chunk ∧ s'.sent = s.sent ++ ids ∧
      s'.handlers = s.handlers := by
  induction ids generalizing s with
  | nil => exact ⟨s, rfl, h, by simp, rfl⟩
  | cons writeId ids ih => ?_
  obtain ⟨hn, hids⟩ := nodup_cons.mp hids
  obtain ⟨hid, hu⟩ := hf writeId mem_cons_self
  have hno : writeId ∉ s.accepted.ids := fun hin => hu (h.remembers.mem_iff.mp hin).1
  have hr : run (System.step chunk) s (accept han writeId) = _ := run_accept hi hid hno
  obtain ⟨s', hm, hs, hse, hh⟩ := @ih ((s.send chunk writeId).answer han writeId (.ok .accepted))
    (h.run hr) (by simp [System.answer]) hids fun other hin => ⟨(hf other (mem_cons_of_mem _ hin)).1, by
      rw [System.sent_send, mem_append, mem_singleton, not_or]
      exact ⟨(hf other (mem_cons_of_mem _ hin)).2, fun heq => hn (heq ▸ hin)⟩⟩
  refine ⟨s', run_append.mpr ⟨_, hr, hm⟩, hs, ?_, ?_⟩
  · rw [hse, System.sent_send, append_assoc, singleton_append]
  · rw [hh]
    simp [System.answer, System.send, hi]

/-- The first request waits for a slot, its repetition is accepted, and 4096 other writes follow; then the first
request sends the bytes again. -/
theorem sent_twice : ∃ (flood : List Event) (s : System Text), (∀ handler, .request handler "w" ∉ flood) ∧
    run (System.step id) {} (prepare 0 "w" ++ accept 1 "w" ++ flood ++ [.commit 0]) = some s ∧
      s.sent.count ("w" : Text) = 2 := by
  let ids : List Text := (range 4096).map fun n => replicate (n + 1) 'a'
  have hi : ids.Nodup := nodup_range.map fun m n heq => by simpa using congrArg length heq
  have ho : ∀ writeId ∈ ids, writeId ≠ [] ∧ writeId ≠ ("w" : Text) := by
    intro writeId hin
    obtain ⟨n, -, rfl⟩ := mem_map.mp hin
    simp [replicate_succ]
  have hn : ("w" : Text) ∉ ids := fun hin => (ho _ hin).2 rfl
  obtain ⟨s, hst, hs, hz, hon⟩ : ∃ s : System Text,
      run (System.step id) {} (prepare 0 "w" ++ accept 1 "w") = some s ∧ s.sent = [("w" : Text)] ∧
        s.handlers 0 = some (("w" : Text), .permitted) ∧ s.handlers 1 = none := ⟨_, rfl, rfl, rfl, rfl⟩
  obtain ⟨s', hf, hso, hs', hh⟩ := run_flood (System.Sound.initial.run hst) hon hi
    fun writeId hin => by simpa [hs] using ho writeId hin
  have hg : ("w" : Text) ∉ s'.accepted.ids := by
    rw [hso.remembers.mem_iff, hs', hs, reverse_append, idxOf_append_of_notMem (by simpa using hn)]
    simp [ids, retainedStdinWriteIdsPerProcess]
  have hl : s'.step id (.commit 0) = some ((s'.send id "w").answer 0 "w" (.ok .accepted)) := by
    simp only [System.step, hh, hz, if_neg hg]
  refine ⟨_, _, fun handler hin => ?_, run_concat.mpr ⟨s', run_append.mpr ⟨s, hst, hf⟩, hl⟩, ?_⟩
  · obtain ⟨writeId, hid, hin⟩ := mem_flatMap.mp hin
    obtain ⟨-, rfl⟩ : handler = 1 ∧ ("w" : Text) = writeId := by simpa [accept, prepare] using hin
    exact hn hid
  · rw [System.sent_send, hs', hs]
    rw [count_append, count_append, count_eq_zero_of_not_mem hn, count_singleton_self]

end Codex.StdinWrites
