import Codex.RemoteControl.Writer

/-! # Numbers without gaps: a message that is given up leaves its number unused -/

namespace Codex.RemoteControl

open Codex.Run List Option

variable {M : Type} {crates : ServerCrates M} {events : List (WriterEvent M)} {event : WriterEvent M} {w w' : Writer M}
  {key : StreamKey}

/-- The event is one for which the splitter returns no envelope that serialises. -/
def GivenUp (crates : ServerCrates M) (w : Writer M) : WriterEvent M → Prop
  | .enqueue event key => payloads crates event key (w.nextSeqId key) = some []
  | _ => False

def Writer.numbers (w : Writer M) (key : StreamKey) : List Nat := (w.serialised.filter (·.key = key)).map (·.seqId)

/-- In order, and from one to the last without a gap. -/
def Gapless (numbers : List Nat) : Prop :=
  numbers.Pairwise (· ≤ ·) ∧ ∃ last, ∀ n, n ∈ numbers ↔ 1 ≤ n ∧ n ≤ last

/-- All numbers below the next one were given. -/
structure Complete (next : Nat) (numbers : List Nat) : Prop where
  bounded : 1 ≤ next ∧ next ≤ u64Max
  sorted : numbers.Pairwise (· ≤ ·)
  used : ∀ n, 1 ≤ n → n < next → n ∈ numbers
  range : ∀ n ∈ numbers, 1 ≤ n ∧ (n < next ∨ n = u64Max ∧ next = u64Max)

variable {next seqId size : Nat} {serverEvent : ServerEvent M} {message : M}

lemma Complete.gapless (h : Complete next numbers) : Gapless numbers := by
  refine ⟨h.sorted, ?_⟩
  by_cases hnex : next ∈ numbers
  · refine ⟨next, fun n => ⟨fun hn => ?_, fun ⟨ho, hle⟩ => ?_⟩⟩
    · obtain ⟨ho, hlt | ⟨rfl, hm⟩⟩ := h.range n hn
      · omega
      · omega
    · rcases Nat.lt_or_eq_of_le hle with hlt | rfl
      · exact h.used n ho hlt
      · exact hnex
  refine ⟨next - 1, fun n => ⟨fun hn => ?_, fun ⟨ho, hle⟩ => h.used n ho (by omega)⟩⟩
  obtain ⟨ho, hlt | ⟨rfl, hm⟩⟩ := h.range n hn
  · omega
  · exact absurd (hm ▸ hn) hnex

lemma Complete.add (h : Complete next numbers) (hne : more ≠ [])
    (hal : ∀ n ∈ more, n = next) : Complete (saturatingSucc next) (numbers ++ more) := by
  obtain ⟨_, _⟩ := h.bounded
  obtain ⟨first, hf⟩ := exists_mem_of_ne_nil more hne
  refine ⟨?_, ?_, ?_, ?_⟩
  · unfold saturatingSucc
    omega
  · rw [pairwise_append]
    refine ⟨h.sorted, ?_, fun a ha b hb => ?_⟩
    · exact pairwise_of_forall_mem_list fun a ha b hb => by rw [hal a ha, hal b hb]
    have := (h.range a ha).2
    have := hal b hb
    omega
  · intro n hn hlt
    unfold saturatingSucc at hlt
    rcases Nat.lt_or_ge n next with hbe | _
    · exact mem_append_left _ (h.used n hn hbe)
    · obtain rfl : n = next := by omega
      exact mem_append_right _ (hal first hf ▸ hf)
  · intro n hn
    unfold saturatingSucc
    rcases mem_append.mp hn with ho | hnew
    · have := h.range n ho
      omega
    · have := hal n hnew
      omega

lemma numbers_enqueue (h : payloads crates serverEvent key (w.nextSeqId key) = some envelopes) (other : StreamKey) :
    (w.enqueue crates serverEvent key).numbers other =
      w.numbers other ++ if other = key then envelopes.map (·.seqId) else [] := by
  obtain ⟨hon, -⟩ := payloads_oneMessage h
  unfold Writer.numbers Writer.enqueue
  simp only [h]
  rw [filter_append, map_append]
  congr 1
  split
  · rename_i ho
    subst ho
    congr 1
    rw [filter_eq_self]
    intro e he
    simp [(hon e he).1]
  rename_i ho
  rw [map_eq_nil_iff, filter_eq_nil_iff]
  intro e he
  simp [(hon e he).1, Ne.symm ho]

lemma complete_enqueue (h : ∀ other, Complete (w.nextSeqId other) (w.numbers other))
    (hk : payloads crates serverEvent key (w.nextSeqId key) ≠ some []) (other : StreamKey) :
    Complete ((w.enqueue crates serverEvent key).nextSeqId other) ((w.enqueue crates serverEvent key).numbers other) :=
      by
  rcases hp : payloads crates serverEvent key (w.nextSeqId key) with _ | envelopes
  · -- an event that cannot be split puts the number back
    have hnex : (w.enqueue crates serverEvent key).nextSeqId other = w.nextSeqId other := by
      unfold Writer.enqueue
      simp only [hp]
      rw [nextSeqId_insert (w := w) rfl]
      split
      · rename_i ho
        rw [ho]
      · rfl
    have hnu : (w.enqueue crates serverEvent key).numbers other = w.numbers other := by
      unfold Writer.numbers Writer.enqueue
      simp [hp]
    rw [hnex, hnu]
    exact h other
  have hnex : (w.enqueue crates serverEvent key).nextSeqId other =
      if other = key then saturatingSucc (w.nextSeqId key) else w.nextSeqId other := by
    unfold Writer.enqueue
    simp only [hp]
    exact nextSeqId_insert (w := w) rfl other
  rw [hnex, numbers_enqueue hp]
  split
  · rename_i ho
    subst ho
    apply (h other).add
    · intro hni
      rw [map_eq_nil_iff] at hni
      exact hk (hni ▸ hp)
    · intro n hn
      obtain ⟨e, he, rfl⟩ := mem_map.mp hn
      exact ((payloads_oneMessage hp).1 e he).2.1
  · rw [append_nil]
    exact h other

lemma numbering_of_not_enqueue (hs : writerStep crates w event = some w')
    (he : ∀ serverEvent key, event ≠ .enqueue serverEvent key) :
    w'.nextSeqIdByStream = w.nextSeqIdByStream ∧ w'.serialised = w.serialised := by
  cases steps_of_writerStep hs with
  | enqueue serverEvent key => exact absurd rfl (he serverEvent key)
  | connect | write | fail | ack => exact ⟨rfl, rfl⟩

lemma complete_step (h : ∀ key, Complete (w.nextSeqId key) (w.numbers key)) (hk : ¬ GivenUp crates w event)
    (hst : writerStep crates w event = some w') (key : StreamKey) : Complete (w'.nextSeqId key) (w'.numbers key) := by
  by_cases he : ∃ serverEvent other, event = .enqueue serverEvent other
  · obtain ⟨serverEvent, other, rfl⟩ := he
    cases steps_of_writerStep hst
    exact complete_enqueue h hk key
  obtain ⟨hn, hs⟩ := numbering_of_not_enqueue hst fun serverEvent other heq =>
    he ⟨serverEvent, other, heq⟩
  unfold Writer.nextSeqId Writer.numbers at h ⊢
  rw [hn, hs]
  exact h key

/-- Numbers have no gaps in every run that gives no message up. -/
theorem numbers_without_gaps (hrun : run (writerStep crates) {} events = some w)
    (hkept : Avoids (writerStep crates) (GivenUp crates) {} events) (key : StreamKey) : Gapless (w.numbers key) := by
  have hc : ∀ key, Complete (w.nextSeqId key) (w.numbers key) := by
    refine invariant_of_avoids (fun w => ∀ key, Complete (w.nextSeqId key) (w.numbers key)) ?_ ?_ hrun hkept
    · intro key
      have hn : ({} : Writer M).nextSeqId key = 1 := rfl
      rw [hn]
      exact ⟨by decide, .nil, fun n ho hlt => by omega, by simp [Writer.numbers]⟩
    · exact fun w event w' h hkept hs => complete_step h hkept hs
  exact (hc key).gapless

def twoShortEvents : List (WriterEvent Unit) :=
  [.connect .same, .enqueue (.pong true) ("c", "s"), .write, .enqueue .ack ("c", "s")]

theorem two_short_events_without_gaps : ∃ w, run (writerStep shortLines) {} twoShortEvents = some w ∧
    w.numbers ("c", "s") = [1, 2] ∧ Gapless (w.numbers ("c", "s")) := by
  obtain ⟨w, hr, hn⟩ : ∃ w, run (writerStep shortLines) {} twoShortEvents = some w ∧
      w.numbers ("c", "s") = [1, 2] := ⟨_, rfl, rfl⟩
  refine ⟨w, hr, hn, numbers_without_gaps hr ?_ _⟩
  have ho : Avoids (writerStep shortLines) (GivenUp shortLines) {} [.connect .same] :=
    avoids_concat avoids_nil rfl id
  have htw := avoids_concat ho rfl fun h : GivenUp shortLines _ (.enqueue (.pong true) ("c", "s")) =>
    absurd (some.inj h) (cons_ne_nil _ _)
  have ht := avoids_concat htw rfl fun h : GivenUp shortLines _ .write => h
  exact avoids_concat ht rfl fun h : GivenUp shortLines _ (.enqueue .ack ("c", "s")) =>
    absurd (some.inj h) (cons_ne_nil _ _)

lemma payloads_of_too_large (hs : reassembledMaxBytes < size)
    (hlen : crates.serializedLen ⟨.serverMessage message, key.1, key.2, seqId⟩ = some size)
    (hr : crates.toVec message = some raw) (hl : reassembledMaxBytes < raw.length) :
    payloads crates (.serverMessage message) key seqId = some [] := by
  have hlo : ¬ size ≤ segmentMaxBytes := by
    have : segmentMaxBytes ≤ reassembledMaxBytes := by decide
    omega
  unfold payloads splitServerEnvelopeForTransport
  simp [hlen, if_neg hlo, hr, if_pos hl]

lemma payloads_of_short (hsi : size ≤ segmentMaxBytes)
    (hl : crates.serializedLen ⟨.serverMessage message, key.1, key.2, seqId⟩ = some size) :
    payloads crates (.serverMessage message) key seqId = some [⟨.serverMessage message, key.1, key.2, seqId⟩] := by
  have hs : serialises crates ⟨.serverMessage message, key.1, key.2, seqId⟩ := by
    simp [serialises, hl]
  unfold payloads splitServerEnvelopeForTransport
  simp [hl, if_pos hsi, hs]

lemma number_skipped (hf : payloads crates first key 1 = some [])
    (hse : payloads crates second key 2 = some [⟨second, key.1, key.2, 2⟩]) :
    ∃ w, run (writerStep crates) {} [.connect .same, .enqueue first key, .enqueue second key] = some w ∧
      w.numbers key = [2] := by
  have hr : 0 < channelCapacity := by decide
  have hn : ∀ w : Writer M, w.nextSeqIdByStream = ({} : HashMap id Nat).insert key (saturatingSucc 1) →
      w.nextSeqId key = 2 := by
    intro w hw
    rw [nextSeqId_insert (w := {}) hw, if_pos rfl]
    decide
  have hst : ({ connection := some [] } : Writer M).nextSeqId key = 1 := rfl
  let skipped := ({ connection := some [] } : Writer M).enqueue crates first key
  have hs : skipped = ({
      nextSeqIdByStream := ({} : HashMap id Nat).insert key (saturatingSucc 1)
      connection := some [] } : Writer M) := by
    simp only [skipped, Writer.enqueue, hst, hf]
    rfl
  refine ⟨skipped.enqueue crates second key, ?_, ?_⟩
  · have hc : run (writerStep crates) {} [.connect .same] = some { connection := some [] } := rfl
    refine run_concat.mpr ⟨skipped, run_concat.mpr ⟨_, hc, ?_⟩, ?_⟩
    · simp [writerStep, hr, skipped]
    · simp [writerStep, hs, hr]
  have hp : payloads crates second key (skipped.nextSeqId key) = some [⟨second, key.1, key.2, 2⟩] := by
    rw [hn skipped (by rw [hs])]
    exact hse
  rw [numbers_enqueue hp, hs, if_pos rfl]
  rfl

def oneTooLarge : ServerCrates Bool where
  serializedLen envelope :=
    match envelope.event with
    | .serverMessage true => some (reassembledMaxBytes + 200)
    | _ => some 100
  toVec
    | true => some (replicate (reassembledMaxBytes + 1) 0)
    | false => some []
  encode _ := "AA=="
  responseError _ := none

lemma large_given_up (key : StreamKey) (seqId : Nat) :
    payloads oneTooLarge (.serverMessage true) key seqId = some [] := by
  have hs : reassembledMaxBytes < reassembledMaxBytes + 200 := Nat.lt_add_of_pos_right (by omega)
  have hr : reassembledMaxBytes < (replicate (reassembledMaxBytes + 1) (0 : UInt8)).length := by
    rw [length_replicate]
    exact Nat.lt_succ_self _
  exact payloads_of_too_large hs rfl rfl hr

lemma short_kept (key : StreamKey) (seqId : Nat) : payloads oneTooLarge (.serverMessage false) key seqId =
    some [⟨.serverMessage false, key.1, key.2, seqId⟩] :=
  payloads_of_short (show 100 ≤ segmentMaxBytes by decide) rfl

theorem number_one_missing : ∃ w, run (writerStep oneTooLarge) {}
      [.connect .same, .enqueue (.serverMessage true) ("c", "s"), .enqueue (.serverMessage false) ("c", "s")] = some w ∧
    w.numbers ("c", "s") = [2] ∧ ¬ Gapless (w.numbers ("c", "s")) := by
  obtain ⟨w, hr, hn⟩ := number_skipped (large_given_up ("c", "s") 1) (short_kept ("c", "s") 2)
  refine ⟨w, hr, hn, ?_⟩
  rw [hn]
  rintro ⟨-, _, hl⟩
  have ht := (hl 2).mp (by simp)
  have ho := (hl 1).mpr (by omega)
  simp at ho

end Codex.RemoteControl
