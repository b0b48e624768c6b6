import Codex.RemoteControl.Segments

/-! # An assembly holds the decoded chunks of one message, in order and within its bounds -/

namespace Codex.RemoteControl

open Codex.Text Assemblies List

variable {M : Type} {crates : MessageCrates M} {a : Assemblies} {history : List (ClientEnvelope M)}
  {envelope : ClientEnvelope M} {clientId streamId : Text} {metadata : ClientSegmentMetadata} {now : Nat}

/-- The envelope is the chunk of that index, with its bytes. -/
def IsSegment (crates : MessageCrates M) (clientId streamId : Text) (metadata : ClientSegmentMetadata)
    (segmentId : Nat) (segment : ClientEnvelope M × List UInt8) : Prop :=
  segment.1.clientId = clientId ∧ segment.1.streamId = some streamId ∧ segment.1.seqId = some metadata.seqId ∧
    ∃ chunk, segment.1.event = .clientMessageChunk segmentId metadata.segmentCount metadata.messageSizeBytes chunk ∧
      crates.decode chunk = some segment.2

/-- The bytes of the first chunks, which arrived in order. -/
def Collected (crates : MessageCrates M) (history : List (ClientEnvelope M)) (clientId streamId : Text)
    (metadata : ClientSegmentMetadata) (count : Nat) (raw : List UInt8) : Prop :=
  ∃ arrived : List (ClientEnvelope M × List UInt8), (arrived.map (·.1)).Sublist history ∧ arrived.length = count ∧
    (∀ i segment, arrived[i]? = some segment → IsSegment crates clientId streamId metadata i segment) ∧
    raw = (arrived.map (·.2)).flatten

lemma collected_nil : Collected crates history clientId streamId metadata 0 [] :=
  ⟨[], by simp, rfl, by simp, rfl⟩

lemma Collected.concat {count : Nat} {raw : List UInt8}
    (h : Collected crates history clientId streamId metadata count raw) :
    Collected crates (history ++ [envelope]) clientId streamId metadata count raw := by
  obtain ⟨arrived, hs, hr⟩ := h
  exact ⟨arrived, hs.trans (sublist_append_left _ _), hr⟩

lemma Collected.add {count : Nat} (h : Collected crates history clientId streamId metadata count raw)
    (hse : IsSegment crates clientId streamId metadata count (envelope, bytes)) :
    Collected crates (history ++ [envelope]) clientId streamId metadata (count + 1) (raw ++ bytes) := by
  obtain ⟨arrived, hsu, rfl, hs, rfl⟩ := h
  refine ⟨arrived ++ [(envelope, bytes)], ?_, by simp, ?_, by simp⟩
  · rw [map_append]
    exact hsu.append (List.Sublist.refl _)
  intro i segment hi
  rcases Nat.lt_or_ge i arrived.length with hlt | hge
  · rw [getElem?_append_left hlt] at hi
    exact hs i segment hi
  rw [getElem?_append_right hge] at hi
  obtain ⟨hz, rfl⟩ : i - arrived.length = 0 ∧ (envelope, bytes) = segment := by
    cases hsu : i - arrived.length with
    | zero => simpa [hsu] using hi
    | succ => simp [hsu] at hi
  obtain rfl : i = arrived.length := by omega
  exact hse

/-- An assembly holds what arrived, within its size. -/
structure AssemblySound (crates : MessageCrates M) (history : List (ClientEnvelope M)) (clientId : Text)
    (assembly : ClientSegmentAssembly) : Prop where
  collected : Collected crates history clientId assembly.streamId assembly.metadata assembly.nextSegmentId assembly.raw
  within : assembly.raw.length ≤ assembly.metadata.messageSizeBytes
  bounded : assembly.metadata.messageSizeBytes ≤ reassembledMaxBytes

structure Sound (crates : MessageCrates M) (history : List (ClientEnvelope M)) (a : Assemblies) : Prop where
  count : a.entries.length ≤ segmentAssemblyMaxCount
  each : ∀ clientId assembly, a.get clientId = some assembly → AssemblySound crates history clientId assembly

lemma Sound.concat (h : Sound crates history a) : Sound crates (history ++ [envelope]) a := by
  refine ⟨h.count, fun clientId assembly hg => ?_⟩
  obtain ⟨hc, hw, hb⟩ := h.each clientId assembly hg
  exact ⟨hc.concat, hw, hb⟩

lemma Sound.remove (h : Sound crates history a) (clientId : Text) : Sound crates history (a.remove clientId) := by
  refine ⟨(HashMap.length_remove_le _ _).trans h.count, fun other assembly hg => ?_⟩
  rw [HashMap.get_remove] at hg
  split at hg
  · simp at hg
  · exact h.each other assembly hg

lemma Sound.removeAssembly (h : Sound crates history a) (clientId streamId : Text) :
    Sound crates history (a.removeAssembly clientId streamId) := by
  unfold Assemblies.removeAssembly
  split
  · exact h.remove clientId
  · exact h

lemma Sound.evict (h : Sound crates history a) (order : Order) :
    Sound crates history (a.evictAssembliesIfFull order) := by
  fun_induction evictAssembliesIfFull order a with
  | case1 a _ oldest _ ih => exact ih (h.remove oldest.1)
  | case2 => exact h
  | case3 => exact h

lemma length_evict (order : Order) (a : Assemblies) :
    (a.evictAssembliesIfFull order).entries.length < segmentAssemblyMaxCount := by
  fun_induction evictAssembliesIfFull order a with
  | case1 a _ oldest _ ih => exact ih
  | case2 a hf hn =>
    have hl := (order.perm a.entries).length_eq
    rw [argmin_eq_none.mp hn] at hl
    rw [← hl] at hf
    cases hf
  | case3 a hr => omega

variable {assembly : ClientSegmentAssembly} {segmentId : Nat} {chunk : Text}

lemma Sound.insert (h : Sound crates history a)
    (hr : a.entries.length < segmentAssemblyMaxCount ∨ a.get clientId ≠ none)
    (ha : AssemblySound crates history clientId assembly) :
    Sound crates history (a.insert clientId assembly) := by
  refine ⟨?_, fun other held hg => ?_⟩
  · rcases hr with hr | hp
    · have := HashMap.length_insert_le a clientId assembly
      omega
    obtain ⟨present, hg⟩ := Option.ne_none_iff_exists'.mp hp
    obtain ⟨entry, he, hk, -⟩ := HashMap.get_eq_some_iff.mp hg
    rw [HashMap.length_insert_of_contains assembly (mem_map.mpr ⟨entry, he, hk⟩)]
    exact h.count
  rw [HashMap.get_insert] at hg
  split at hg
  · rename_i hs
    obtain rfl : other = clientId := hs
    cases hg
    exact ha
  · exact h.each other held hg

lemma Sound.prepare (h : Sound crates history a) (hs : metadata.messageSizeBytes ≤ reassembledMaxBytes) :
    Sound crates history (a.prepare clientId streamId order metadata now) := by
  have hn : AssemblySound crates history clientId (newAssembly streamId metadata now) :=
    ⟨collected_nil, Nat.zero_le _, hs⟩
  unfold Assemblies.prepare
  cases hg : a.get clientId with
  | some assembly => ?_
  | none => exact (h.evict order).insert (.inl (length_evict order a)) hn
  dsimp only
  split
  · exact h.insert (.inr (by simp [hg])) hn
  · exact h

lemma streamId_of_prepare (h : (a.prepare clientId streamId order metadata now).get clientId = some assembly) :
    assembly.streamId = streamId := by
  unfold Assemblies.prepare at h
  cases hg : a.get clientId with
  | some present => ?_
  | none =>
    rw [hg] at h
    rw [HashMap.get_insert, if_pos rfl] at h
    cases h
    rfl
  rw [hg] at h
  dsimp only at h
  split at h
  · rw [HashMap.get_insert, if_pos rfl] at h
    cases h
    rfl
  rename_i hs
  rw [hg] at h
  cases h
  exact not_not.mp hs

lemma update_cases (h : update crates assembly metadata segmentId chunk now = (held, result)) :
    (held = assembly ∧ ∀ message, result ≠ .complete message) ∨
    (assembly.metadata = metadata ∧ segmentId = assembly.nextSegmentId ∧ ∃ bytes, crates.decode chunk = some bytes ∧
      assembly.raw.length + bytes.length ≤ metadata.messageSizeBytes ∧
      held = { assembly with
        raw := assembly.raw ++ bytes, nextSegmentId := assembly.nextSegmentId + 1, lastChunkSeenAt := now } ∧
      ∀ message, result = .complete message → metadata.segmentCount ≤ assembly.nextSegmentId + 1 ∧
        (assembly.raw ++ bytes).length = metadata.messageSizeBytes ∧
        crates.fromSlice (assembly.raw ++ bytes) = some message) := by
  unfold update at h
  split at h
  · cases h
    exact .inl ⟨rfl, by simp⟩
  split at h
  · cases h
    exact .inl ⟨rfl, by simp⟩
  rename_i hm
  split at h
  · cases h
    exact .inl ⟨rfl, by simp⟩
  split at h
  · cases h
    exact .inl ⟨rfl, by simp⟩
  rename_i hs
  unfold addChunk at h
  split at h
  · cases h
    exact .inl ⟨rfl, by simp⟩
  rename_i bytes hd
  split at h
  · cases h
    exact .inl ⟨rfl, by simp⟩
  refine .inr ⟨not_not.mp hm, not_not.mp hs, bytes, hd, by omega, ?_⟩
  dsimp only at h
  split at h
  · cases h
    exact ⟨rfl, by simp⟩
  split at h
  · cases h
    exact ⟨rfl, by simp⟩
  rename_i hl
  split at h
  · rename_i hme
    cases h
    refine ⟨rfl, fun other heq => ?_⟩
    obtain rfl := AssemblyUpdate.complete.inj heq
    exact ⟨by omega, not_not.mp hl, hme⟩
  · cases h
    exact ⟨rfl, by simp⟩

/-- The message forwarded for the envelope is made of the segments `0..n-1` of one message, and has its declared size. -/
def Reassembled (crates : MessageCrates M) (history : List (ClientEnvelope M)) (envelope out : ClientEnvelope M) :
    Prop :=
  ∃ streamId metadata segmentId chunk raw message, envelope.streamId = some streamId ∧
    envelope.seqId = some metadata.seqId ∧
    envelope.event = .clientMessageChunk segmentId metadata.segmentCount metadata.messageSizeBytes chunk ∧
    Collected crates history envelope.clientId streamId metadata metadata.segmentCount raw ∧
    raw.length = metadata.messageSizeBytes ∧ crates.fromSlice raw = some message ∧
    out = { envelope with event := .clientMessage message }

lemma isValidChunk_iff (h : isValidChunk segmentId metadata chunk) :
    segmentId < metadata.segmentCount ∧ metadata.messageSizeBytes ≤ reassembledMaxBytes := by
  simp only [isValidChunk, Bool.and_eq_true, decide_eq_true_eq] at h
  exact ⟨h.1.1.1.2, h.1.2⟩

lemma observeChunk_sound (h : Sound crates history a) (hs : envelope.streamId = some streamId)
    (hseq : envelope.seqId = some metadata.seqId)
    (he : envelope.event = .clientMessageChunk segmentId metadata.segmentCount metadata.messageSizeBytes chunk) :
    Sound crates (history ++ [envelope]) (observeChunk crates a envelope streamId metadata segmentId chunk now).1 ∧
      ∀ out, (observeChunk crates a envelope streamId metadata segmentId chunk now).2 = .forward out →
        Reassembled crates (history ++ [envelope]) envelope out := by
  unfold observeChunk
  split
  · exact ⟨h.concat, by simp⟩
  split
  · exact ⟨h.concat.removeAssembly _ _, by simp⟩
  rename_i hv
  obtain ⟨hsl, hsiz⟩ := isValidChunk_iff (by simpa using hv)
  have hp : Sound crates history (a.prepare envelope.clientId streamId (crates.order now) metadata now) := h.prepare hsiz
  dsimp only
  split
  · exact ⟨hp.concat, by simp⟩
  rename_i assembly ha
  have hsi := streamId_of_prepare ha
  have ho := hp.each envelope.clientId assembly ha
  rcases hu : update crates assembly metadata segmentId chunk now with ⟨next, result⟩
  -- the assembly after the chunk is sound, whatever becomes of it then
  have hn : AssemblySound crates (history ++ [envelope]) envelope.clientId next ∧
      ∀ message, result = .complete message →
        Reassembled crates (history ++ [envelope]) envelope { envelope with event := .clientMessage message } := by
    rcases update_cases hu with ⟨rfl, hinc⟩ | ⟨hm, hid, bytes, hd, hr, rfl, hco⟩
    · exact ⟨⟨ho.collected.concat, ho.within, ho.bounded⟩, fun message heq => absurd heq (hinc message)⟩
    have hse : IsSegment crates envelope.clientId assembly.streamId assembly.metadata assembly.nextSegmentId
        (envelope, bytes) := by
      rw [hsi, hm, ← hid]
      exact ⟨rfl, hs, hseq, chunk, he, hd⟩
    have hc := ho.collected.add hse
    refine ⟨⟨hc, ?_, ho.bounded⟩, fun message heq => ?_⟩
    · rw [hm]
      simpa using hr
    obtain ⟨hcou, hl, hme⟩ := hco message heq
    rw [hsi, hm] at hc
    have hal : assembly.nextSegmentId + 1 = metadata.segmentCount := by omega
    rw [hal] at hc
    exact ⟨streamId, metadata, segmentId, chunk, _, message, hs, hseq, he, hc, hl, hme,
      rfl⟩
  have hi : Sound crates (history ++ [envelope])
      ((a.prepare envelope.clientId streamId (crates.order now) metadata now).insert envelope.clientId next) :=
    hp.concat.insert (.inr (by simp [ha])) hn.1
  cases result with
  | pending | ignore => exact ⟨hi, by simp⟩
  | drop => exact ⟨hi.removeAssembly _ _, by simp⟩
  | complete message => ?_
  refine ⟨hi.removeAssembly _ _, fun out hou => ?_⟩
  rw [← Observation.forward.inj hou]
  exact hn.2 message rfl

lemma observe_sound (h : Sound crates history a) : Sound crates (history ++ [envelope])
    (observe crates a envelope now).1 := by
  unfold observe
  split
  · split
    · exact (observeChunk_sound h (by assumption) (by assumption) (by assumption)).1
    · exact h.concat
  · exact h.concat

/-! ## Runs -/

/-- What happens to the reassembler: envelopes, and the ends of streams and clients. -/
inductive SegmentOp (M : Type) where
  | observe (envelope : ClientEnvelope M) (now : Nat)
  | invalidateStream (clientId streamId : Text)
  | invalidateClient (clientId : Text)

def segmentStep (crates : MessageCrates M) (a : Assemblies) : SegmentOp M → Assemblies
  | .observe envelope now => (observe crates a envelope now).1
  | .invalidateStream clientId streamId => a.removeAssembly clientId streamId
  | .invalidateClient clientId => a.remove clientId

def SegmentOp.envelope? : SegmentOp M → Option (ClientEnvelope M)
  | .observe envelope _ => some envelope
  | _ => none

def segmentRun (crates : MessageCrates M) (ops : List (SegmentOp M)) : Assemblies := ops.foldl (segmentStep crates) {}

lemma segmentRun_sound (ops : List (SegmentOp M)) :
    Sound crates (ops.filterMap SegmentOp.envelope?) (segmentRun crates ops) := by
  induction ops using reverseRecOn with
  | nil => exact ⟨Nat.zero_le _, fun clientId assembly h => absurd h (by simp [segmentRun, HashMap.get])⟩
  | append_singleton ops op ih => ?_
  unfold segmentRun at *
  rw [foldl_append, filterMap_append]
  cases op with
  | observe envelope now => exact observe_sound ih
  | invalidateStream clientId streamId =>
    rw [filterMap_cons_none rfl, filterMap_nil, append_nil]
    exact ih.removeAssembly clientId streamId
  | invalidateClient clientId =>
    rw [filterMap_cons_none rfl, filterMap_nil, append_nil]
    exact ih.remove clientId

/-- A chunk that completes a message forwards the segments of that one message. -/
theorem reassembled_from_one_message (crates : MessageCrates M) (ops : List (SegmentOp M))
    (envelope : ClientEnvelope M) (now : Nat) :
    (∀ segmentId count size chunk out, envelope.event = .clientMessageChunk segmentId count size chunk →
      (observe crates (segmentRun crates ops) envelope now).2 = .forward out →
      Reassembled crates (ops.filterMap SegmentOp.envelope? ++ [envelope]) envelope out) ∧
    (segmentRun crates ops).entries.length ≤ 128 ∧
    ∀ clientId assembly, (segmentRun crates ops).get clientId = some assembly →
      assembly.raw.length ≤ assembly.metadata.messageSizeBytes ∧
      assembly.metadata.messageSizeBytes ≤ 100 * 1024 * 1024 := by
  have hs := @segmentRun_sound M crates ops
  refine ⟨?_, hs.count, fun clientId assembly hg => ?_⟩
  · intro segmentId count size chunk out hc hf
    unfold observe at hf
    split at hf
    · split at hf
      · exact (observeChunk_sound hs (by assumption) (by assumption) (by assumption)).2 out hf
      · simp at hf
    · rename_i ho
      exact absurd hc (ho segmentId count size chunk)
  · exact ⟨(hs.each clientId assembly hg).within, (hs.each clientId assembly hg).bounded⟩

end Codex.RemoteControl
