import Codex.ApplyPatch.Agree

/-! # The old, new and context lines of a chunk are those of the patch's ` `, `-` and `+` lines -/

namespace Codex.ApplyPatch

open Codex.Text Codex.Result List

inductive ChunkLine where
  | context (text : Text)
  | removed (text : Text)
  | added (text : Text)
deriving DecidableEq

namespace ChunkLine

def oldText : ChunkLine → Option Text
  | context text | removed text => some text
  | added _ => none

def newText : ChunkLine → Option Text
  | context text | added text => some text
  | removed _ => none

def contexts (old new : Nat) : List ChunkLine → List (Nat × Nat)
  | [] => []
  | context _ :: ls => (old, new) :: contexts (old + 1) (new + 1) ls
  | removed _ :: ls => contexts (old + 1) new ls
  | added _ :: ls => contexts old (new + 1) ls

lemma contexts_append (old new : Nat) (ls ms : List ChunkLine) :
    contexts old new (ls ++ ms) = contexts old new ls ++
      contexts (old + (ls.filterMap oldText).length) (new + (ls.filterMap newText).length) ms := by
  induction ls generalizing old new with
  | nil => rfl
  | cons l ls ih =>
    cases l <;> simp [contexts, oldText, newText, filterMap_cons, ih, Nat.add_assoc, Nat.add_comm 1]

lemma le_of_mem_contexts {old new : Nat} (h : c ∈ contexts old new ls) : old ≤ c.1 ∧ new ≤ c.2 := by
  induction ls generalizing old new with
  | nil => simp [contexts] at h
  | cons l ls ih => ?_
  cases l with
  | context text => ?_
  | removed text | added text =>
    have := ih h
    omega
  rcases mem_cons.mp h with rfl | h
  · exact ⟨le_rfl, le_rfl⟩
  · have := ih h
    omega

lemma contexts_increase (old new : Nat) (ls : List ChunkLine) :
    (contexts old new ls).Pairwise fun a b => a.1 < b.1 ∧ a.2 < b.2 := by
  induction ls generalizing old new with
  | nil => exact .nil
  | cons l ls ih =>
    cases l with
    | context text => exact .cons (fun c hc => le_of_mem_contexts hc) (ih _ _)
    | removed text | added text => exact ih _ _

end ChunkLine

def UpdateFileChunk.push (chunk : UpdateFileChunk) : ChunkLine → UpdateFileChunk
  | .context text => chunk.pushContextLine text
  | .removed text => chunk.pushOldLine text
  | .added text => chunk.pushNewLine text

/-- The chunk that the lines of a patch spell. -/
structure UpdateFileChunk.Written (chunk : UpdateFileChunk) (ls : List ChunkLine) : Prop where
  old : chunk.oldLines = ls.filterMap ChunkLine.oldText
  new : chunk.newLines = ls.filterMap ChunkLine.newText
  contexts : chunk.contextLineIndices = ChunkLine.contexts 0 0 ls

namespace UpdateFileChunk.Written

variable {chunk : UpdateFileChunk} {ls : List ChunkLine}

lemma push (h : chunk.Written ls) (l : ChunkLine) : (chunk.push l).Written (ls ++ [l]) := by
  cases l <;> constructor <;>
    simp [UpdateFileChunk.push, pushContextLine, pushNewLine, pushOldLine, ChunkLine.contexts_append,
      ChunkLine.contexts, ChunkLine.oldText, ChunkLine.newText, h.old, h.new, h.contexts]

end UpdateFileChunk.Written

/-! ## What the parser produces -/

namespace StreamingPatchParser

def AllWritten (chunks : List UpdateFileChunk) : Prop := ∀ chunk ∈ chunks, ∃ ls, chunk.Written ls

variable {chunks : List UpdateFileChunk}

lemma AllWritten.concat {chunk : UpdateFileChunk} {ls : List ChunkLine} (h : AllWritten chunks)
    (hch : chunk.Written ls) : AllWritten (chunks ++ [chunk]) := by
  intro c hc
  rcases mem_append.mp hc with hc | hc
  · exact h c hc
  · exact mem_singleton.mp hc ▸ ⟨ls, hch⟩

lemma AllWritten.dropLast (h : AllWritten chunks) : AllWritten chunks.dropLast :=
  fun c hc => h c (dropLast_subset _ hc)

lemma AllWritten.onLastChunk (h : AllWritten chunks) (l : ChunkLine) :
    AllWritten (onLastChunk chunks (·.push l)) := by
  unfold StreamingPatchParser.onLastChunk
  split
  · have hf := @UpdateFileChunk.Written.push {} [] ⟨rfl, rfl, rfl⟩ l
    exact fun c hc => mem_singleton.mp hc ▸ ⟨_, hf⟩
  rename_i chunk hl
  obtain ⟨ls, hls⟩ := h chunk (mem_of_getLast? hl)
  exact h.dropLast.concat (hls.push l)

lemma Chunked.allWritten (hs : Chunked chunks line chunks')
    (h : AllWritten chunks) : AllWritten chunks' := by
  cases hs with
  | closedBlank => exact h
  | emptyHeader | header => exact @AllWritten.concat _ _ [] h ⟨rfl, rfl, rfl⟩
  | endOfFile => ?_
  | context text => exact h.onLastChunk (.context text)
  | added text => exact h.onLastChunk (.added text)
  | removed text => exact h.onLastChunk (.removed text)
  unfold markEndOfFile
  split
  · exact fun c hc => absurd hc (by simp)
  rename_i chunk hl
  obtain ⟨ls, hls⟩ := h chunk (mem_of_getLast? hl)
  exact h.dropLast.concat ⟨hls.old, hls.new, hls.contexts⟩

def KeepsLines (p : StreamingPatchParser) : Prop :=
  ∀ path movePath chunks, Hunk.updateFile path movePath chunks ∈ p.state.hunks → AllWritten chunks

lemma Processed.keepsLines (hs : Processed p line q)
    (h : p.KeepsLines) : q.KeepsLines := by
  intro path movePath chunks hm
  cases hs with
  | beginPatch | afterEnd => exact h _ _ _ hm
  | headed _ hq | headedInUpdate _ _ hq =>
    cases hq with
    | environmentId | endPatch => exact h _ _ _ hm
    | addFile | deleteFile => exact h path movePath chunks (by simpa using hm)
    | updateFile => ?_
    rcases mem_append.mp hm with hm | hm
    · exact h _ _ _ hm
    · simp only [mem_singleton, Hunk.updateFile.injEq] at hm
      exact hm.2.2 ▸ fun c hc => absurd hc (by simp)
  | addLine _ _ _ _ hl =>
    rcases mem_append.mp hm with hm | hm
    · exact h _ _ _ (dropLast_subset _ hm)
    · simp at hm
  | moveTo _ _ _ _ hl =>
    rcases mem_append.mp hm with hm | hm
    · exact h _ _ _ (dropLast_subset _ hm)
    · simp only [mem_singleton, Hunk.updateFile.injEq] at hm
      exact hm.2.2 ▸ h _ _ _ (mem_of_getLast? hl)
  | chunked _ _ _ _ _ _ hl hch =>
    rcases mem_append.mp hm with hm | hm
    · exact h _ _ _ (dropLast_subset _ hm)
    · simp only [mem_singleton, Hunk.updateFile.injEq] at hm
      exact hm.2.2 ▸ hch.allWritten (h _ _ _ (mem_of_getLast? hl))

lemma pushDelta_keepsLines (h : pushDelta {} text = .ok p) :
    p.KeepsLines := by
  refine foldlM_invariant KeepsLines h (fun _ _ _ hm => absurd hm (by simp)) fun p c q _ hp hq => ?_
  unfold pushChar at hq
  split at hq
  · exact (processed_of_ok hq).keepsLines hp
  · exact Except.ok.inj hq ▸ hp

/-- Chunks that the streaming parser makes of some text. -/
def Produces (chunks : List UpdateFileChunk) : Prop :=
  ∃ text p q path movePath, pushDelta {} text = .ok p ∧ (q = p ∨ p.finish = .ok q) ∧
    Hunk.updateFile path movePath chunks ∈ q.state.hunks

lemma Produces.allWritten (h : Produces chunks) : AllWritten chunks := by
  obtain ⟨_, p, q, _, _, hp, hq, hm⟩ := h
  rcases hq with rfl | hq
  · exact pushDelta_keepsLines hp _ _ _ hm
  · exact pushDelta_keepsLines hp _ _ _ ((finish_hunks hq).1 ▸ hm)

end StreamingPatchParser

end Codex.ApplyPatch
