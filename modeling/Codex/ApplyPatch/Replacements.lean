import Codex.ApplyPatch.FileUpdate
import Codex.ApplyPatch.Written

/-!
# Replacements are in order

`compute_replacements` and `apply_replacements` once more, with every subtraction and slice checked: `none` is a
panic.
-/

namespace Codex.ApplyPatch

open Codex.Text Codex.Result List

/-! ## With panics -/

def checkedSub (a b : Nat) : Option Nat := if b ≤ a then some (a - b) else none

/-- `xs[a..b]`. -/
def slice (xs : List Text) (a b : Nat) : Option (List Text) :=
  if a ≤ b ∧ b ≤ xs.length then some ((xs.take b).drop a) else none

def contextReplacementsChecked (startIdx : Nat) (pattern newSlice : List Text) :
    List (Nat × Nat) → Nat → Nat → Option (List Replacement × Nat × Nat)
  | [], oldStart, newStart => some ([], oldStart, newStart)
  | (oldContext, newContext) :: rest, oldStart, newStart =>
    if pattern.length ≤ oldContext || newSlice.length ≤ newContext then some ([], oldStart, newStart)
    else if oldStart ≠ oldContext || newStart ≠ newContext then do
      let oldLen ← checkedSub oldContext oldStart
      let newLines ← slice newSlice newStart newContext
      let (replacements, last) ←
        contextReplacementsChecked startIdx pattern newSlice rest (oldContext + 1) (newContext + 1)
      return ((startIdx + oldStart, oldLen, newLines) :: replacements, last)
    else contextReplacementsChecked startIdx pattern newSlice rest (oldContext + 1) (newContext + 1)

def chunkReplacementsChecked (startIdx : Nat) (pattern newSlice : List Text) (indices : List (Nat × Nat)) :
    Option (List Replacement) := do
  let (replacements, oldStart, newStart) ← contextReplacementsChecked startIdx pattern newSlice indices 0 0
  if oldStart ≠ pattern.length || newStart ≠ newSlice.length then
    let oldLen ← checkedSub pattern.length oldStart
    let newLines ← slice newSlice newStart newSlice.length
    return replacements ++ [(startIdx + oldStart, oldLen, newLines)]
  else return replacements

/-- `ls[..ls.len() - 1]`, where the last line is empty. -/
def withoutTrailingEmptyChecked (ls : List Text) : Option (List Text) :=
  if ls.getLast?.any isEmpty then (checkedSub ls.length 1).bind (slice ls 0) else some ls

def findChunkChecked (originalLines : List Text) (lineIndex : Nat) (chunk : UpdateFileChunk) :
    Option (Option (Nat × List Text × List Text)) :=
  match seekSequence originalLines chunk.oldLines lineIndex chunk.isEndOfFile with
  | some idx => some (some (idx, chunk.oldLines, chunk.newLines))
  | none =>
    if chunk.oldLines.getLast?.any isEmpty then do
      let pattern ← withoutTrailingEmptyChecked chunk.oldLines
      let newSlice ← withoutTrailingEmptyChecked chunk.newLines
      return (seekSequence originalLines pattern lineIndex chunk.isEndOfFile).map (·, pattern, newSlice)
    else some none

def replaceChunkChecked (originalLines : List Text) (path : Text) (st : List Replacement × Nat)
    (chunk : UpdateFileChunk) : ExceptT Text Option (List Replacement × Nat) := do
  let lineIndex ← ExceptT.mk (some (seekContext originalLines path st.2 chunk))
  if chunk.oldLines.isEmpty then
    return (st.1 ++ [(originalLines.length, 0, chunk.newLines)], lineIndex)
  else match ← ExceptT.lift (findChunkChecked originalLines lineIndex chunk) with
    | some (startIdx, pattern, newSlice) =>
      let replacements ←
        ExceptT.lift (chunkReplacementsChecked startIdx pattern newSlice chunk.contextLineIndices)
      return (st.1 ++ replacements, startIdx + pattern.length)
    | none => throw (linesNotFoundMessage path chunk.oldLines)

def computeReplacementsChecked (originalLines : List Text) (path : Text) (chunks : List UpdateFileChunk) :
    ExceptT Text Option (List Replacement) := do
  let (replacements, _) ← chunks.foldlM (replaceChunkChecked originalLines path) ([], 0)
  return replacements.insertionSort fun a b => a.1 ≤ b.1

/-- With the `debug_assert` that no replacement starts before the one before it ends. -/
def SourceFile.applyReplacementsChecked (f : SourceFile) (replacements : List Replacement) :
    Option SourceFile := do
  let _ ← replacements.foldlM (fun sourceIndex r => do
    let _ ← checkedSub r.1 sourceIndex
    return r.1 + r.2.1) 0
  return f.applyReplacements replacements

/-! ## One chunk -/

abbrev Increase (indices : List (Nat × Nat)) : Prop := indices.Pairwise fun a b => a.1 < b.1 ∧ a.2 < b.2

/-- Each replacement ends before the next one starts. -/
abbrev Apart (rs : List Replacement) : Prop := rs.Pairwise fun a b => a.1 + a.2.1 ≤ b.1

structure Within (lo hi : Nat) (rs : List Replacement) : Prop where
  apart : Apart rs
  bounds : ∀ r ∈ rs, lo ≤ r.1 ∧ r.1 + r.2.1 ≤ hi

lemma Within.nil (lo hi : Nat) : Within lo hi [] := ⟨.nil, by simp⟩

lemma Within.append (hr : Within lo mid rs)
    (hs : Within mid hi ss) (hlo : lo ≤ mid) (hhi : mid ≤ hi) : Within lo hi (rs ++ ss) := by
  refine ⟨pairwise_append.mpr ⟨hr.apart, hs.apart, fun a ha b hb => ?_⟩, fun r hm => ?_⟩
  · exact (hr.bounds a ha).2.trans (hs.bounds b hb).1
  rcases mem_append.mp hm with h | h
  · exact ⟨(hr.bounds r h).1, (hr.bounds r h).2.trans hhi⟩
  · exact ⟨hlo.trans (hs.bounds r h).1, (hs.bounds r h).2⟩

lemma Within.single (ls : List Text) (h : lo + n ≤ hi) : Within lo hi [(lo, n, ls)] :=
  ⟨pairwise_singleton _ _, by simpa using h⟩

section Chunk

variable {startIdx : Nat} {pattern newSlice : List Text} {indices : List (Nat × Nat)}

lemma contextReplacements_within {old new : Nat} (hi : Increase indices)
    (hfr : ∀ c ∈ indices, old ≤ c.1 ∧ new ≤ c.2) (hol : old ≤ pattern.length) (hnew : new ≤ newSlice.length) :
    ∃ rs o n, contextReplacements startIdx pattern newSlice indices old new = (rs, o, n) ∧
      contextReplacementsChecked startIdx pattern newSlice indices old new = some (rs, o, n) ∧
      Within (startIdx + old) (startIdx + o) rs ∧ old ≤ o ∧ o ≤ pattern.length ∧ n ≤ newSlice.length := by
  induction indices generalizing old new with
  | nil => exact ⟨[], old, new, rfl, rfl, .nil _ _, le_rfl, hol, hnew⟩
  | cons c rest ih => ?_
  obtain ⟨oldContext, newContext⟩ := c
  obtain ⟨hnex, hre⟩ := pairwise_cons.mp hi
  obtain ⟨hlo, hln⟩ := hfr _ mem_cons_self
  simp only [contextReplacements, contextReplacementsChecked]
  split_ifs with hb hcha
  · exact ⟨[], old, new, rfl, rfl, .nil _ _, le_rfl, hol, hnew⟩
  all_goals
    simp only [Bool.or_eq_true, decide_eq_true_eq, not_or, not_le] at hb
    obtain ⟨rs, o, n, hru, hch, hw, _, ho, hn⟩ :=
      ih hre (fun c hc => hnex c hc) hb.1 hb.2
  · refine ⟨(startIdx + old, oldContext - old, (newSlice.take newContext).drop new) :: rs, o, n, by rw [hru],
      ?_, ?_, by omega, ho, hn⟩
    · simp [hch, checkedSub, slice, hlo, hln, hb.2.le]
    · have hl : startIdx + (oldContext + 1) ≤ startIdx + o := by omega
      have hf : Within (startIdx + old) (startIdx + (oldContext + 1))
          [(startIdx + old, oldContext - old, (newSlice.take newContext).drop new)] :=
        .single _ (by omega)
      exact hf.append hw (by omega) hl
  · refine ⟨rs, o, n, hru, hch, ⟨hw.apart, fun r hr => ?_⟩, by omega, ho, hn⟩
    have := hw.bounds r hr
    omega

lemma chunkReplacements_within (hi : Increase indices) :
    chunkReplacementsChecked startIdx pattern newSlice indices =
        some (chunkReplacements startIdx pattern newSlice indices) ∧
      Within startIdx (startIdx + pattern.length) (chunkReplacements startIdx pattern newSlice indices) := by
  obtain ⟨_, o, n, hru, hc, hw, _, ho, hn⟩ :=
    @contextReplacements_within startIdx pattern newSlice _ 0 0 hi (fun _ _ => ⟨Nat.zero_le _, Nat.zero_le _⟩)
      (Nat.zero_le _) (Nat.zero_le _)
  have hre : Within (startIdx + o) (startIdx + pattern.length)
      [(startIdx + o, pattern.length - o, newSlice.drop n)] := .single _ (by omega)
  simp only [chunkReplacements, chunkReplacementsChecked, hru, hc, Option.bind_eq_bind, Option.bind_some]
  split_ifs with hch
  · refine ⟨?_, hw.append hre (by omega) (by omega)⟩
    simp [checkedSub, slice, ho, hn]
  refine ⟨rfl, hw.apart, fun r hr => ?_⟩
  have := hw.bounds r hr
  omega

end Chunk

lemma withoutTrailingEmptyChecked_eq (ls : List Text) :
    withoutTrailingEmptyChecked ls = some (withoutTrailingEmpty ls) := by
  unfold withoutTrailingEmptyChecked withoutTrailingEmpty
  split_ifs with hl
  · have hp : 1 ≤ ls.length := by
      cases ls with
      | nil => simp at hl
      | cons l ls => simp
    simp [checkedSub, slice, hp, dropLast_eq_take]
  · rfl

lemma findChunkChecked_eq (originalLines : List Text) (lineIndex : Nat) (chunk : UpdateFileChunk) :
    findChunkChecked originalLines lineIndex chunk = some (findChunk originalLines lineIndex chunk) := by
  cases hs : seekSequence originalLines chunk.oldLines lineIndex chunk.isEndOfFile with
  | some idx => simp only [findChunkChecked, findChunk, hs]
  | none => ?_
  simp only [findChunkChecked, findChunk, hs]
  split_ifs with hl
  · simp [withoutTrailingEmptyChecked_eq, withoutTrailingEmpty, hl]
  · rfl

lemma findChunk_bounds (hne : chunk.oldLines ≠ []) (hi : lineIndex ≤ originalLines.length)
    (h : findChunk originalLines lineIndex chunk = some (startIdx, pattern, newSlice)) :
    lineIndex ≤ startIdx ∧ startIdx + pattern.length ≤ originalLines.length := by
  unfold findChunk at h
  split at h
  · rename_i hf
    obtain ⟨rfl, rfl, rfl⟩ := h
    exact seekSequence_bounds hne hf
  split_ifs at h
  simp only [Option.map_eq_some_iff, Prod.mk.injEq] at h
  obtain ⟨idx, hf, rfl, rfl, rfl⟩ := h
  by_cases he : chunk.oldLines.dropLast = []
  · rw [he] at hf ⊢
    obtain rfl : lineIndex = idx := by simpa [seekSequence] using hf
    exact ⟨le_rfl, hi⟩
  · exact seekSequence_bounds he hf

/-! ## All chunks -/

/-- What is in order so far: chunks without old lines go to the end of the file, the others come one
after the other, up to the line index. -/
structure InOrder (size : Nat) (st : List Replacement × Nat) : Prop where
  index_le : st.2 ≤ size
  bounds : ∀ r ∈ st.1, r.1 + r.2.1 ≤ size
  before : ∀ r ∈ st.1, r.1 + r.2.1 ≤ st.2 ∨ r.1 = size ∧ r.2.1 = 0
  apart : st.1.Pairwise fun a b => a.1 + a.2.1 ≤ b.1 ∨ a.1 = size ∧ a.2.1 = 0

lemma InOrder.append (h : InOrder size st) (hi : st.2 ≤ index) (hs : index ≤ size)
    (hrs : Within st.2 index rs ∨ ∃ ls, rs = [(size, 0, ls)]) : InOrder size (st.1 ++ rs, index) := by
  have hn : ∀ r ∈ rs, st.2 ≤ r.1 ∧ r.1 + r.2.1 ≤ size ∧ (r.1 + r.2.1 ≤ index ∨ r.1 = size ∧ r.2.1 = 0) := by
    intro r hr
    rcases hrs with hrs | ⟨ls, rfl⟩
    · have := hrs.bounds r hr
      omega
    · obtain rfl := mem_singleton.mp hr
      exact ⟨h.index_le, le_rfl, .inr ⟨rfl, rfl⟩⟩
  refine ⟨hs, fun r hr => ?_, fun r hr => ?_, pairwise_append.mpr ⟨h.apart, ?_, fun a ha b hb => ?_⟩⟩
  · rcases mem_append.mp hr with hr | hr
    · exact h.bounds r hr
    · exact (hn r hr).2.1
  · rcases mem_append.mp hr with hr | hr
    · exact (h.before r hr).imp_left fun hle => hle.trans hi
    · exact (hn r hr).2.2
  · rcases hrs with hrs | ⟨ls, rfl⟩
    · exact hrs.apart.imp fun hle => .inl hle
    · exact pairwise_singleton _ _
  · exact (h.before a ha).imp_left fun hle => hle.trans (hn b hb).1

lemma orderedInsert_apart (hrs : Apart rs) (hbo : ∀ r ∈ rs, r.1 + r.2.1 ≤ size)
    (ha : ∀ r ∈ rs, a.1 + a.2.1 ≤ r.1 ∨ a.1 = size ∧ a.2.1 = 0) :
    Apart (rs.orderedInsert (fun a b => a.1 ≤ b.1) a) := by
  induction rs with
  | nil => exact pairwise_singleton _ _
  | cons b rs ih => ?_
  obtain ⟨hb, hrs'⟩ := pairwise_cons.mp hrs
  rw [orderedInsert_cons]
  split_ifs with hle
  · refine .cons (fun c hc => ?_) hrs
    rcases mem_cons.mp hc with rfl | hm
    · have := ha c hc
      omega
    have := ha c hc
    have := hb c hm
    omega
  refine .cons (fun c hc => ?_) (ih hrs' (fun r hr => hbo r (by simp [hr])) fun r hr => ha r (by simp [hr]))
  rcases (mem_orderedInsert _).mp hc with rfl | hm
  · have := ha b (by simp)
    have := hbo b (by simp)
    omega
  · exact hb c hm

lemma insertionSort_apart {rs : List Replacement} (hb : ∀ r ∈ rs, r.1 + r.2.1 ≤ size)
    (hap : rs.Pairwise fun a b => a.1 + a.2.1 ≤ b.1 ∨ a.1 = size ∧ a.2.1 = 0) :
    Apart (rs.insertionSort fun a b => a.1 ≤ b.1) := by
  induction rs with
  | nil => exact .nil
  | cons a rs ih => ?_
  obtain ⟨ha, hrs⟩ := pairwise_cons.mp hap
  have hm : ∀ r, r ∈ rs.insertionSort (fun a b => a.1 ≤ b.1) → r ∈ rs :=
    fun r hr => (perm_insertionSort _ rs).mem_iff.mp hr
  exact orderedInsert_apart (ih (fun r hr => hb r (by simp [hr])) hrs)
    (fun r hr => hb r (by simp [hm r hr])) fun r hr => ha r (hm r hr)

section Run

variable {originalLines : List Text} {path : Text} {chunk : UpdateFileChunk} {chunks : List UpdateFileChunk}

lemma seekContext_bounds (hi : lineIndex ≤ originalLines.length)
    (h : seekContext originalLines path lineIndex chunk = .ok index) :
    lineIndex ≤ index ∧ index ≤ originalLines.length := by
  unfold seekContext at h
  split at h
  · exact Except.ok.inj h ▸ ⟨le_rfl, hi⟩
  split at h
  · rename_i hf
    have := seekSequence_bounds (cons_ne_nil _ _) hf
    simp only [Except.ok.injEq, length_singleton] at h this
    omega
  · simp at h

lemma checked_ok_bind (a : α) (f : α → ExceptT Text Option β) :
    (ExceptT.mk (some (.ok a)) >>= f) = f a := rfl

lemma checked_some_bind (a : α) (f : α → ExceptT Text Option β) :
    (ExceptT.lift (some a) >>= f) = f a := rfl

lemma replaceChunkChecked_eq (st : List Replacement × Nat) (hi : Increase chunk.contextLineIndices) :
    replaceChunkChecked originalLines path st chunk =
      ExceptT.mk (some (replaceChunk originalLines path st chunk)) := by
  unfold replaceChunkChecked replaceChunk
  rcases hco : seekContext originalLines path st.2 chunk with e | lineIndex
  · rfl
  simp only [ok_bind, checked_ok_bind]
  cases he : chunk.oldLines.isEmpty with
  | true => rfl
  | false => ?_
  rw [findChunkChecked_eq, checked_some_bind]
  rcases hf : findChunk originalLines lineIndex chunk with _ | found
  · rfl
  obtain ⟨startIdx, pattern, newSlice⟩ := found
  have hc := (@chunkReplacements_within startIdx pattern newSlice _ hi).1
  simp only [hc]
  rfl

lemma replaceChunk_inOrder {st next : List Replacement × Nat} (hi : Increase chunk.contextLineIndices)
    (h : InOrder originalLines.length st) (hn : replaceChunk originalLines path st chunk = .ok next) :
    InOrder originalLines.length next := by
  obtain ⟨lineIndex, hc, hn⟩ := bind_eq_ok.mp hn
  obtain ⟨hle, hs⟩ := seekContext_bounds h.index_le hc
  split at hn
  · exact Except.ok.inj hn ▸ h.append hle hs (.inr ⟨_, rfl⟩)
  rename_i hne
  split at hn
  · rename_i startIdx pattern newSlice hf
    obtain ⟨hst, he⟩ := findChunk_bounds (by simpa using hne) hs hf
    have hw := (@chunkReplacements_within startIdx pattern newSlice _ hi).2
    refine Except.ok.inj hn ▸ h.append (by omega) he (.inl ⟨hw.apart, fun r hr => ?_⟩)
    have := hw.bounds r hr
    omega
  · simp at hn

lemma computeReplacements_apart (hc : StreamingPatchParser.AllWritten chunks)
    (h : computeReplacements originalLines path chunks = .ok rs) :
    Apart rs ∧ ∀ r ∈ rs, r.1 + r.2.1 ≤ originalLines.length := by
  obtain ⟨st, hru, h⟩ := bind_eq_ok.mp h
  cases h
  have hs : InOrder originalLines.length ([], 0) := ⟨Nat.zero_le _, by simp, by simp, .nil⟩
  have he := foldlM_invariant (InOrder originalLines.length) hru hs fun st chunk next hm hst hn => by
    obtain ⟨ls, hls⟩ := hc chunk hm
    exact replaceChunk_inOrder (hls.contexts ▸ ChunkLine.contexts_increase 0 0 ls) hst hn
  exact ⟨insertionSort_apart he.bounds he.apart, fun r hr => he.bounds r ((perm_insertionSort _ _).mem_iff.mp hr)⟩

lemma computeReplacementsChecked_eq (hch : StreamingPatchParser.AllWritten chunks) :
    computeReplacementsChecked originalLines path chunks =
      ExceptT.mk (some (computeReplacements originalLines path chunks)) := by
  have hr : ∀ st, chunks.foldlM (replaceChunkChecked originalLines path) st =
      ExceptT.mk (some (chunks.foldlM (replaceChunk originalLines path) st)) := by
    induction chunks with
    | nil => exact fun st => rfl
    | cons chunk rest ih => ?_
    intro st
    obtain ⟨ls, hls⟩ := hch chunk (by simp)
    rw [foldlM_cons, foldlM_cons,
      replaceChunkChecked_eq st (hls.contexts ▸ ChunkLine.contexts_increase 0 0 ls)]
    cases hs : replaceChunk originalLines path st chunk with
    | error e => rfl
    | ok next => exact ih (fun c hc => hch c (by simp [hc])) next
  unfold computeReplacementsChecked computeReplacements
  rw [hr]
  cases chunks.foldlM (replaceChunk originalLines path) ([], 0) <;> rfl

end Run

lemma applyReplacementsChecked_eq (f : SourceFile) (h : Apart rs) :
    f.applyReplacementsChecked rs = some (f.applyReplacements rs) := by
  have hru : ∀ index, (∀ r ∈ rs, index ≤ r.1) → ∃ last, rs.foldlM (fun sourceIndex r => do
      let _ ← checkedSub r.1 sourceIndex
      return r.1 + r.2.1) index = some last := by
    induction rs with
    | nil => exact fun index _ => ⟨index, rfl⟩
    | cons r rest ih => ?_
    intro index hi
    obtain ⟨hr, hre⟩ := pairwise_cons.mp h
    obtain ⟨last, hl⟩ := ih hre _ hr
    exact ⟨last, by simpa [checkedSub, hi r (by simp)] using hl⟩
  obtain ⟨last, hl⟩ := hru 0 fun r _ => Nat.zero_le _
  simp only [SourceFile.applyReplacementsChecked, hl]
  rfl

/-- **No panic, and replacements in order.** -/
theorem replacements_wellFormed (chunks : List UpdateFileChunk) (h : StreamingPatchParser.Produces chunks)
    (originalLines : List Text) (path : Text) :
    (computeReplacementsChecked originalLines path chunks).run = some (computeReplacements originalLines path chunks) ∧
      ∀ rs, computeReplacements originalLines path chunks = .ok rs →
        (rs.Pairwise fun a b => a.1 ≤ b.1 ∧ a.1 + a.2.1 ≤ b.1) ∧
        (∀ r ∈ rs, r.1 + r.2.1 ≤ originalLines.length) ∧
        ∀ f : SourceFile, f.applyReplacementsChecked rs = some (f.applyReplacements rs) := by
  refine ⟨computeReplacementsChecked_eq h.allWritten, fun rs hrs => ?_⟩
  obtain ⟨ha, hb⟩ := computeReplacements_apart h.allWritten hrs
  refine ⟨ha.imp fun hle => ?_, hb, fun f => applyReplacementsChecked_eq f ha⟩
  omega

def swapExample : Text := "*** Begin Patch\n*** Update File: a\n@@\n a\n-b\n+c\n*** End Patch\n"

def swapChunk : UpdateFileChunk where
  oldLines := ["a", "b"]
  newLines := ["a", "c"]
  contextLineIndices := [(0, 0)]

theorem replacements_wellFormed_swap : StreamingPatchParser.Produces [swapChunk] ∧
    (computeReplacementsChecked ["a", "b"] "a" [swapChunk]).run = some (.ok [(1, 1, ["c"])]) := by
  have h : StreamingPatchParser.Produces [swapChunk] :=
    ⟨swapExample, _, _, "a", none, rfl, .inl rfl, by decide⟩
  exact ⟨h, (replacements_wellFormed _ h ["a", "b"] "a").1.trans (by decide)⟩

end Codex.ApplyPatch
