import Codex.ApplyPatch.Replacements

/-!
# What an update leaves alone

Only lines that a `-` line matched are gone and only `+` lines are new, as long as no chunk that is searched for
again needs the empty line that the second search takes off its end as context.
-/

namespace Codex.ApplyPatch

open Codex.Text Codex.Result ChunkLine List

/-! ## Edits of a list of lines -/

/-- Whether a line is removed, and what is inserted before it. -/
abbrev Edit := Bool × List Text

def Edit.both (e e' : Edit) : Edit := (e.1 || e'.1, e.2 ++ e'.2)

def insertedLines (ending : LineEnding) (texts : List Text) : List SourceLine :=
  texts.map fun text => { text, ending := some ending }

def edited (ending : LineEnding) (edit : Nat → Edit) : Nat → List SourceLine → List SourceLine
  | i, [] => insertedLines ending (edit i).2
  | i, line :: rest =>
    insertedLines ending (edit i).2 ++ (if (edit i).1 then [] else [line]) ++ edited ending edit (i + 1) rest

section Edited

variable {ending : LineEnding} {edit edit' : Nat → Edit} {i n : Nat} {src : List SourceLine}

lemma edited_congr (h : ∀ j, i ≤ j → edit j = edit' j) :
    edited ending edit i src = edited ending edit' i src := by
  induction src generalizing i with
  | nil => simp [edited, h i le_rfl]
  | cons line rest ih =>
    have hr := @ih (i + 1) fun j hj => h j (by omega)
    simp [edited, h i le_rfl, hr]

lemma edited_run {all : Bool} (h : ∀ j, i ≤ j → j < i + n → edit j = (all, [])) (hn : n ≤ src.length) :
    edited ending edit i src =
      (if all then [] else src.take n) ++ edited ending edit (i + n) (src.drop n) := by
  induction n generalizing i src with
  | zero => simp
  | succ n ih => ?_
  rcases src with _ | ⟨line, rest⟩
  · simp at hn
  have hr := @ih (i + 1) rest (fun j hj hlt => h j (by omega) (by omega)) (by simpa using hn)
  rw [edited, h i le_rfl (by omega), hr, drop_succ_cons, Nat.add_right_comm]
  cases all <;> simp [insertedLines, Nat.add_assoc]

lemma edited_insert (hi : edit' i = ((edit i).1, texts ++ (edit i).2)) (h : ∀ j, i < j → edit' j = edit j) :
    edited ending edit' i src = insertedLines ending texts ++ edited ending edit i src := by
  rcases src with _ | ⟨line, rest⟩
  · simp [edited, hi, insertedLines]
  have hr : edited ending edit' (i + 1) rest = edited ending edit (i + 1) rest :=
    edited_congr fun j hj => h j (by omega)
  simp [edited, hi, hr, insertedLines]

end Edited

/-! ## Replacements as edits -/

def Replacement.edit (r : Replacement) (i : Nat) : Edit :=
  (decide (r.1 ≤ i) && decide (i < r.1 + r.2.1), if r.1 = i then r.2.2 else [])

def edits {α : Type} (edit : α → Nat → Edit) (as : List α) (i : Nat) : Edit :=
  as.foldr (fun a => (edit a i).both) (false, [])

section Edits

variable {α : Type} {edit : α → Nat → Edit}

lemma edits_cons (a : α) (as : List α) (i : Nat) :
    edits edit (a :: as) i = (edit a i).both (edits edit as i) := rfl

lemma edits_append (as bs : List α) (i : Nat) :
    edits edit (as ++ bs) i = (edits edit as i).both (edits edit bs i) := by
  induction as with
  | nil => simp [edits, Edit.both]
  | cons a as ih => simp [edits_cons, ih, Edit.both, Bool.or_assoc]

lemma edits_quiet (h : ∀ a ∈ as, edit a i = (false, [])) :
    edits edit as i = (false, []) := by
  induction as with
  | nil => rfl
  | cons a as ih => simp [edits_cons, h, ih fun b hb => h b (mem_cons_of_mem _ hb), Edit.both]

end Edits

lemma Replacement.edit_before (h : i < r.1) : Replacement.edit r i = (false, []) := by
  simp [Replacement.edit, h, h.ne']

lemma foldl_replaceStep {ending : LineEnding} {rs : List Replacement} {src acc : List SourceLine} {index : Nat}
    (hap : Apart rs) (hrs : ∀ r ∈ rs, index ≤ r.1 ∧ r.1 + r.2.1 ≤ index + src.length) :
    (rs.foldl (SourceFile.replaceStep ending) (src, index, acc)).2.2 ++
        (rs.foldl (SourceFile.replaceStep ending) (src, index, acc)).1 =
      acc ++ edited ending (edits Replacement.edit rs) index src := by
  induction rs generalizing src acc index with
  | nil =>
    have hal := @edited_run ending (edits Replacement.edit []) index src.length src false (fun _ _ _ => rfl) le_rfl
    simp [hal, edited, edits, insertedLines]
  | cons r rest ih => ?_
  obtain ⟨hn, hre⟩ := pairwise_cons.mp hap
  obtain ⟨hind, _⟩ := hrs r mem_cons_self
  have hl : ∀ j, j < r.1 + r.2.1 → edits Replacement.edit rest j = (false, []) := fun j hj =>
    edits_quiet fun s hs => Replacement.edit_before (hj.trans_le (hn s hs))
  have hq := @edited_run ending (edits Replacement.edit (r :: rest)) index (r.1 - index) src false
    (fun j hj hlt => by
      rw [edits_cons, Replacement.edit_before (by omega), hl j (by omega)]
      rfl) (by omega)
  -- the same line without what goes in before it
  let removing : Nat → Edit := fun j => ((edits Replacement.edit (r :: rest) j).1, (edits Replacement.edit rest j).2)
  have hi : edited ending (edits Replacement.edit (r :: rest)) r.1 (src.drop (r.1 - index)) =
      insertedLines ending r.2.2 ++ edited ending removing r.1 (src.drop (r.1 - index)) :=
    edited_insert (by simp [removing, edits_cons, Replacement.edit, Edit.both]) fun j hj => by
      simp [removing, edits_cons, Replacement.edit, Edit.both, hj.ne]
  have hr := @edited_run ending removing r.1 r.2.1 (src.drop (r.1 - index)) true
    (fun j hj hlt => by simp [removing, edits_cons, hl j hlt, Replacement.edit, Edit.both, hj, hlt])
    (by rw [length_drop]; omega)
  have ha : edited ending removing (r.1 + r.2.1) ((src.drop (r.1 - index)).drop r.2.1) =
      edited ending (edits Replacement.edit rest) (r.1 + r.2.1) ((src.drop (r.1 - index)).drop r.2.1) :=
    edited_congr fun j hj => by simp [removing, edits_cons, Replacement.edit, Edit.both, hj.not_gt]
  refine (ih hre fun s hs => ?_).trans ?_
  · have := hrs s (mem_cons_of_mem _ hs)
    have := hn s hs
    show r.1 + r.2.1 ≤ s.1 ∧ s.1 + s.2.1 ≤ r.1 + r.2.1 + ((src.drop (r.1 - index)).drop r.2.1).length
    simp only [length_drop]
    omega
  rw [Nat.add_sub_cancel' hind] at hq
  rw [hq, hi, hr, ha]
  simp [insertedLines]

lemma applyReplacements_lines (f : SourceFile) (hap : Apart rs) (hb : ∀ r ∈ rs, r.1 + r.2.1 ≤ f.lines.length) :
    (f.applyReplacements rs).lines = (edited f.preferredEnding (edits Replacement.edit rs) 0 f.lines).map fun line =>
      { line with ending := some (line.ending.getD f.preferredEnding) } := by
  have hru := @foldl_replaceStep f.preferredEnding rs f.lines [] 0 hap
    fun r hr => ⟨Nat.zero_le _, by simpa using hb r hr⟩
  rw [nil_append] at hru
  rw [SourceFile.applyReplacements, ← hru]

lemma edits_orderedInsert (a : Replacement) (rs : List Replacement) (i : Nat) :
    edits Replacement.edit (rs.orderedInsert (fun a b => a.1 ≤ b.1) a) i = edits Replacement.edit (a :: rs) i := by
  induction rs with
  | nil => rfl
  | cons b rs ih => ?_
  rw [orderedInsert_cons]
  split_ifs with hle
  · rfl
  rw [edits_cons, ih, edits_cons, edits_cons, edits_cons]
  by_cases hb : b.1 = i
  · have ha : a.1 ≠ i := by omega
    simp [Replacement.edit, Edit.both, ha, Bool.or_left_comm]
  · simp [Replacement.edit, Edit.both, hb, Bool.or_left_comm]

lemma edits_insertionSort (rs : List Replacement) (i : Nat) :
    edits Replacement.edit (rs.insertionSort fun a b => a.1 ≤ b.1) i = edits Replacement.edit rs i := by
  induction rs with
  | nil => rfl
  | cons a rs ih => rw [insertionSort_cons, edits_orderedInsert, edits_cons, edits_cons, ih]

/-! ## The lines of a chunk as edits -/

namespace ChunkLine

/-- The edits of a chunk found at `start`. A `+` line goes in at `gap`, after the last context line. -/
def edit (gap start : Nat) : List ChunkLine → Nat → Edit
  | [], _ => (false, [])
  | context _ :: ls, i => edit (start + 1) (start + 1) ls i
  | removed _ :: ls, i => Edit.both (decide (start = i), []) (edit gap (start + 1) ls i)
  | added text :: ls, i => Edit.both (false, if gap = i then [text] else []) (edit gap start ls i)

lemma contexts_append_plain (h : ∀ m ∈ ms, m.oldText = none ∨ m.newText = none)
    (old new : Nat) (ls : List ChunkLine) : contexts old new (ls ++ ms) = contexts old new ls := by
  have hn : ∀ old new, contexts old new ms = [] := by
    induction ms with
    | nil => exact fun _ _ => rfl
    | cons m ms ih => ?_
    have hms := ih fun l hl => h l (mem_cons_of_mem _ hl)
    cases m with
    | context text => simpa [oldText, newText] using h _ mem_cons_self
    | removed text | added text => exact fun _ _ => hms _ _
  rw [contexts_append, hn, append_nil]

lemma edit_of_added (h : ls.filterMap oldText = []) (gap start i : Nat) :
    edit gap start ls i = (false, if gap = i then ls.filterMap newText else []) := by
  induction ls with
  | nil => simp [edit]
  | cons l ls ih => ?_
  cases l with
  | context text | removed text => simp [oldText] at h
  | added text =>
    rw [edit, ih (by simpa [oldText] using h)]
    split_ifs <;> simp [newText, Edit.both]

end ChunkLine

section Chunk

variable {startIdx i : Nat} {pattern newSlice : List Text}

def chunkFrom (startIdx : Nat) (pattern newSlice : List Text) (indices : List (Nat × Nat)) (old new : Nat) :
    List Replacement :=
  let (rs, o, n) := contextReplacements startIdx pattern newSlice indices old new
  if o ≠ pattern.length || n ≠ newSlice.length then
    rs ++ [(startIdx + o, pattern.length - o, newSlice.drop n)]
  else rs

lemma chunkFrom_cons {oldContext newContext old new : Nat} (rest : List (Nat × Nat))
    (ho : oldContext < pattern.length) (hn : newContext < newSlice.length) :
    chunkFrom startIdx pattern newSlice ((oldContext, newContext) :: rest) old new =
      (if old ≠ oldContext || new ≠ newContext then
        [(startIdx + old, oldContext - old, (newSlice.take newContext).drop new)] else []) ++
        chunkFrom startIdx pattern newSlice rest (oldContext + 1) (newContext + 1) := by
  have hin : ¬ (pattern.length ≤ oldContext || newSlice.length ≤ newContext) := by simp [ho, hn]
  simp only [chunkFrom, contextReplacements]
  split_ifs <;> simp

lemma no_line (start : Nat) : (decide (start ≤ i) && decide (i < start)) = false := by
  simp only [Bool.and_eq_false_iff, decide_eq_false_iff_not]
  omega

lemma edits_of_pending {olds : List Text} {old : Nat} (ho : old ≤ olds.length) (before pending : List Text) :
    edits Replacement.edit (if old ≠ olds.length || before.length ≠ (before ++ pending).length then
        [(startIdx + old, olds.length - old, pending)] else []) i =
      (decide (startIdx + old ≤ i) && decide (i < startIdx + olds.length),
        if startIdx + old = i then pending else []) := by
  have he : startIdx + old + (olds.length - old) = startIdx + olds.length := by omega
  by_cases hc : (old ≠ olds.length || before.length ≠ (before ++ pending).length)
  · rw [if_pos hc]
    simp [edits, Edit.both, Replacement.edit, he]
  simp only [Bool.or_eq_true, decide_eq_true_eq, not_or, not_not, length_append] at hc
  have hn : pending = [] := eq_nil_of_length_eq_zero (Nat.left_eq_add.mp hc.2)
  simp [edits, hn, hc.1]

/-- `olds` and `before ++ pending` come before `ls`; `pending` was added since the last context line. -/
lemma edits_of_chunkFrom (ls : List ChunkLine) {olds before pending : List Text} {old : Nat}
    (ho : old ≤ olds.length) :
    edits Replacement.edit (chunkFrom startIdx (olds ++ ls.filterMap oldText)
        (before ++ pending ++ ls.filterMap newText) (contexts olds.length (before ++ pending).length ls) old
        before.length) i =
      Edit.both (decide (startIdx + old ≤ i) && decide (i < startIdx + olds.length),
        if startIdx + old = i then pending else []) (edit (startIdx + old) (startIdx + olds.length) ls i) := by
  induction ls generalizing olds before pending old with
  | nil =>
    simpa [chunkFrom, contextReplacements, contexts, edit, Edit.both] using edits_of_pending ho before pending
  | cons l ls ih => ?_
  cases l with
  | context text => ?_
  | removed text =>
    have hr := @ih (olds ++ [text]) before pending old (by simp; omega)
    have hra : (decide (startIdx + old ≤ i) && decide (i < startIdx + (olds.length + 1))) =
        (decide (startIdx + old ≤ i) && decide (i < startIdx + olds.length) ||
          decide (startIdx + olds.length = i)) := by
      rw [Bool.eq_iff_iff]
      simp only [Bool.and_eq_true, Bool.or_eq_true, decide_eq_true_eq]
      omega
    simpa [contexts, oldText, newText, edit, Edit.both, filterMap_cons, hra, Bool.or_assoc, Nat.add_assoc] using hr
  | added text =>
    have hr := @ih olds before (pending ++ [text]) old ho
    have hte : (if startIdx + old = i then pending ++ [text] else []) =
        (if startIdx + old = i then pending else []) ++ if startIdx + old = i then [text] else [] := by
      split_ifs <;> simp
    simpa [contexts, oldText, newText, edit, Edit.both, filterMap_cons, hte, Nat.add_assoc] using hr
  have hp := @edits_of_pending startIdx i _ _ ho before pending
  have hr := @ih (olds ++ [text]) (before ++ pending ++ [text]) [] (olds.length + 1) (by simp)
  have ht : ((before ++ pending ++ text :: ls.filterMap newText).take (before ++ pending).length).drop
      before.length = pending := by
    rw [take_left, drop_left]
  have hc := @chunkFrom_cons startIdx (olds ++ text :: ls.filterMap oldText)
    (before ++ pending ++ text :: ls.filterMap newText) olds.length (before ++ pending).length old
    before.length (contexts (olds.length + 1) ((before ++ pending).length + 1) ls) (by simp) (by simp)
  rw [ht] at hc
  simp only [contexts, filterMap_cons, oldText, newText, hc, edits_append, hp]
  simp only [append_assoc, singleton_append, length_append, length_singleton, Nat.add_assoc] at hr ⊢
  rw [hr]
  simp [edit, Edit.both, no_line, Nat.add_assoc]

lemma edits_of_chunk (ls : List ChunkLine) :
    edits Replacement.edit (chunkReplacements startIdx (ls.filterMap oldText) (ls.filterMap newText)
      (contexts 0 0 ls)) i = edit startIdx startIdx ls i := by
  have h : edits Replacement.edit (chunkReplacements startIdx _ _ _) i = _ :=
    @edits_of_chunkFrom startIdx i ls [] [] [] 0 le_rfl
  simpa [no_line, Edit.both] using h

/-! ## The second search -/

def lastOf (p : ChunkLine → Option Text) (ls : List ChunkLine) : Option ChunkLine :=
  ls.reverse.find? fun l => (p l).isSome

def withoutLast (p : ChunkLine → Option Text) (ls : List ChunkLine) : List ChunkLine :=
  (ls.reverse.eraseP fun l => (p l).isSome).reverse

/-- The lines that the second search looks for: without the empty old line at the end, and without a `+` line for it. -/
def retried (ls : List ChunkLine) : List ChunkLine :=
  let shorter := withoutLast oldText ls
  if lastOf oldText ls = some (.removed []) ∧ lastOf newText ls = some (.added []) then
    withoutLast newText shorter
  else shorter

/-- After an empty last old line that is context, only empty lines are added; with an empty last old line
that is removed, the last new line is not an empty context line. -/
def keepsContext (ls : List ChunkLine) : Bool :=
  if lastOf oldText ls = some (.context []) then
    (ls.reverse.takeWhile (·.oldText.isNone)).all (· = .added [])
  else if lastOf oldText ls = some (.removed []) then
    lastOf newText ls ≠ some (.context [])
  else true

/-- Whether the first search finds the chunk nowhere, starting at `lineIndex`. -/
def searchesAgain (originalLines : List Text) (path : Text) (lineIndex : Nat) (chunk : UpdateFileChunk) : Bool :=
  match seekContext originalLines path lineIndex chunk with
  | .ok lineIndex => (seekSequence originalLines chunk.oldLines lineIndex chunk.isEndOfFile).isNone
  | .error _ => false

/-- Every chunk that is searched for again keeps its context. -/
def retriesKeepContext (originalLines : List Text) (path : Text) :
    List Replacement × Nat → List UpdateFileChunk → List (List ChunkLine) → Bool
  | st, chunk :: chunks, ls :: patch =>
    (!searchesAgain originalLines path st.2 chunk || keepsContext ls) &&
      match replaceChunk originalLines path st chunk with
      | .ok next => retriesKeepContext originalLines path next chunks patch
      | .error _ => true
  | _, _, _ => true

section Last

variable {p : ChunkLine → Option Text} {ls before after : List ChunkLine} {l : ChunkLine}

lemma getLast?_filterMap_eq : (ls.filterMap p).getLast? = (lastOf p ls).bind p := by
  induction ls using reverseRecOn with
  | nil => rfl
  | append_singleton ls l ih => cases hl : p l <;> simp_all [lastOf]

lemma lastOf_eq_some (h : lastOf p ls = some l) :
    ∃ before after, ls = before ++ l :: after ∧ ∀ a ∈ after, p a = none := by
  obtain ⟨-, after, before, heq, haf⟩ := find?_eq_some_iff_append.mp h
  refine ⟨before.reverse, after.reverse, reverse_injective (by simpa using heq), fun a ha => ?_⟩
  simpa using haf a (mem_reverse.mp ha)

lemma withoutLast_split (hl : (p l).isSome) (haf : ∀ a ∈ after, p a = none) :
    withoutLast p (before ++ l :: after) = before ++ after := by
  have hn : ∀ a ∈ after.reverse, ¬ (p a).isSome := fun a ha => by
    simp [haf a (mem_reverse.mp ha)]
  simp [withoutLast, eraseP_append_right _ hn, hl]

end Last

lemma contextReplacements_concat (h : pattern.length ≤ a) :
    contextReplacements startIdx pattern newSlice (indices ++ [(a, b)]) old new =
      contextReplacements startIdx pattern newSlice indices old new := by
  induction indices generalizing old new with
  | nil => simp [contextReplacements, h]
  | cons c rest ih => simp [contextReplacements, ih]

lemma getLast?_any_isEmpty {ls : List Text} : ls.getLast?.any List.isEmpty ↔ ls.getLast? = some [] := by
  cases ls.getLast? <;> simp

lemma retried_lines {ls : List ChunkLine} (hk : keepsContext ls)
    (hla : (ls.filterMap oldText).getLast? = some []) :
    (ls.filterMap oldText).dropLast = (retried ls).filterMap oldText ∧
      withoutTrailingEmpty (ls.filterMap newText) = (retried ls).filterMap newText ∧
      chunkReplacements startIdx ((retried ls).filterMap oldText) ((retried ls).filterMap newText) (contexts 0 0 ls) =
        chunkReplacements startIdx ((retried ls).filterMap oldText)
          ((retried ls).filterMap newText) (contexts 0 0 (retried ls)) := by
  rw [getLast?_filterMap_eq] at hla
  obtain ⟨l, hlo, hl⟩ := Option.bind_eq_some_iff.mp hla
  obtain ⟨before, after, rfl, haf⟩ := lastOf_eq_some hlo
  have ho : after.filterMap oldText = [] := filterMap_eq_nil_iff.mpr haf
  have hp : ∀ a ∈ after, a.oldText = none ∨ a.newText = none := fun a ha => .inl (haf a ha)
  have hs : withoutLast oldText (before ++ l :: after) = before ++ after :=
    withoutLast_split (by simp [hl]) haf
  have hd : ((before ++ l :: after).filterMap oldText).dropLast =
      (before ++ after).filterMap oldText := by
    simp [hl, ho]
  rw [hd]
  cases l with
  | added text => simp [oldText] at hl
  | context text =>
    obtain rfl : text = [] := by simpa [oldText] using hl
    have hr : retried (before ++ .context [] :: after) = before ++ after := by
      simp [retried, hlo, hs]
    have ht : (before ++ .context [] :: after).reverse.takeWhile (·.oldText.isNone) = after.reverse := by
      rw [reverse_append, reverse_cons, append_assoc, takeWhile_append_of_pos]
      · simp [oldText]
      · exact fun a ha => by simp [haf a (mem_reverse.mp ha)]
    rw [keepsContext, if_pos hlo, ht, all_reverse] at hk
    have hadd : after = replicate after.length (.added []) :=
      eq_replicate_of_mem fun a ha => by simpa using all_eq_true.mp hk a ha
    have hn : after.filterMap newText = replicate after.length [] := by
      nth_rewrite 1 [hadd]
      exact filterMap_replicate_of_some rfl
    rw [hr]
    refine ⟨rfl, ?_, ?_⟩
    · have hal : (before ++ .context [] :: after).filterMap newText =
          before.filterMap newText ++ replicate after.length [] ++ [[]] := by
        rw [filterMap_append, filterMap_cons, hn, append_assoc, ← replicate_succ']
        rfl
      rw [hal, withoutTrailingEmpty, getLast?_concat, filterMap_append, hn]
      exact dropLast_concat
    have hlon : ((before ++ after).filterMap oldText).length ≤
        0 + (before.filterMap oldText).length := by
      simp [ho]
    rw [append_cons, contexts_append_plain hp, contexts_append_plain hp, contexts_append]
    simp only [chunkReplacements, contexts, contextReplacements_concat hlon]
  | removed text => ?_
  obtain rfl : text = [] := by simpa [oldText] using hl
  have hn : (before ++ .removed [] :: after).filterMap newText =
      (before ++ after).filterMap newText := by
    simp [filterMap_cons, newText]
  have hln : lastOf newText (before ++ .removed [] :: after) =
      lastOf newText (before ++ after) := by
    simp [lastOf, newText]
  have hc : contexts 0 0 (before ++ .removed [] :: after) =
      contexts 0 0 (before ++ after) := by
    have hre : ∀ a ∈ removed [] :: after, a.oldText = none ∨ a.newText = none :=
      forall_mem_cons.mpr ⟨.inr rfl, hp⟩
    rw [contexts_append_plain hre, contexts_append_plain hp]
  rw [hn, hc]
  by_cases had : lastOf newText (before ++ after) = some (.added [])
  · obtain ⟨front, back, heq, hb⟩ := lastOf_eq_some had
    have hr : retried (before ++ .removed [] :: after) = front ++ back := by
      rw [retried, if_pos ⟨hlo, hln.trans had⟩, hs, heq]
      exact withoutLast_split rfl hb
    have hpl : ∀ a ∈ added [] :: back, a.oldText = none ∨ a.newText = none :=
      forall_mem_cons.mpr ⟨.inl rfl, fun a ha => .inr (hb a ha)⟩
    have hbn : back.filterMap newText = [] := filterMap_eq_nil_iff.mpr hb
    rw [hr, heq]
    refine ⟨?_, ?_, ?_⟩
    · simp [filterMap_cons, oldText]
    · simp [withoutTrailingEmpty, newText, hbn]
    · rw [contexts_append_plain hpl,
        contexts_append_plain fun a ha => .inr (hb a ha)]
  have hr : retried (before ++ .removed [] :: after) = before ++ after := by
    rw [retried, if_neg fun h => had (hln.symm.trans h.2), hs]
  rw [hr]
  refine ⟨rfl, if_neg fun h => ?_, rfl⟩
  rw [getLast?_any_isEmpty, getLast?_filterMap_eq] at h
  obtain ⟨m, hm, he⟩ := Option.bind_eq_some_iff.mp h
  rw [keepsContext, if_neg (by simp [hlo]), if_pos hlo, hln, hm] at hk
  -- the empty new line is no context line, and no `+` line either
  cases m with
  | removed text => simp [newText] at he
  | context text | added text => simp_all [newText]

end Chunk

/-! ## All chunks -/

def lineViews : List (Text → Text) := [id, trimEnd, trim, normalise]

lemma seekSequence_matches {lines pattern : List Text} (h : seekSequence lines pattern start eof = some i) :
    ∃ view ∈ lineViews, matchesAt view lines pattern i := by
  unfold seekSequence at h
  split at h
  · rename_i he
    refine ⟨id, by simp [lineViews], ?_⟩
    simp [matchesAt, isEmpty_iff.mp he]
  split at h
  · simp at h
  · simp only [Option.or_eq_some_iff] at h
    obtain h | ⟨-, h | ⟨-, h | ⟨-, h⟩⟩⟩ := h <;> exact ⟨_, by simp [lineViews], find?_some h⟩

/-- Where a chunk stands, and its lines there: without old lines at the end, else where its old lines match. -/
def StandsAt (fileLines : List Text) (ls : List ChunkLine) (p : Nat × List ChunkLine) : Prop :=
  if ls.filterMap oldText = [] then p = (fileLines.length, ls)
  else (p.2 = ls ∨ (ls.filterMap oldText).getLast? = some [] ∧ p.2 = retried ls) ∧
    p.1 + (p.2.filterMap oldText).length ≤ fileLines.length ∧
    ∃ view ∈ lineViews, matchesAt view fileLines (p.2.filterMap oldText) p.1 = true

def StandFrom (index : Nat) (placed : List (Nat × List ChunkLine)) : Prop :=
  (∀ p ∈ placed, p.2.filterMap oldText ≠ [] → index ≤ p.1) ∧
    placed.Pairwise fun a b => b.2.filterMap oldText ≠ [] → a.2.filterMap oldText ≠ [] →
      a.1 + (a.2.filterMap oldText).length ≤ b.1

def Edits (rs : List Replacement) (placed : List (Nat × List ChunkLine)) : Prop :=
  edits Replacement.edit rs = edits (fun p => edit p.1 p.1 p.2) placed

section Run

variable {originalLines : List Text} {path : Text} {chunk : UpdateFileChunk} {ls : List ChunkLine}

lemma findChunk_lines (hls : chunk.Written ls)
    (hk : seekSequence originalLines chunk.oldLines lineIndex chunk.isEndOfFile = none → keepsContext ls)
    (h : findChunk originalLines lineIndex chunk = some (startIdx, pattern, newSlice)) :
    ∃ ms, (ms = ls ∨ (ls.filterMap oldText).getLast? = some [] ∧ ms = retried ls) ∧ pattern = ms.filterMap oldText ∧
      (∃ view ∈ lineViews, matchesAt view originalLines (ms.filterMap oldText) startIdx) ∧
      Edits (chunkReplacements startIdx pattern newSlice chunk.contextLineIndices) [(startIdx, ms)] := by
  have he : ∀ ms, Edits (chunkReplacements startIdx (ms.filterMap oldText)
      (ms.filterMap newText) (contexts 0 0 ms)) [(startIdx, ms)] := fun ms => funext fun i => by
    simpa [edits, Edit.both] using edits_of_chunk ms
  unfold findChunk at h
  split at h
  · rename_i hf
    obtain ⟨rfl, rfl, rfl⟩ := h
    rw [hls.old] at hf ⊢
    rw [hls.new, hls.contexts]
    exact ⟨ls, .inl rfl, rfl, seekSequence_matches hf, he ls⟩
  rename_i hnone
  split_ifs at h with hl
  simp only [Option.map_eq_some_iff, Prod.mk.injEq] at h
  obtain ⟨idx, hf, rfl, rfl, rfl⟩ := h
  rw [hls.old] at hl hf ⊢
  have hem := getLast?_any_isEmpty.mp hl
  obtain ⟨ho, hn, hc⟩ := @retried_lines idx ls (hk hnone) hem
  rw [hls.new, hls.contexts, hn]
  rw [ho] at hf ⊢
  rw [hc]
  exact ⟨_, .inr ⟨hem, rfl⟩, rfl, seekSequence_matches hf, he _⟩

lemma replaceChunk_edits {st next : List Replacement × Nat} (hls : chunk.Written ls)
    (hk : searchesAgain originalLines path st.2 chunk → keepsContext ls) (hi : st.2 ≤ originalLines.length)
    (h : replaceChunk originalLines path st chunk = .ok next) :
    ∃ rs p, next.1 = st.1 ++ rs ∧ StandsAt originalLines ls p ∧ Edits rs [p] ∧ st.2 ≤ next.2 ∧
      next.2 ≤ originalLines.length ∧ (p.2.filterMap oldText ≠ [] →
        st.2 ≤ p.1 ∧ p.1 + (p.2.filterMap oldText).length ≤ next.2) := by
  obtain ⟨lineIndex, hc, h⟩ := bind_eq_ok.mp h
  obtain ⟨hle, hs⟩ := seekContext_bounds hi hc
  rw [hls.old, hls.new] at h
  split_ifs at h with he
  · have hn := isEmpty_iff.mp he
    cases h
    refine ⟨_, (originalLines.length, ls), rfl, by rw [StandsAt, if_pos hn], funext fun i => ?_, hle, hs,
      fun hne => absurd hn hne⟩
    rw [edits_cons, edits_cons, edit_of_added hn]
    simp [Replacement.edit, no_line, edits]
  have hne : ls.filterMap oldText ≠ [] := by simpa using he
  split at h
  · rename_i startIdx pattern newSlice hf
    cases h
    obtain ⟨hst, hen⟩ := findChunk_bounds (hls.old ▸ hne) hs hf
    obtain ⟨ms, hms, rfl, hm, hed⟩ := findChunk_lines hls (fun hn => hk (by simp [searchesAgain, hc, hn])) hf
    refine ⟨_, (startIdx, ms), rfl, ?_, hed, by omega, hen, fun _ => ⟨hle.trans hst, le_rfl⟩⟩
    rw [StandsAt, if_neg hne]
    exact ⟨hms, hen, hm⟩
  · simp at h

lemma run_edits (hpa : Forall₂ UpdateFileChunk.Written chunks patch)
    (hk : retriesKeepContext originalLines path st chunks patch) (hi : st.2 ≤ originalLines.length)
    (h : chunks.foldlM (replaceChunk originalLines path) st = .ok last) :
    ∃ rs placed, last.1 = st.1 ++ rs ∧ Forall₂ (StandsAt originalLines) patch placed ∧ Edits rs placed ∧
      StandFrom st.2 placed := by
  induction hpa generalizing st with
  | nil =>
    obtain rfl : st = last := by simpa using h
    exact ⟨[], [], by simp, .nil, rfl, by simp, .nil⟩
  | @cons chunk ls chunks patch hls hpa ih => ?_
  obtain ⟨_, hn, h⟩ := foldlM_cons_ok.mp h
  simp only [retriesKeepContext, hn, Bool.and_eq_true, Bool.or_eq_true, Bool.not_eq_true', ← Bool.not_eq_true,
    ← imp_iff_not_or] at hk
  obtain ⟨rs, p, hrs, hp, he, hle, hs, hb⟩ := replaceChunk_edits hls hk.1 hi hn
  obtain ⟨more, placed, hm, hpl, hem, hf, ho⟩ := ih hk.2 hs h
  refine ⟨rs ++ more, p :: placed, by rw [hm, hrs, append_assoc], .cons hp hpl, funext fun i => ?_,
    fun q hq hol => ?_, .cons (fun q hq hol hne => (hb hne).2.trans (hf q hq hol)) ho⟩
  · rw [edits_append, he, hem]
    exact (edits_append [p] placed i).symm
  rcases mem_cons.mp hq with rfl | hq
  · exact (hb hol).1
  · exact hle.trans (hf q hq hol)

end Run

/-- The new contents are the lines of the old ones, edited where the chunks stand. -/
def Survives (patch : List (List ChunkLine)) (contents new : Text) : Prop :=
  let f := SourceFile.parse contents
  f.intoContents = contents ∧ ∃ placed, Forall₂ (StandsAt f.lineTexts) patch placed ∧ StandFrom 0 placed ∧
    new = (SourceFile.mk
      ((edited f.preferredEnding (edits (fun p => edit p.1 p.1 p.2) placed) 0 f.lines).map fun line =>
        { line with ending := some (line.ending.getD f.preferredEnding) }) f.preferredEnding).intoContents

def blankExample : Text := "*** Begin Patch\n*** Update File: a\n@@\n a\n \n-\n*** End Patch\n"

def blankChunk : UpdateFileChunk where
  oldLines := ["a", "", ""]
  newLines := ["a", ""]
  contextLineIndices := [(0, 0), (1, 1)]

end Codex.ApplyPatch
