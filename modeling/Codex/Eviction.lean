import Mathlib.Data.List.Induction
import Mathlib.Data.List.Sort
import Mathlib.Data.List.Perm.Subperm

/-! # Keeping the newest elements that fit, whatever the order in which they arrive -/

namespace Codex.Eviction

open List

variable {α : Type*}

/-- The longest end of a list that fits. -/
def keep (fits : List α → Bool) : List α → List α
  | [] => []
  | a :: l => if fits (a :: l) then a :: l else keep fits l

/-- An element takes its place among those that are kept, and the oldest are given up. -/
def arrive (r : α → α → Prop) [DecidableRel r] (fits : List α → Bool) (kept : List α) (a : α) : List α :=
  keep fits ((kept ++ [a]).insertionSort r)

variable {fits : List α → Bool} {all l kept arrived : List α} {a x : α}

lemma keep_suffix (fits : List α → Bool) (l : List α) : keep fits l <:+ l := by
  induction l with
  | nil => exact suffix_rfl
  | cons a l ih => ?_
  unfold keep
  split
  · exact suffix_rfl
  · exact ih.trans (suffix_cons a l)

lemma fits_keep (h : a ∈ keep fits l) : fits (keep fits l) := by
  induction l with
  | nil => simp [keep] at h
  | cons b l ih => ?_
  unfold keep at h ⊢
  split
  · assumption
  rename_i hf
  rw [if_neg hf] at h
  exact ih h

lemma keep_of_fits (h : fits l) : keep fits l = l := by
  cases l with
  | nil => rfl
  | cons a l => simp [keep, h]

/-- What is given up ends in an element that does not fit. -/
lemma keep_split (fits : List α → Bool) (l : List α) : keep fits l = l ∨ ∃ d, d :: keep fits l <:+ l ∧
    fits (d :: keep fits l) = false := by
  induction l with
  | nil => exact .inl rfl
  | cons a l ih => ?_
  unfold keep
  split
  · exact .inl rfl
  rename_i hf
  rcases ih with heq | ⟨d, hd, hn⟩
  · rw [heq]
    exact .inr ⟨a, suffix_rfl, by simpa using hf⟩
  · exact .inr ⟨d, hd.trans (suffix_cons a l), hn⟩

section

variable {r : α → α → Prop}

lemma length_arrive_le [DecidableRel r] (kept : List α) (x : α) : (arrive r fits kept x).length ≤ kept.length + 1 := by
  simpa [arrive] using (keep_suffix fits ((kept ++ [x]).insertionSort r)).length_le

variable (hm : ∀ {l l' : List α}, l <+~ l' → fits l' = true → fits l = true)

include hm

lemma keep_of_full (hs : d :: kept <:+ l) (hf : fits (d :: kept) = false) :
    keep fits l = keep fits kept := by
  obtain ⟨front, rfl⟩ := hs
  induction front with
  | nil => simp [keep, hf]
  | cons a front ih => ?_
  have hn : ¬ fits (a :: (front ++ d :: kept)) := by
    intro hfi
    rw [hm ((sublist_append_right (a :: front) _).subperm) hfi] at hf
    cases hf
  rw [cons_append, keep, if_neg hn, ih]

lemma foldl_arrive_sorted [DecidableRel r] (hl : l.Pairwise r) : l.foldl (Eviction.arrive r fits) [] = keep fits l := by
  induction l using reverseRecOn with
  | nil => rfl
  | append_singleton l y ih => ?_
  have hs : keep fits l ++ [y] <+ l ++ [y] := (keep_suffix fits l).sublist.append (Sublist.refl [y])
  rw [foldl_concat, ih (hl.sublist (sublist_append_left l [y])), Eviction.arrive, (hl.sublist hs).insertionSort_eq]
  rcases keep_split fits l with heq | ⟨d, ⟨front, hd⟩, hf⟩
  · rw [heq]
  have hf' : fits (d :: (keep fits l ++ [y])) = false := by
    by_contra hfi
    rw [hm (sublist_append_left (d :: keep fits l) [y]).subperm (by simpa using hfi)] at hf
    cases hf
  have hlo : front ++ d :: (keep fits l ++ [y]) = l ++ [y] := by
    rw [← cons_append, ← append_assoc, hd]
  exact (keep_of_full hm ⟨front, hlo⟩ hf').symm

omit hm

variable [Std.Total r]

lemma before_of_suffix (hsu : d :: kept <:+ l) (hs : l.Pairwise r) (ha : a ∈ l) (hn : a ∉ kept) :
    ∀ e ∈ d :: kept, r a e := by
  obtain ⟨_, rfl⟩ := hsu
  obtain ⟨-, hr, hf⟩ := pairwise_append.mp hs
  rcases mem_append.mp ha with ha | ha
  · exact fun e he => hf a ha e he
  · obtain rfl := (mem_cons.mp ha).resolve_right hn
    exact forall_mem_cons.mpr ⟨(Std.Total.total a a).elim id id, (pairwise_cons.mp hr).1⟩

variable (han : ∀ a ∈ all, ∀ b ∈ all, r a b → r b a → a = b) (hso : all.Pairwise r)

include han hso

lemma mem_keep_of_newer (ha : a ∈ keep fits all) (hx : x ∈ all) (h : r a x) : x ∈ keep fits all := by
  by_contra hn
  rcases keep_split fits all with heq | ⟨d, hs, -⟩
  · exact hn (heq.symm ▸ hx)
  · have hxa := before_of_suffix hs hso hx hn a (mem_cons_of_mem d ha)
    exact hn (han a ((keep_suffix fits all).subset ha) x hx h hxa ▸ ha)

/-- What is kept of the elements that arrived: among them those of the longest end of all that fits. -/
structure Holding (r : α → α → Prop) (fits : List α → Bool) (all arrived kept : List α) : Prop where
  subset : kept ⊆ arrived
  sorted : kept.Pairwise r
  nodup : kept.Nodup
  newest : ∀ a ∈ arrived, a ∈ keep fits all → a ∈ kept
  fit : ∀ a ∈ kept, fits kept = true

variable [DecidableRel r] [IsTrans α r]

include hm

lemma Holding.arrive (h : Holding r fits all arrived kept) (har : arrived ⊆ all) (hx : x ∈ all)
    (hnew : x ∉ arrived) : Holding r fits all (arrived ++ [x]) (arrive r fits kept x) := by
  have hp := perm_insertionSort r (kept ++ [x])
  have hl := pairwise_insertionSort r (kept ++ [x])
  have hln : ((kept ++ [x]).insertionSort r).Nodup := by
    rw [hp.nodup_iff]
    exact h.nodup.append (nodup_singleton x) (by simpa using fun hme => hnew (h.subset hme))
  have hme : ∀ a, a ∈ (kept ++ [x]).insertionSort r ↔ a ∈ kept ∨ a = x := by simp [hp.mem_iff]
  unfold Eviction.arrive
  generalize (kept ++ [x]).insertionSort r = line at *
  have hs := keep_suffix fits line
  refine ⟨fun a ha => ?_, hl.sublist hs.sublist, hln.sublist hs.sublist, fun a ha hk => ?_, fun a ha => fits_keep ha⟩
  · rcases (hme a).mp (hs.subset ha) with ha | rfl
    · exact mem_append_left _ (h.subset ha)
    · simp
  have hin : a ∈ line := by
    rcases mem_append.mp ha with ha | ha
    · exact (hme a).mpr (.inl (h.newest a ha hk))
    · exact (hme a).mpr (.inr (mem_singleton.mp ha))
  by_contra hn
  rcases keep_split fits line with heq | ⟨d, hd, hf⟩
  · exact hn (heq.symm ▸ hin)
  -- What did not fit is newer than an element of the end, so all of it is in the end.
  have hfi : fits (d :: keep fits line) := by
    refine hm (subperm_of_subset (hln.sublist hd.sublist) fun e he => ?_) (fits_keep hk)
    have hal : e ∈ all := by
      rcases (hme e).mp (hd.subset he) with he | rfl
      exacts [har (h.subset he), hx]
    exact mem_keep_of_newer han hso hk hal (before_of_suffix hd hl hin hn e he)
  simp [hfi] at hf

lemma holding_arrived (hi : items.Nodup) (hs : items ⊆ all) :
    Holding r fits all items (items.foldl (Eviction.arrive r fits) []) := by
  induction items using reverseRecOn with
  | nil => exact ⟨by simp, by simp, by simp, by simp, by simp⟩
  | append_singleton items x ih => ?_
  obtain ⟨hi, -, hn⟩ := nodup_append.mp hi
  obtain ⟨hs, hx⟩ := append_subset.mp hs
  rw [foldl_concat]
  exact (ih hi hs).arrive hm han hso hs (hx mem_cons_self) fun hme => hn x hme x mem_cons_self rfl

/-- What fits beside the longest end stays when it arrives last. -/
lemma foldl_arrive_last {before after : List α} (hal : all = before ++ x :: after) (hn : x ∉ keep fits all)
    (hf : fits (x :: keep fits all)) :
    (before ++ after ++ [x]).foldl (Eviction.arrive r fits) [] = x :: keep fits all := by
  have hsu := keep_suffix fits all
  have hx : x ∈ all := by simp [hal]
  rcases keep_split fits all with heq | ⟨d, hd, hfu⟩
  · exact absurd (heq.symm ▸ hx) hn
  have hr : d :: keep fits all <:+ after := by
    have hxd : x ∉ d :: keep fits all := by
      rw [mem_cons, not_or]
      refine ⟨?_, hn⟩
      rintro rfl
      simp [hf] at hfu
    rcases suffix_or_suffix_of_suffix hd ⟨before, hal.symm⟩ with hs | hl
    · rcases suffix_cons_iff.mp hs with heq | hs
      · exact absurd (heq ▸ mem_cons_self) hxd
      · exact hs
    · exact absurd (hl.subset mem_cons_self) hxd
  have hk : keep fits (before ++ after) = keep fits all := by
    rw [keep_of_full hm (hr.trans (suffix_append before after)) hfu]
    exact keep_of_fits (hm (sublist_cons_self x _).subperm hf)
  have hli : (keep fits all ++ [x]).insertionSort r = x :: keep fits all := by
    have holder := before_of_suffix hd hso hx hn
    have hp := (perm_insertionSort r (keep fits all ++ [x])).trans (perm_append_singleton x _)
    have hin : x :: keep fits all ⊆ all := cons_subset.mpr ⟨hx, hsu.subset⟩
    exact hp.eq_of_pairwise (fun a b ha hb => han a (hin (hp.subset ha)) b (hin hb)) (pairwise_insertionSort r _)
      (pairwise_cons.mpr ⟨fun e he => holder e (mem_cons_of_mem d he), hso.sublist hsu.sublist⟩)
  have hasc : (before ++ after).Pairwise r :=
    hso.sublist (hal ▸ (Sublist.refl before).append (sublist_cons_self x after))
  rw [foldl_concat, foldl_arrive_sorted hm hasc, hk, Eviction.arrive, hli, keep_of_fits hf]

/-- In every order of arrival the longest end is kept, if nothing else fits beside it. -/
lemma foldl_arrive_eq_keep (hn : all.Nodup) (hi : items ~ all)
    (h : ∀ x ∈ all, x ∉ keep fits all → fits (x :: keep fits all) = false) :
    items.foldl (Eviction.arrive r fits) [] = keep fits all := by
  have hs := keep_suffix fits all
  have hh := holding_arrived hm han hso (hi.nodup_iff.mpr hn) hi.subset
  have hnew : keep fits all ⊆ items.foldl (Eviction.arrive r fits) [] :=
    fun a ha => hh.newest a (hi.mem_iff.mpr (hs.subset ha)) ha
  have hin : items.foldl (Eviction.arrive r fits) [] ⊆ all := fun a ha => hi.subset (hh.subset ha)
  have hsa : items.foldl (Eviction.arrive r fits) [] ~ keep fits all := by
    rw [perm_ext_iff_of_nodup hh.nodup (hn.sublist hs.sublist)]
    refine fun a => ⟨fun ha => ?_, fun ha => hnew ha⟩
    by_contra hno
    have hbe := hm (subperm_of_subset (nodup_cons.mpr ⟨hno, hn.sublist hs.sublist⟩)
      (cons_subset.mpr ⟨ha, hnew⟩)) (hh.fit a ha)
    rw [h a (hin ha) hno] at hbe
    cases hbe
  exact hsa.eq_of_pairwise (fun a b ha hb => han a (hin ha) b (hs.subset hb)) hh.sorted (hso.sublist hs.sublist)

end

end Codex.Eviction
