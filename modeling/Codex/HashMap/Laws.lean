import Mathlib
import Codex.HashMap

/-!
# Laws of hash maps

How insertions, removals and filters by key compose, and a bound on sums over the values.
-/

namespace Codex.HashMap

open List

variable {A K V : Type} [DecidableEq K] {key : A → K}

/-! ## Sums over the values -/

section

variable (f : V → Nat)

def total (m : HashMap key V) : Nat := (m.values.map f).sum

lemma total_insertEntry (a : A) (v : V) (es : List (A × V)) :
    ((insertEntry key a v es).map fun e => f e.2).sum +
        ((es.find? fun e => key e.1 = key a).map (·.2)).elim 0 f = (es.map fun e => f e.2).sum + f v := by
  induction es with
  | nil => simp [insertEntry]
  | cons e es ih => ?_
  unfold insertEntry
  by_cases h : key e.1 = key a
  · simp [h]
    omega
  simp only [h, if_false, map_cons, sum_cons, decide_false, find?_cons_of_neg, Bool.false_eq_true, not_false_eq_true]
  omega

lemma total_insert (m : HashMap key V) (a : A) (v : V) :
    total f (m.insert a v) + (m.get a).elim 0 f = total f m + f v := by
  unfold total values
  rw [map_map, map_map]
  exact total_insertEntry f a v m.entries

lemma filter_of_not_mem {es : List (A × V)} (h : key a ∉ es.map fun e => key e.1) :
    (es.filter fun e => key e.1 ≠ key a) = es := by
  rw [filter_eq_self]
  intro e he
  simp only [decide_not, Bool.not_eq_true', decide_eq_false_iff_not]
  exact fun hk => h (mem_map.mpr ⟨e, he, hk⟩)

lemma total_filter (a : A) {es : List (A × V)} (hn : (es.map fun e => key e.1).Nodup) :
    ((es.filter fun e => key e.1 ≠ key a).map fun e => f e.2).sum +
        ((es.find? fun e => key e.1 = key a).map (·.2)).elim 0 f = (es.map fun e => f e.2).sum := by
  induction es with
  | nil => rfl
  | cons e es ih => ?_
  obtain ⟨hf, hn⟩ := nodup_cons.mp hn
  by_cases h : key e.1 = key a
  · have hf : key a ∉ es.map fun e => key e.1 := h ▸ hf
    rw [filter_cons_of_neg (by simp [h]), filter_of_not_mem hf, find?_cons_of_pos (by simp [h])]
    simp
    omega
  rw [filter_cons_of_pos (by simp [h]), find?_cons_of_neg (by simp [h])]
  have := ih hn
  simp only [map_cons, sum_cons]
  omega

lemma total_remove (m : HashMap key V) (a : A) :
    total f (m.remove a) + (m.get a).elim 0 f = total f m := by
  unfold total values
  rw [map_map, map_map]
  exact total_filter f a m.nodup

lemma total_le_sum (keys : List A) (m : HashMap key V) (h : ∀ e ∈ m.entries, f e.2 ≠ 0 → e.1 ∈ keys) :
    m.total f ≤ (keys.map fun a => (m.get a).elim 0 f).sum := by
  induction keys generalizing m with
  | nil =>
    have hz : ∀ n ∈ m.values.map f, n = 0 := by
      intro n hn
      obtain ⟨v, hv, rfl⟩ := mem_map.mp hn
      obtain ⟨e, he, rfl⟩ := mem_map.mp hv
      by_contra hne
      exact absurd (h e he hne) (by simp)
    unfold total
    rw [sum_eq_zero hz]
    exact Nat.zero_le _
  | cons a keys ih => ?_
  have hr := ih (m.remove a) ?_
  · have hs := total_remove f m a
    have hle : (keys.map fun b => ((m.remove a).get b).elim 0 f).sum ≤
        (keys.map fun b => (m.get b).elim 0 f).sum := by
      apply sum_le_sum
      intro b _
      rw [get_remove]
      split
      · exact Nat.zero_le _
      · exact le_refl _
    rw [map_cons, sum_cons]
    omega
  · intro e he hne
    obtain ⟨hin, ho⟩ := mem_filter.mp he
    rcases mem_cons.mp (h e hin hne) with rfl | hm
    · simp at ho
    · exact hm

lemma total_eq_zero {m : HashMap key V} (h : ∀ a v, m.get a = some v → f v = 0) : m.total f = 0 := by
  refine Nat.le_zero.mp (total_le_sum f [] m fun e he hne => absurd (h e.1 e.2 ?_) hne)
  exact get_eq_some_iff.mpr ⟨e, he, rfl, rfl⟩

end

omit [DecidableEq K] in
lemma ext_entries {m m' : HashMap key V} (h : m.entries = m'.entries) : m = m' := by
  cases m
  cases h
  rfl

lemma get_perm {m m' : HashMap key V} (h : m.entries.Perm m'.entries) : m.get a = m'.get a := by
  apply Option.ext
  intro v
  rw [get_eq_some_iff, get_eq_some_iff]
  simp only [h.mem_iff]

lemma insertEntry_insertEntry (a : A) (v w : V) (es : List (A × V)) :
    insertEntry key a v (insertEntry key a w es) = insertEntry key a v es := by
  induction es with
  | nil => simp [insertEntry]
  | cons e es ih => ?_
  unfold insertEntry
  by_cases h : key e.1 = key a
  · simp [h, insertEntry]
  · simp [h, insertEntry, ih]

lemma insert_insert (m : HashMap key V) (a : A) (v w : V) : (m.insert a w).insert a v = m.insert a v :=
  ext_entries (insertEntry_insertEntry a v w m.entries)

lemma filter_insertEntry (a : A) (v : V) (es : List (A × V)) :
    ((insertEntry key a v es).filter fun e => key e.1 ≠ key a) = es.filter fun e => key e.1 ≠ key a := by
  induction es with
  | nil => simp [insertEntry]
  | cons e es ih => ?_
  unfold insertEntry
  by_cases h : key e.1 = key a
  · simp [h]
  · simp only [h, if_false]
    rw [filter_cons_of_pos (by simpa using h), filter_cons_of_pos (by simpa using h), ih]

lemma remove_insert {m : HashMap key V} (v : V) (h : m.get a = none) : (m.insert a v).remove a = m := by
  apply ext_entries
  show (insertEntry key a v m.entries).filter (fun e => key e.1 ≠ key a) = m.entries
  rw [filter_insertEntry]
  apply filter_of_not_mem
  intro hm
  obtain ⟨e, he, hk⟩ := mem_map.mp hm
  have hg : m.get a = some e.2 := get_eq_some_iff.mpr ⟨e, he, hk, rfl⟩
  exact absurd (h.symm.trans hg) (by simp)

def filterKeys (p : A → Bool) (m : HashMap key V) : HashMap key V :=
  ⟨m.entries.filter fun e => p e.1, (filter_sublist.map _).nodup m.nodup⟩

lemma get_filterKeys (hp : ∀ a b, key a = key b → p a = p b) (m : HashMap key V) (a : A) :
    (m.filterKeys p).get a = if p a then m.get a else none := by
  unfold get filterKeys
  rw [find?_filter]
  by_cases h : p a
  · have hs : (fun e : A × V => decide (p e.1 ∧ decide (key e.1 = key a))) =
        fun e => decide (key e.1 = key a) := by
      funext e
      by_cases hk : key e.1 = key a
      · simp [hp _ _ hk, h]
      · simp [hk]
    rw [hs, if_pos h]
  rw [if_neg h, find?_eq_none.mpr, Option.map_none]
  intro e _ ht
  simp only [decide_eq_true_eq] at ht
  exact h (hp _ _ ht.2 ▸ ht.1)

end Codex.HashMap
