import Mathlib.Data.List.Infix
import Codex.MaxByKey

/-!
# Positions in a list that grows

Where the elements with a property stand, in order, and the greatest of some positions by a key.
-/

namespace Codex

open List

variable {α : Type} {p : α → Bool} {l : List α} {a b : α} {i r : Nat}

def positions (p : α → Bool) (l : List α) : List Nat := (l.zipIdx.filter fun e => p e.1).map (·.2)

lemma positions_concat (p : α → Bool) (l : List α) (a : α) :
    positions p (l ++ [a]) = positions p l ++ if p a then [l.length] else [] := by
  unfold positions
  rw [zipIdx_append, filter_append, map_append, zipIdx_singleton, Nat.zero_add]
  cases h : p a <;> simp [h]

lemma mem_positions : i ∈ positions p l ↔ ∃ a, l[i]? = some a ∧ p a := by
  unfold positions
  rw [mem_map]
  constructor
  · rintro ⟨e, he, rfl⟩
    obtain ⟨hm, hp⟩ := mem_filter.mp he
    exact ⟨e.1, mem_zipIdx_iff_getElem?.mp hm, hp⟩
  · rintro ⟨a, ha, hp⟩
    exact ⟨(a, i), mem_filter.mpr ⟨mem_zipIdx_iff_getElem?.mpr ha, hp⟩, rfl⟩

lemma lt_of_mem_positions (h : i ∈ positions p l) : i < l.length := by
  obtain ⟨a, ha, -⟩ := mem_positions.mp h
  exact (List.getElem?_eq_some_iff.mp ha).1

lemma positions_eq_nil (h : ∀ a ∈ l, p a = false) : positions p l = [] := by
  rw [eq_nil_iff_forall_not_mem]
  intro i hi
  obtain ⟨a, ha, hp⟩ := mem_positions.mp hi
  rw [h a (mem_of_getElem? ha)] at hp
  cases hp

/-! ## An element that is replaced -/

lemma exists_set_iff {Q : α → Prop} (hg : l[r]? = some a) (hQ : Q b ↔ Q a) :
    (∃ x, (l.set r b)[i]? = some x ∧ Q x) ↔ ∃ x, l[i]? = some x ∧ Q x := by
  obtain ⟨hlt, -⟩ := List.getElem?_eq_some_iff.mp hg
  by_cases heq : r = i
  · subst heq
    rw [getElem?_set_self hlt, hg]
    simp [hQ]
  · rw [getElem?_set_ne heq]

lemma map_set_eq {β : Type} {f : α → β} (hg : l[r]? = some a) (hf : f b = f a) :
    (l.set r b).map f = l.map f := by
  obtain ⟨_, rfl⟩ := List.getElem?_eq_some_iff.mp hg
  rw [map_set, hf, ← map_set, set_getElem_self]

/-! ## The greatest of several positions -/

section

variable {κ : Type} [LinearOrder κ] {f g : Nat → κ} {is : List Nat}

lemma argmax_congr (h : ∀ i ∈ is, f i = g i) : is.argmax f = is.argmax g := by
  induction is with
  | nil => rfl
  | cons i is ih => ?_
  rw [argmax_cons, argmax_cons, ih fun j hj => h j (mem_cons_of_mem _ hj)]
  rcases hm : is.argmax g with _ | c
  · rfl
  have hc := h c (mem_cons_of_mem _ (argmax_mem hm))
  simp only [h i mem_cons_self, hc]

lemma maxByKey_congr (h : ∀ i ∈ is, f i = g i) : maxByKey f is = maxByKey g is :=
  argmax_congr fun i hi => h i (mem_reverse.mp hi)

lemma maxByKey_concat (i : Nat) : maxByKey f (is ++ [i]) =
    match maxByKey f is with
    | none => some i
    | some c => if f i < f c then some c else some i := by
  unfold maxByKey
  rw [reverse_append, reverse_singleton, singleton_append, argmax_cons]
  cases is.reverse.argmax f <;> rfl

end

end Codex
