import Mathlib.Data.List.MinMax

/-!
# The greatest element by a key

`Iterator::max_by_key`, which gives the last of several greatest elements.
-/

namespace Codex

open List

variable {α κ : Type} [LinearOrder κ] {key : α → κ} {l : List α}

def maxByKey (key : α → κ) (l : List α) : Option α := l.reverse.argmax key

lemma mem_of_maxByKey (h : maxByKey key l = some a) : a ∈ l :=
  mem_reverse.mp (argmax_mem h)

lemma le_maxByKey (h : maxByKey key l = some a) (hb : b ∈ l) : key b ≤ key a :=
  le_of_mem_argmax (mem_reverse.mpr hb) h

lemma maxByKey_eq_none : maxByKey key l = none ↔ l = [] := by
  unfold maxByKey
  rw [argmax_eq_none, reverse_eq_nil_iff]

lemma map_maxByKey_eq_some_iff :
    (maxByKey key l).map key = some k ↔ (∃ a ∈ l, key a = k) ∧ ∀ b ∈ l, key b ≤ k := by
  constructor
  · intro h
    obtain ⟨a, hm, rfl⟩ := Option.map_eq_some_iff.mp h
    exact ⟨⟨a, mem_of_maxByKey hm, rfl⟩, fun b hb => le_maxByKey hm hb⟩
  rintro ⟨⟨a, ha, rfl⟩, hle⟩
  rcases hm : maxByKey key l with _ | m
  · rw [maxByKey_eq_none.mp hm] at ha
    cases ha
  have h₁ : key m ≤ key a := hle m (mem_of_maxByKey hm)
  have h₂ : key a ≤ key m := le_maxByKey hm ha
  rw [Option.map_some, le_antisymm h₁ h₂]

end Codex
