import Mathlib.Data.List.Induction
import Mathlib.Data.List.Nodup
import Mathlib.Data.List.Perm.Basic

/-!
# Hash maps

A list of entries whose keys are told apart by `key`. What iterates over a map takes an `Order`.
-/

namespace Codex

open List

variable {A K V : Type}

structure HashMap (key : A → K) (V : Type) where
  entries : List (A × V) := []
  nodup : (entries.map fun e => key e.1).Nodup := by simp

/-- An order in which the elements of a list are visited. -/
structure Order where
  visit : {α : Type} → List α → List α
  perm : ∀ {α : Type} (l : List α), (visit l).Perm l

def Order.same : Order := ⟨id, fun _ => .rfl⟩

lemma Order.mem_visit {order : Order} {l : List α} {a : α} : a ∈ order.visit l ↔ a ∈ l :=
  (order.perm l).mem_iff

namespace HashMap

variable [DecidableEq K] {key : A → K}

section

variable (m : HashMap key V)

def get (a : A) : Option V := (m.entries.find? fun e => key e.1 = key a).map (·.2)

def contains (a : A) : Bool := (m.get a).isSome

def keys : List A := m.entries.map (·.1)

def values : List V := m.entries.map (·.2)

def insertEntry (key : A → K) (a : A) (v : V) : List (A × V) → List (A × V)
  | [] => [(a, v)]
  | e :: es => if key e.1 = key a then (e.1, v) :: es else e :: insertEntry key a v es

lemma insertEntry_keys (a : A) (v : V) (es : List (A × V)) :
    (insertEntry key a v es).map (fun e => key e.1) =
      if key a ∈ es.map (fun e => key e.1) then es.map (fun e => key e.1)
      else es.map (fun e => key e.1) ++ [key a] := by
  induction es with
  | nil => simp [insertEntry]
  | cons e es ih => ?_
  unfold insertEntry
  by_cases h : key e.1 = key a
  · simp [h]
  have hm : key a ∈ (e :: es).map (fun e => key e.1) ↔ key a ∈ es.map (fun e => key e.1) := by
    rw [map_cons, mem_cons]
    exact ⟨fun hor => hor.resolve_left fun heq => h heq.symm, .inr⟩
  rw [if_neg h, map_cons, ih]
  by_cases hk : key a ∈ es.map (fun e => key e.1)
  · rw [if_pos hk, if_pos (hm.mpr hk), map_cons]
  · rw [if_neg hk, if_neg (mt hm.mp hk), map_cons, cons_append]

def insert (a : A) (v : V) : HashMap key V where
  entries := insertEntry key a v m.entries
  nodup := by
    rw [insertEntry_keys]
    split
    · exact m.nodup
    rename_i h
    exact nodup_append.mpr ⟨m.nodup, nodup_singleton _, by
      rintro k hk _ hk' rfl
      exact h (mem_singleton.mp hk' ▸ hk)⟩

def remove (a : A) : HashMap key V where
  entries := m.entries.filter fun e => key e.1 ≠ key a
  nodup := m.nodup.sublist (filter_sublist.map _)

lemma length_insert_le (a : A) (v : V) :
    (m.insert a v).entries.length ≤ m.entries.length + 1 := by
  have hk := congrArg List.length (@insertEntry_keys _ _ _ _ key a v m.entries)
  rw [length_map] at hk
  show (insertEntry key a v m.entries).length ≤ _
  rw [hk]
  split <;> simp

lemma length_remove_le (a : A) : (m.remove a).entries.length ≤ m.entries.length :=
  length_filter_le _ _

end

variable {a : A} {m : HashMap key V}

lemma length_insert_of_contains (v : V) (h : key a ∈ m.entries.map fun e => key e.1) :
    (m.insert a v).entries.length = m.entries.length := by
  have hk := congrArg List.length (@insertEntry_keys _ _ _ _ key a v m.entries)
  rw [if_pos h, length_map, length_map] at hk
  exact hk

def ofList (es : List (A × V)) : HashMap key V := es.foldl (fun m e => m.insert e.1 e.2) {}

/-! ## Reading -/

lemma get_congr (m : HashMap key V) (h : key a = key b) : m.get a = m.get b := by
  unfold get
  rw [h]

lemma get_empty (a : A) : (({} : HashMap key V).get a) = none := rfl

lemma find?_insertEntry (a b : A) (v : V) (es : List (A × V)) :
    ((insertEntry key a v es).find? fun e => key e.1 = key b).map (·.2) =
      if key b = key a then some v else (es.find? fun e => key e.1 = key b).map (·.2) := by
  induction es with
  | nil =>
    by_cases h : key b = key a
    · simp [insertEntry, h]
    · have : ¬ key a = key b := fun heq => h heq.symm
      simp [insertEntry, h, this]
  | cons e es ih => ?_
  unfold insertEntry
  by_cases h : key e.1 = key a
  · by_cases hb : key b = key a
    · simp [h, hb]
    · have : ¬ key a = key b := fun heq => hb heq.symm
      simp [h, hb, this]
  rw [if_neg h, find?_cons, find?_cons]
  by_cases hb : key e.1 = key b
  · have : ¬ key b = key a := fun heq => h (hb.trans heq)
    simp [hb, this]
  · simpa [hb] using ih

lemma get_insert (m : HashMap key V) (a b : A) (v : V) :
    (m.insert a v).get b = if key b = key a then some v else m.get b :=
  find?_insertEntry a b v m.entries

lemma get_remove (m : HashMap key V) (a b : A) :
    (m.remove a).get b = if key b = key a then none else m.get b := by
  unfold get remove
  rw [find?_filter]
  split
  · rw [find?_eq_none.mpr (by simp_all)]
    rfl
  rename_i h
  congr 2
  funext e
  by_cases hb : key e.1 = key b <;> simp [hb, h]

lemma get_eq_some_iff : m.get a = some v ↔ ∃ e ∈ m.entries, key e.1 = key a ∧ e.2 = v := by
  unfold get
  rw [Option.map_eq_some_iff]
  constructor
  · rintro ⟨e, he, rfl⟩
    exact ⟨e, mem_of_find?_eq_some he, by simpa using find?_some he, rfl⟩
  rintro ⟨e, he, hk, rfl⟩
  refine ⟨e, ?_, rfl⟩
  obtain ⟨e', he'⟩ := Option.isSome_iff_exists.mp
    (find?_isSome.mpr ⟨e, he, by simpa using hk⟩ : (m.entries.find? fun e => key e.1 = key a).isSome)
  have hk' : key e'.1 = key a := by simpa using find?_some he'
  rwa [inj_on_of_nodup_map m.nodup he (mem_of_find?_eq_some he') (hk.trans hk'.symm)]

lemma contains_iff : m.contains a ↔ ∃ b ∈ m.keys, key b = key a := by
  unfold contains keys
  rw [Option.isSome_iff_exists]
  constructor
  · rintro ⟨v, hv⟩
    obtain ⟨e, he, hk, -⟩ := get_eq_some_iff.mp hv
    exact ⟨e.1, mem_map.mpr ⟨e, he, rfl⟩, hk⟩
  rintro ⟨b, hb, hk⟩
  obtain ⟨e, he, rfl⟩ := mem_map.mp hb
  exact ⟨e.2, get_eq_some_iff.mpr ⟨e, he, hk, rfl⟩⟩

lemma mem_ofList (h : (a, v) ∈ (ofList es : HashMap key V).entries) :
    ∃ b, (b, v) ∈ es ∧ key b = key a := by
  have hg : (ofList es : HashMap key V).get a = some v := get_eq_some_iff.mpr ⟨_, h, rfl, rfl⟩
  clear h
  induction es using reverseRecOn with
  | nil => simp [ofList, get_empty] at hg
  | append_singleton es e ih => ?_
  rw [ofList, foldl_append, foldl_cons, foldl_nil, get_insert] at hg
  split at hg
  · rename_i hk
    exact ⟨e.1, by simp [← Option.some.inj hg], hk.symm⟩
  · obtain ⟨b, hb, hk⟩ := ih hg
    exact ⟨b, mem_append_left _ hb, hk⟩

end HashMap

end Codex
