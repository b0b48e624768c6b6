import Codex.HashMap

/-! # A map as the bare list of its entries, in order of insertion, so that a tree can hold maps of itself -/

namespace Codex.Entries

open List

variable {K V : Type} [DecidableEq K] {es base overlay : List (K × V)} {k l : K} {v : V}

def get (es : List (K × V)) (k : K) : Option V := (es.find? fun e => e.1 = k).map (·.2)

def insert (es : List (K × V)) (k : K) (v : V) : List (K × V) := HashMap.insertEntry id k v es

def remove (es : List (K × V)) (k : K) : List (K × V) := es.filter fun e => e.1 ≠ k

section

variable (f : K → K)

/-- Every key is rewritten, one entry after another: where two keys become one, the later value stays. -/
def rekey (es : List (K × V)) : List (K × V) := es.foldl (fun m e => insert m (f e.1) e.2) []

def last (es : List (K × V)) (k : K) : Option V := (es.reverse.find? fun e => f e.1 = k).map (·.2)

lemma get_insert : get (insert es k v) l = if l = k then some v else get es l :=
  @HashMap.find?_insertEntry K K V _ id k l v es

lemma get_cons (e : K × V) : get (e :: es) k = if e.1 = k then some e.2 else get es k := by
  unfold get
  by_cases h : e.1 = k <;> simp [h]

lemma get_remove : get (remove es k) l = if l = k then none else get es l := by
  unfold get remove
  rw [find?_filter]
  split
  · rw [find?_eq_none.mpr (by simp_all)]
    rfl
  rename_i h
  congr 2
  funext e
  by_cases he : e.1 = l <;> simp [he, h]

lemma insert_of_get (h : get es k = some v) : insert es k v = es := by
  induction es with
  | nil => cases h
  | cons e es ih => ?_
  rw [get_cons] at h
  unfold insert HashMap.insertEntry
  by_cases hk : e.1 = k
  · rw [if_pos hk] at h
    rw [if_pos (show id e.1 = id k from hk), ← Option.some.inj h]
  rw [if_neg hk] at h
  rw [if_neg (show ¬ id e.1 = id k from hk)]
  exact congrArg (e :: ·) (ih h)

lemma mem_of_get (h : get es k = some v) : (k, v) ∈ es := by
  unfold get at h
  obtain ⟨e, he, rfl⟩ := Option.map_eq_some_iff.mp h
  obtain rfl : e.1 = k := by simpa using find?_some he
  exact mem_of_find?_eq_some he

lemma get_isSome_of_mem (h : e ∈ es) : ∃ v, get es e.1 = some v := by
  unfold get
  have hf : (es.find? fun e' => e'.1 = e.1).isSome := find?_isSome.mpr ⟨e, h, decide_eq_true rfl⟩
  obtain ⟨e', he'⟩ := Option.isSome_iff_exists.mp hf
  exact ⟨e'.2, by rw [he']; rfl⟩

lemma get_eq_none_iff : get es k = none ↔ ∀ e ∈ es, e.1 ≠ k := by
  unfold get
  simp

lemma get_of_mem (hn : (es.map (·.1)).Nodup) (h : e ∈ es) : get es e.1 = some e.2 := by
  obtain ⟨v, hv⟩ := get_isSome_of_mem h
  have := inj_on_of_nodup_map hn h (mem_of_get hv) rfl
  rw [hv, this]

lemma nodup_insert (h : (es.map (·.1)).Nodup) : ((insert es k v).map (·.1)).Nodup := by
  have hk := @HashMap.insertEntry_keys K K V _ id k v es
  simp only [id] at hk
  unfold insert
  rw [hk]
  split
  · exact h
  rename_i hf
  exact nodup_append.mpr ⟨h, nodup_singleton _, by
    rintro a ha _ hb rfl
    exact hf (mem_singleton.mp hb ▸ ha)⟩

/-! ## Rewritten keys -/

lemma rekey_concat (e : K × V) : rekey f (es ++ [e]) = insert (rekey f es) (f e.1) e.2 := by
  unfold rekey
  rw [foldl_append]
  rfl

lemma last_concat (e : K × V) : last f (es ++ [e]) k = if k = f e.1 then some e.2 else last f es k := by
  unfold last
  by_cases h : f e.1 = k
  · simp [h]
  · have : ¬ k = f e.1 := fun heq => h heq.symm
    simp [h, this]

lemma get_rekey : get (rekey f es) k = last f es k := by
  induction es using reverseRecOn with
  | nil => rfl
  | append_singleton es e ih => rw [rekey_concat, get_insert, last_concat, ih]

lemma nodup_rekey : ((rekey f es).map (·.1)).Nodup := by
  induction es using reverseRecOn with
  | nil => exact nodup_nil
  | append_singleton es e ih =>
    rw [rekey_concat]
    exact nodup_insert ih

lemma last_eq_some (h : last f es k = some v) : ∃ e ∈ es, f e.1 = k ∧ e.2 = v := by
  unfold last at h
  obtain ⟨e, he, rfl⟩ := Option.map_eq_some_iff.mp h
  exact ⟨e, mem_reverse.mp (mem_of_find?_eq_some he), by simpa using find?_some he, rfl⟩

lemma last_eq_none_iff : last f es k = none ↔ ∀ e ∈ es, f e.1 ≠ k := by
  unfold last
  simp

lemma mem_rekey (h : e ∈ rekey f es) : ∃ e' ∈ es, f e'.1 = e.1 ∧ e'.2 = e.2 := by
  have hg := get_of_mem (nodup_rekey f) h
  rw [get_rekey] at hg
  exact last_eq_some f hg

end

/-! ## Overlays -/

/-- The entries of an overlay put over a base: where both have a key, `f` says what becomes of the two values. -/
def overlaid (f : K → V → V → V) (base overlay : List (K × V)) : List (K × V) :=
  overlay.foldl (fun m e => insert m e.1 ((get m e.1).elim e.2 fun existing => f e.1 existing e.2)) base

lemma get_overlaid (f : K → V → V → V) (hn : (overlay.map (·.1)).Nodup) :
    get (overlaid f base overlay) k = match get overlay k with
      | some value => some ((get base k).elim value fun existing => f k existing value)
      | none => get base k := by
  induction overlay generalizing base with
  | nil => rfl
  | cons e overlay ih => ?_
  obtain ⟨hf, hn⟩ := nodup_cons.mp hn
  have hr := @ih (insert base e.1 ((get base e.1).elim e.2 fun existing => f e.1 existing e.2)) hn
  unfold overlaid at hr ⊢
  rw [foldl_cons, hr, get_cons, get_insert]
  by_cases h : e.1 = k
  · have hno : get overlay k = none := get_eq_none_iff.mpr fun e' he' heq =>
      hf (mem_map.mpr ⟨e', he', heq.trans h.symm⟩)
    rw [hno, if_pos h, if_pos h.symm, h]
  · rw [if_neg h, if_neg (Ne.symm h)]

lemma nodup_overlaid (f : K → V → V → V) (h : (base.map (·.1)).Nodup) :
    ((overlaid f base overlay).map (·.1)).Nodup := by
  unfold overlaid
  induction overlay generalizing base with
  | nil => exact h
  | cons e overlay ih => exact ih (nodup_insert h)

end Codex.Entries
