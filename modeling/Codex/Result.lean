import Mathlib.Data.List.Basic

/-! # `Result`: `?` is the bind of `Except`, and a `for` loop with `?` is `List.foldlM` -/

namespace Codex.Result

open List

variable {ε α β σ : Type}

@[simp] lemma ok_bind (a : α) (f : α → Except ε β) : (Except.ok a >>= f) = f a := rfl

@[simp] lemma error_bind (e : ε) (f : α → Except ε β) : (Except.error e >>= f) = Except.error e := rfl

@[simp] lemma pure_eq_ok (a : α) : (pure a : Except ε α) = Except.ok a := rfl

@[simp] lemma throw_eq_error (e : ε) : (throw e : Except ε α) = Except.error e := rfl

variable {as : List α} {f : α → Except ε β} {a : α} {s t : σ} {bs : List β}

variable {x : Except ε α} {b : β}

lemma bind_eq_ok : (x >>= f) = Except.ok b ↔ ∃ a, x = Except.ok a ∧ f a = Except.ok b := by
  cases x <;> simp

lemma mapError_eq_ok {ε' : Type} {f : ε → ε'} : x.mapError f = Except.ok a ↔ x = Except.ok a := by
  cases x <;> simp [Except.mapError]

lemma foldlM_cons_ok {f : σ → α → Except ε σ} :
    (a :: as).foldlM f s = Except.ok t ↔ ∃ m, f s a = Except.ok m ∧ as.foldlM f m = Except.ok t := by
  rw [foldlM_cons, bind_eq_ok]

lemma foldlM_append_ok {f : σ → α → Except ε σ} {bs : List α} :
    (as ++ bs).foldlM f s = Except.ok t ↔
      ∃ m, as.foldlM f s = Except.ok m ∧ bs.foldlM f m = Except.ok t := by
  rw [foldlM_append, bind_eq_ok]

lemma foldlM_flatten (f : σ → α → Except ε σ) (ass : List (List α)) (s : σ) :
    ass.foldlM (fun s as => as.foldlM f s) s = ass.flatten.foldlM f s := by
  induction ass generalizing s with
  | nil => rfl
  | cons as ass ih => simp only [foldlM_cons, flatten_cons, foldlM_append, ih]

lemma foldlM_invariant {f : σ → α → Except ε σ} (I : σ → Prop) (h : as.foldlM f s = Except.ok t) (hs : I s)
    (hst : ∀ s a t, a ∈ as → I s → f s a = Except.ok t → I t) : I t := by
  induction as generalizing s with
  | nil => simp at h; exact h ▸ hs
  | cons a as ih =>
    obtain ⟨m, hm, h⟩ := foldlM_cons_ok.mp h
    exact ih h (hst s a m (by simp) hs hm) fun s b t hb => hst s b t (by simp [hb])

lemma foldlM_step {f : σ → α → Except ε σ} (h : as.foldlM f s = Except.ok t) (ha : a ∈ as) :
    ∃ m n, f m a = Except.ok n := by
  induction as generalizing s with
  | nil => simp at ha
  | cons b as ih => ?_
  obtain ⟨m, hm, h⟩ := foldlM_cons_ok.mp h
  rcases mem_cons.mp ha with rfl | ha
  · exact ⟨s, m, hm⟩
  · exact ih h ha

/-- A loop that collects: what each round adds is what it has in the end. -/
lemma foldlM_mem {f : List β → α → Except ε (List β)} (g : α → List β) {s t : List β}
    (h : as.foldlM f s = Except.ok t) (hs : ∀ s a t, f s a = Except.ok t → ∀ b, b ∈ t ↔ b ∈ s ∨ b ∈ g a)
    (b : β) : b ∈ t ↔ b ∈ s ∨ ∃ a ∈ as, b ∈ g a := by
  induction as generalizing s with
  | nil =>
    obtain rfl : s = t := by simpa using h
    simp
  | cons a as ih => ?_
  obtain ⟨m, hm, h⟩ := foldlM_cons_ok.mp h
  rw [ih h, hs s a m hm b]
  simp only [mem_cons, exists_eq_or_imp, or_assoc]

lemma mapM_cons_ok :
    (a :: as).mapM f = Except.ok bs ↔ ∃ b rest, f a = Except.ok b ∧ as.mapM f = Except.ok rest ∧ bs = b :: rest := by
  rw [mapM_cons, bind_eq_ok]
  simp only [bind_eq_ok, pure_eq_ok, Except.ok.injEq, eq_comm (a := bs)]
  constructor
  · rintro ⟨b, hb, rest, hr, h⟩
    exact ⟨b, rest, hb, hr, h⟩
  · rintro ⟨b, rest, hb, hr, h⟩
    exact ⟨b, hb, rest, hr, h⟩

lemma mem_of_mapM_ok (h : as.mapM f = Except.ok bs) (b : β) : b ∈ bs ↔ ∃ a ∈ as, f a = Except.ok b := by
  induction as generalizing bs with
  | nil =>
    obtain rfl : [] = bs := by simpa using h
    simp
  | cons a as ih => ?_
  obtain ⟨_, _, hb', hr, rfl⟩ := mapM_cons_ok.mp h
  rw [mem_cons, ih hr]
  simp [hb', eq_comm]

lemma ok_of_mapM_ok (h : as.mapM f = Except.ok bs) (a : α) (ha : a ∈ as) : ∃ b ∈ bs, f a = Except.ok b := by
  induction as generalizing bs with
  | nil => simp at ha
  | cons a' as ih => ?_
  obtain ⟨b', _, hb', hr, rfl⟩ := mapM_cons_ok.mp h
  rcases mem_cons.mp ha with rfl | hin
  · exact ⟨b', by simp, hb'⟩
  · obtain ⟨b, hb, hok⟩ := ih hr hin
    exact ⟨b, by simp [hb], hok⟩

lemma mapM_ok_of_forall (h : ∀ a ∈ as, f a = Except.ok (g a)) :
    as.mapM f = Except.ok (as.map g) := by
  induction as with
  | nil => rfl
  | cons a as ih =>
    exact mapM_cons_ok.mpr ⟨g a, as.map g, h a (by simp), ih fun b hb => h b (by simp [hb]), rfl⟩

lemma exists_error_of_mapM (h : as.mapM f = Except.error e) : ∃ a ∈ as, f a = Except.error e := by
  induction as with
  | nil => simp at h
  | cons a as ih => ?_
  rw [mapM_cons] at h
  rcases hb : f a with e' | b
  · rw [hb] at h
    obtain rfl : e' = e := by simpa using h
    exact ⟨a, by simp, hb⟩
  rcases hr : as.mapM f with e' | rest
  · rw [hb, hr] at h
    obtain rfl : e' = e := by simpa using h
    obtain ⟨a', hin, ha'⟩ := ih hr
    exact ⟨a', by simp [hin], ha'⟩
  rw [hb, hr] at h
  simp at h

end Codex.Result
