import Mathlib.Logic.Basic

/-! # Programs whose state survives a failure: `Spec` gives what holds at each of the two exits -/

namespace Codex

abbrev Program (σ ε α : Type) := ExceptT ε (StateM σ) α

namespace Program

variable {σ τ ε ε' α β : Type}

def exec (x : Program σ ε α) (s : σ) : Except ε α × σ := StateT.run (ExceptT.run x) s

def update (f : σ → σ) : Program σ ε Unit := fun s => (.ok (), f s)

def ofStep (f : σ → Except ε α × σ) : Program σ ε α := f

def attempt (x : Program σ ε α) : Program σ ε' (Except ε α) := fun s => (.ok (x.exec s).1, (x.exec s).2)

def mapError (f : ε → ε') (x : Program σ ε α) : Program σ ε' α :=
  fun s => ((x.exec s).1.mapError f, (x.exec s).2)

def ofResult (r : Except ε α) : Program σ ε α := fun s => (r, s)

def zoom (get : τ → σ) (set : τ → σ → τ) (x : Program σ ε α) : Program τ ε α :=
  fun t => ((x.exec (get t)).1, set t (x.exec (get t)).2)

/-! ## Running -/

@[simp] lemma exec_pure (a : α) (s : σ) : exec (pure a : Program σ ε α) s = (.ok a, s) := rfl

@[simp] lemma exec_throw (e : ε) (s : σ) : exec (throw e : Program σ ε α) s = (.error e, s) := rfl

@[simp] lemma exec_update (f : σ → σ) (s : σ) : exec (update f : Program σ ε Unit) s = (.ok (), f s) := rfl

@[simp] lemma exec_ofStep (f : σ → Except ε α × σ) (s : σ) : exec (ofStep f) s = f s := rfl

@[simp] lemma exec_attempt (x : Program σ ε α) (s : σ) :
    exec (x.attempt : Program σ ε' _) s = (.ok (x.exec s).1, (x.exec s).2) := rfl

@[simp] lemma exec_mapError (f : ε → ε') (x : Program σ ε α) (s : σ) :
    exec (x.mapError f) s = ((x.exec s).1.mapError f, (x.exec s).2) := rfl

@[simp] lemma exec_ofResult (r : Except ε α) (s : σ) : exec (ofResult r) s = (r, s) := rfl

@[simp] lemma exec_zoom (get : τ → σ) (set : τ → σ → τ) (x : Program σ ε α) (t : τ) :
    exec (x.zoom get set) t = ((x.exec (get t)).1, set t (x.exec (get t)).2) := rfl

lemma exec_bind (x : Program σ ε α) (f : α → Program σ ε β) (s : σ) :
    exec (x >>= f) s = match x.exec s with
      | (.ok a, t) => (f a).exec t
      | (.error e, t) => (.error e, t) := by
  show (match x.exec s with | (r, t) => (ExceptT.bindCont f r : StateM σ (Except ε β)) t) = _
  rcases x.exec s with ⟨_ | _, t⟩ <;> rfl

variable {x : Program σ ε α} {f : α → Program σ ε β} {t : σ}

variable {a : α} {e : ε} {r : Except ε α}

lemma exec_bind_ok (h : x.exec s = (.ok a, t)) : exec (x >>= f) s = (f a).exec t := by
  rw [exec_bind, h]

lemma exec_bind_error (h : x.exec s = (.error e, t)) : exec (x >>= f) s = (.error e, t) := by
  rw [exec_bind, h]

/-! ## Specifications -/

/-- From `s` the program ends with a value and a state in `ok`, or with a failure and a state in `err`. -/
def Spec (x : Program σ ε α) (s : σ) (ok : α → σ → Prop) (err : ε → σ → Prop) : Prop :=
  match x.exec s with
  | (.ok a, t) => ok a t
  | (.error e, t) => err e t

variable {ok : α → σ → Prop} {err : ε → σ → Prop} {s : σ}

@[simp] lemma spec_pure : Spec (pure a) s ok err ↔ ok a s := Iff.rfl

@[simp] lemma spec_throw : Spec (throw e) s ok err ↔ err e s := Iff.rfl

@[simp] lemma spec_update {f : σ → σ} {ok : Unit → σ → Prop} : Spec (update f) s ok err ↔ ok () (f s) :=
  Iff.rfl

lemma spec_ofResult :
    Spec (ofResult r) s ok err ↔ match r with | .ok a => ok a s | .error e => err e s := by
  cases r <;> rfl

@[simp] lemma spec_attempt {ok : Except ε α → σ → Prop} {err : ε' → σ → Prop} :
    Spec x.attempt s ok err ↔ Spec x s (fun a => ok (.ok a)) (fun e => ok (.error e)) := by
  rw [Spec, Spec, exec_attempt]
  rcases x.exec s with ⟨_ | _, t⟩ <;> rfl

@[simp] lemma spec_mapError {f : ε → ε'} {err : ε' → σ → Prop} :
    Spec (x.mapError f) s ok err ↔ Spec x s ok (fun e => err (f e)) := by
  rw [Spec, Spec, exec_mapError]
  rcases x.exec s with ⟨_ | _, t⟩ <;> rfl

@[simp] lemma spec_zoom {get : τ → σ} {set : τ → σ → τ} {t : τ} {ok : α → τ → Prop} {err : ε → τ → Prop} :
    Spec (x.zoom get set) t ok err ↔
      Spec x (get t) (fun a s => ok a (set t s)) (fun e s => err e (set t s)) := by
  rw [Spec, Spec, exec_zoom]
  rcases x.exec (get t) with ⟨_ | _, t⟩ <;> rfl

@[simp] lemma spec_bind {ok : β → σ → Prop} :
    Spec (x >>= f) s ok err ↔ Spec x s (fun a t => Spec (f a) t ok err) err := by
  rw [Spec, Spec, exec_bind]
  rcases x.exec s with ⟨_ | _, t⟩ <;> rfl

lemma Spec.mono (h : Spec x s ok err)
    (hok : ∀ a t, ok a t → ok' a t) (he : ∀ e t, err e t → err' e t) : Spec x s ok' err' := by
  revert h
  unfold Spec
  rcases x.exec s with ⟨e | a, t⟩
  · exact he e t
  · exact hok a t

lemma Spec.exec (h : Spec x s ok err) (hx : x.exec s = (r, t)) :
    match r with | .ok a => ok a t | .error e => err e t := by
  unfold Spec at h
  rw [hx] at h
  cases r <;> exact h

end Program

end Codex
