import Mathlib

/-! # A log of additions and of marks that take the last additions back, read forwards and backwards -/

namespace Codex.Undo

open List

variable {α β : Type}

inductive Entry (α : Type) where
  | push (a : α)
  | undo (n : Nat)
  deriving DecidableEq

section

variable (l : List α)

def unwind (n : Nat) : List α := l.take (l.length - n)

def apply (stack : List α) : Entry α → List α
  | .push a => stack ++ [a]
  | .undo n => unwind stack n

section

variable (log : List (Entry α))

def settle : List α := log.foldl apply []

def scanBack : List (Entry α) → Nat → List α
  | [], _ => []
  | .undo n :: rest, pending => scanBack rest (pending + n)
  | .push a :: rest, 0 => a :: scanBack rest 0
  | .push _ :: rest, pending + 1 => scanBack rest pending

lemma settle_concat (entry : Entry α) :
    settle (log ++ [entry]) = apply (settle log) entry := by
  unfold settle
  rw [foldl_append]
  rfl

lemma foldl_pushes (l stack : List α) : (l.map .push).foldl apply stack = stack ++ l := by
  induction l generalizing stack with
  | nil => simp
  | cons a l ih =>
    rw [map_cons, foldl_cons, ih]
    simp [apply]

@[simp] lemma unwind_zero : unwind l 0 = l := by
  unfold unwind
  rw [Nat.sub_zero, take_length]

lemma length_unwind (n : Nat) : (unwind l n).length = l.length - n := by
  unfold unwind
  rw [length_take]
  omega

lemma unwind_unwind (m n : Nat) : unwind (unwind l m) n = unwind l (m + n) := by
  unfold unwind
  rw [length_take, take_take]
  congr 1
  omega

lemma unwind_concat_succ (a : α) (n : Nat) : unwind (l ++ [a]) (n + 1) = unwind l n := by
  unfold unwind
  rw [length_append, length_singleton, take_append_of_le_length (by omega)]
  congr 1
  omega

lemma scanBack_reverse (pending : Nat) :
    scanBack log.reverse pending = (unwind (settle log) pending).reverse := by
  induction log using reverseRecOn generalizing pending with
  | nil => simp [scanBack, settle, unwind]
  | append_singleton log entry ih => ?_
  rw [reverse_append, reverse_singleton, singleton_append, settle_concat]
  cases entry with
  | undo n =>
    unfold scanBack
    rw [ih, apply, unwind_unwind, Nat.add_comm]
  | push a => ?_
  cases pending with
  | zero => ?_
  | succ pending =>
    unfold scanBack
    rw [ih, apply, unwind_concat_succ]
  unfold scanBack
  rw [ih, apply, unwind_zero, unwind_zero, reverse_append]
  rfl

def pushed : List α :=
  log.filterMap fun entry => match entry with
    | .push a => some a
    | .undo _ => none

lemma pushed_concat_push (a : α) : pushed (log ++ [.push a]) = pushed log ++ [a] := by
  simp [pushed]

lemma pushed_concat_undo (n : Nat) : pushed (log ++ [.undo n]) = pushed log := by
  simp [pushed]

end

end

variable {log : List (Entry α)} {f : α → List β}

lemma settle_sublist (log : List (Entry α)) : settle log <+ pushed log := by
  induction log using reverseRecOn with
  | nil => exact .slnil
  | append_singleton log entry ih => ?_
  rw [settle_concat]
  cases entry with
  | push a =>
    rw [pushed_concat_push]
    exact ih.append (.refl _)
  | undo n =>
    rw [pushed_concat_undo]
    exact (take_sublist _ _).trans ih

lemma pushed_sublist (h : before <+: log) : pushed before <+ pushed log :=
  (h.filterMap _).sublist

/-! ## Marks within the log -/

/-- Every mark takes back additions of the log only. -/
def Covered (log : List (Entry α)) : Prop :=
  ∀ before n after, log = before ++ .undo n :: after → n ≤ (settle before).length

def remaining : List (Entry α) → Nat → Nat
  | [], pending => pending
  | .undo n :: rest, pending => remaining rest (pending + n)
  | .push _ :: rest, pending => remaining rest (pending - 1)

lemma covered_nil : Covered ([] : List (Entry α)) := by
  intro before n after h
  simp at h

lemma Covered.of_concat (h : Covered (log ++ [entry])) : Covered log := by
  intro before n after hl
  exact h before n (after ++ [entry]) (by rw [hl, append_assoc, cons_append])

lemma Covered.last {log : List (Entry α)} {n : Nat} (h : Covered (log ++ [.undo n])) : n ≤ (settle log).length :=
  h log n [] rfl

lemma Covered.push (h : Covered log) (a : α) : Covered (log ++ [.push a]) := by
  intro before n after hl
  cases after using reverseRecOn with
  | nil => simp at hl
  | append_singleton after entry =>
    rw [← cons_append, ← append_assoc] at hl
    exact h before n after (append_inj' hl rfl).1

lemma Covered.undo (h : Covered log) (hn : n ≤ (settle log).length) :
    Covered (log ++ [.undo n]) := by
  intro before m after hl
  cases after using reverseRecOn with
  | nil => ?_
  | append_singleton after entry =>
    rw [← cons_append, ← append_assoc] at hl
    exact h before m after (append_inj' hl rfl).1
  obtain ⟨hb, he⟩ := append_inj' hl rfl
  simp only [cons.injEq, Entry.undo.injEq, and_true] at he
  rw [← hb, ← he]
  exact hn

lemma remaining_reverse (h : Covered log) (pending : Nat) :
    remaining log.reverse pending = pending - (settle log).length := by
  induction log using reverseRecOn generalizing pending with
  | nil => rfl
  | append_singleton log entry ih => ?_
  rw [reverse_append, reverse_singleton, singleton_append, settle_concat]
  cases entry with
  | undo n => ?_
  | push a =>
    rw [remaining, ih h.of_concat, apply, length_append, length_singleton]
    omega
  have hn := h.last
  rw [remaining, ih h.of_concat, apply, length_unwind]
  omega

/-! ## Additions made of several parts -/

section

variable (f : α → List β)

def Entry.parts : Entry α → List (Entry β)
  | .push a => (f a).map .push
  | .undo n => [.undo n]

def parts (log : List (Entry α)) : List (Entry β) := log.flatMap (Entry.parts f)

lemma settle_parts_push (log : List (Entry α)) (a : α) :
    settle (parts f (log ++ [.push a])) = settle (parts f log) ++ f a := by
  unfold parts settle
  rw [flatMap_append, foldl_append, flatMap_singleton]
  exact foldl_pushes _ _

lemma settle_parts_undo (log : List (Entry α)) (n : Nat) :
    settle (parts f (log ++ [.undo n])) = unwind (settle (parts f log)) n := by
  unfold parts settle
  rw [flatMap_append, foldl_append]
  rfl

end

/-- Each mark takes back as many parts as it counts, or all that are left. -/
def Evenly (f : α → List β) (log : List (Entry α)) : Prop :=
  ∀ before n after, log = before ++ .undo n :: after →
    (((settle before).drop ((settle before).length - n)).flatMap f).length = min n ((settle before).flatMap f).length

lemma Evenly.of_append (h : Evenly f (log ++ more)) : Evenly f log := by
  intro before n after hl
  exact h before n (after ++ more) (by rw [hl, append_assoc, cons_append])

lemma flatMap_unwind (l : List α) (n : Nat) :
    l.flatMap f = (unwind l n).flatMap f ++ (l.drop (l.length - n)).flatMap f := by
  rw [← flatMap_append, unwind, take_append_drop]

lemma settle_parts (h : Evenly f log) : settle (parts f log) = (settle log).flatMap f := by
  induction log using reverseRecOn with
  | nil => rfl
  | append_singleton log entry ih => ?_
  rw [settle_concat]
  cases entry with
  | push a => rw [settle_parts_push, ih h.of_append, apply, flatMap_append, flatMap_singleton]
  | undo n =>
    have hn := h log n [] rfl
    have hl := congrArg List.length (flatMap_unwind (f := f) (settle log) n)
    rw [length_append] at hl
    rw [settle_parts_undo, ih h.of_append, apply, unwind]
    nth_rewrite 2 [flatMap_unwind (settle log) n]
    exact take_left' (by omega)

/-- Each mark in turn, with the marks before it even. -/
lemma Evenly.of_marks (h : ∀ before n, before ++ [.undo n] <+: log → Evenly f before →
    (((settle before).drop ((settle before).length - n)).flatMap f).length = min n ((settle before).flatMap f).length) :
    Evenly f log := by
  intro before n after hl
  induction hk : before.length using Nat.strong_induction_on generalizing before n after with
  | _ k ih =>
    refine h before n ⟨after, by simp [hl]⟩ fun first m rest hb => ?_
    exact ih first.length (by simp [← hk, hb]) first m (rest ++ .undo n :: after) (by simp [hl, hb]) rfl

/-- The marks are even when forgetting parts one by one always leaves as many as are left. -/
lemma evenly_of_length (h : ∀ before, before <+: log →
    (settle (parts f before)).length = ((settle before).flatMap f).length) : Evenly f log := by
  rintro before n after rfl
  have hb := h before (prefix_append _ _)
  have hu := h (before ++ [.undo n]) ⟨after, by simp⟩
  have hl := congrArg List.length (flatMap_unwind (f := f) (settle before) n)
  rw [settle_parts_undo, length_unwind, settle_concat, apply, hb] at hu
  rw [length_append] at hl
  omega

end Codex.Undo
