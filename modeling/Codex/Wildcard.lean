import Mathlib.Data.List.Infix
import Mathlib.Tactic.Ring

/-!
# Wildcard patterns

A pattern is a list of letter tests and stars. The search below keeps one retry point, the last star it passed.
-/

namespace Codex.Wildcard

open List

variable {α : Type*}

/-- A star is `none`, and `some ok` stands for one letter that passes. -/
abbrev Pattern (α : Type*) := List (Option (α → Bool))

inductive Matches : Pattern α → List α → Prop
  | nil : Matches [] []
  | skip {p : Pattern α} {s : List α} : Matches p s → Matches (none :: p) s
  | take {p : Pattern α} {a : α} {s : List α} : Matches (none :: p) s → Matches (none :: p) (a :: s)
  | one {ok : α → Bool} {p : Pattern α} {a : α} {s : List α} :
    ok a = true → Matches p s → Matches (some ok :: p) (a :: s)

variable {p : Pattern α} {s : List α} {a : α}

lemma matches_nil_iff : Matches [] s ↔ s = [] := by
  constructor
  · rintro ⟨⟩
    rfl
  · rintro rfl
    exact .nil

variable {ok : α → Bool} {p' : Pattern α} {star : Option (Pattern α × List α)}

lemma matches_some_iff :
    Matches (some ok :: p) s ↔ ∃ a rest, s = a :: rest ∧ ok a ∧ Matches p rest := by
  constructor
  · rintro (_ | _ | _ | ⟨hok, hr⟩)
    exact ⟨_, _, rfl, hok, hr⟩
  · rintro ⟨a, rest, rfl, hok, hr⟩
    exact .one hok hr

lemma matches_star_iff : Matches (none :: p) s ↔ ∃ x y, s = x ++ y ∧ Matches p y := by
  constructor
  · intro h
    generalize hq : none :: p = q at h
    induction h with
    | nil => simp at hq
    | skip h _ =>
      obtain rfl := (cons.inj hq).2
      exact ⟨[], _, rfl, h⟩
    | @take _ a _ _ ih =>
      obtain ⟨x, y, rfl, hy⟩ := ih hq
      exact ⟨a :: x, y, rfl, hy⟩
    | one => simp at hq
  rintro ⟨x, y, rfl, hy⟩
  induction x with
  | nil => exact .skip hy
  | cons a x ih => exact .take ih

lemma matches_append_iff :
    Matches (p ++ q) s ↔ ∃ x y, s = x ++ y ∧ Matches p x ∧ Matches q y := by
  induction p generalizing s with
  | nil =>
    simp only [matches_nil_iff]
    constructor
    · exact fun h => ⟨[], s, rfl, rfl, h⟩
    · rintro ⟨x, y, rfl, rfl, hy⟩
      exact hy
  | cons token p ih => ?_
  rcases token with _ | ok
  · simp only [cons_append, matches_star_iff, ih]
    constructor
    · rintro ⟨x, _, rfl, y, z, rfl, hy, hz⟩
      exact ⟨x ++ y, z, by simp, ⟨x, y, rfl, hy⟩, hz⟩
    · rintro ⟨_, z, rfl, ⟨x, y, rfl, hy⟩, hz⟩
      exact ⟨x, y ++ z, by simp, y, z, rfl, hy, hz⟩
  simp only [cons_append, matches_some_iff, ih]
  constructor
  · rintro ⟨a, _, rfl, hok, y, z, rfl, hy, hz⟩
    exact ⟨a :: y, z, rfl, ⟨a, y, rfl, hok, hy⟩, hz⟩
  · rintro ⟨_, z, rfl, ⟨a, y, rfl, hok, hy⟩, hz⟩
    exact ⟨a, y ++ z, rfl, hok, y, z, rfl, hy, hz⟩

lemma matches_stars_iff : Matches p [] ↔ p.all Option.isNone := by
  induction p with
  | nil => simp [matches_nil_iff]
  | cons token p ih => ?_
  cases token with
  | none => simp [matches_star_iff, ih]
  | some ok => simp [matches_some_iff]

lemma matches_length (hp : ∀ token ∈ p, token.isSome) (h : Matches p s) : s.length = p.length := by
  induction h with
  | nil => rfl
  | skip | take => simp at hp
  | one _ _ ih => simpa using ih fun token ht => hp token (mem_cons_of_mem _ ht)

def advance : Pattern α → α → Option (Pattern α)
  | some ok :: p, a => if ok a then some p else none
  | _, _ => none

lemma advance_eq_some : advance p a = some p' ↔ ∃ ok, p = some ok :: p' ∧ ok a := by
  match p with
  | [] => simp [advance]
  | none :: p => simp [advance]
  | some ok :: p =>
    by_cases hok : ok a
    · simp [advance, hok]
    have hn : advance (some ok :: p) a = none := by simp [advance, hok]
    rw [hn]
    constructor
    · exact fun h => absurd h (by simp)
    rintro ⟨other, h, ho⟩
    obtain ⟨rfl, _⟩ : ok = other ∧ p = p' := by simpa using h
    exact absurd ho hok

lemma not_matches_of_stuck (s : List α) (hs : ∀ q, p ≠ none :: q) (h : advance p a = none) :
    ¬ Matches p (a :: s) := by
  rintro (_ | hr | hr | ⟨hok, _⟩)
  · exact hs _ rfl
  · exact hs _ rfl
  · simp [advance, hok] at h

def effort (p : Pattern α) (s : List α) : Option (Pattern α × List α) → Nat
  | none => s.length * (p.length + 1) + p.length
  | some (resume, consumed) =>
    max consumed.length s.length * (max resume.length p.length + 1) + p.length

lemma effort_star (p : Pattern α) (s : List α) (star : Option (Pattern α × List α)) :
    effort p s (some (p, s)) < effort (none :: p) s star := by
  match star with
  | none =>
    have : s.length * (p.length + 1) ≤ s.length * (p.length + 1 + 1) := Nat.mul_le_mul_left _ (by omega)
    simp only [effort, max_self, length_cons]
    omega
  | some (resume, consumed) =>
    have : s.length * (p.length + 1) ≤ max consumed.length s.length * (max resume.length (p.length + 1) + 1) :=
      Nat.mul_le_mul (by omega) (by omega)
    simp only [effort, max_self, length_cons]
    omega

lemma effort_advance (s : List α) (star : Option (Pattern α × List α)) (h : advance p a = some p') :
    effort p' s star < effort p (a :: s) star := by
  obtain ⟨_, rfl, _⟩ := advance_eq_some.mp h
  match star with
  | none =>
    have : s.length * (p'.length + 1) ≤ (s.length + 1) * (p'.length + 1 + 1) :=
      Nat.mul_le_mul (by omega) (by omega)
    simp only [effort, length_cons]
    omega
  | some (resume, consumed) =>
    have : max consumed.length s.length * (max resume.length p'.length + 1) ≤
        max consumed.length (s.length + 1) * (max resume.length (p'.length + 1) + 1) :=
      Nat.mul_le_mul (by omega) (by omega)
    simp only [effort, length_cons]
    omega

lemma effort_retry (p resume : Pattern α) (s consumed : List α) (c : α) :
    effort resume consumed (some (resume, consumed)) < effort p s (some (resume, c :: consumed)) := by
  have : (consumed.length + 1) * (resume.length + 1) ≤
      max (c :: consumed).length s.length * (max resume.length p.length + 1) :=
    Nat.mul_le_mul (by simp) (by simp)
  have hs : (consumed.length + 1) * (resume.length + 1) =
      consumed.length * (resume.length + 1) + (resume.length + 1) := by ring
  simp only [effort, max_self]
  omega

/-- The retry point is the pattern after the last star and the letters that star has not taken. -/
def search (p : Pattern α) (s : List α) (star : Option (Pattern α × List α)) : Bool :=
  match s with
  | [] => p.all Option.isNone
  | a :: s =>
    match p with
    | none :: p => search p (a :: s) (some (p, a :: s))
    | p =>
      match _h : advance p a with
      | some p => search p s star
      | none =>
        match star with
        | some (resume, _ :: consumed) => search resume consumed (some (resume, consumed))
        | _ => false
termination_by effort p s star
decreasing_by
  · apply effort_star
  · apply effort_advance s star _h
  · apply effort_retry

/-- How often the loop of the search goes round. -/
def rounds (p : Pattern α) (s : List α) (star : Option (Pattern α × List α)) : Nat :=
  match s with
  | [] => 0
  | a :: s =>
    match p with
    | none :: p => rounds p (a :: s) (some (p, a :: s)) + 1
    | p =>
      match _h : advance p a with
      | some p => rounds p s star + 1
      | none =>
        match star with
        | some (resume, _ :: consumed) => rounds resume consumed (some (resume, consumed)) + 1
        | _ => 1
termination_by effort p s star
decreasing_by
  · apply effort_star
  · apply effort_advance s star _h
  · apply effort_retry

lemma rounds_le_effort (p : Pattern α) (s : List α) (star : Option (Pattern α × List α)) :
    rounds p s star ≤ effort p s star := by
  fun_induction rounds p s star with
  | case1 p star => exact Nat.zero_le _
  | case2 star a s p ih => exact ih.trans_lt (effort_star p (a :: s) star)
  | case3 star a s p hne p' ha ih => exact ih.trans_lt (effort_advance s star ha)
  | case4 a s p hne ha resume b consumed ih => exact ih.trans_lt (effort_retry p resume (a :: s) consumed b)
  | case5 star a s p hne ha he =>
    have hp : ∀ m n k, 0 < (m + 1) * (n + 1) + k := fun m n k => Nat.add_pos_left (by simp) k
    match star with
    | none => exact hp _ _ _
    | some (resume, consumed) =>
      obtain ⟨m, hm⟩ : ∃ m, max consumed.length (a :: s).length = m + 1 := ⟨_, (Nat.succ_pred (by simp)).symm⟩
      simp only [effort, hm]
      exact hp _ _ _

lemma rounds_le (p : Pattern α) (s : List α) : rounds p s none ≤ (p.length + 1) * (s.length + 1) := by
  have h : effort p s none + 1 = (p.length + 1) * (s.length + 1) := by
    simp only [effort]
    ring
  have := rounds_le_effort p s none
  omega

def Progress (p : Pattern α) (s : List α) : Option (Pattern α × List α) → Prop
  | none => True
  | some (resume, consumed) => ∃ tests taken, resume = tests ++ p ∧ consumed = taken ++ s ∧
    tests.length = taken.length ∧ ∀ token ∈ tests, token.isSome

/-- The last star takes one letter more, or several. -/
def Retry : Option (Pattern α × List α) → Prop
  | none => False
  | some (resume, consumed) => Matches (none :: resume) consumed.tail

/-- A retry leaves for the rest of the pattern only letters it has now: no earlier star is ever needed. -/
lemma star_of_retry (hst : Progress p s star) (h : Retry star) : Matches (none :: p) s := by
  match star with
  | none => exact h.elim
  | some (resume, consumed) =>
    obtain ⟨_, taken, rfl, rfl, _, hte⟩ := hst
    obtain ⟨x, y, ht, hy⟩ := matches_star_iff.mp h
    obtain ⟨y₁, y₂, rfl, hy₁, hy₂⟩ := matches_append_iff.mp hy
    have hl : taken.length ≤ (x ++ y₁).length := by
      have := matches_length hte hy₁
      simp only [length_append]
      omega
    have hs : y₂ <:+ taken ++ s :=
      (suffix_append (x ++ y₁) y₂).trans (by rw [append_assoc, ← ht]; exact tail_suffix _)
    have hsh : y₂.length ≤ s.length := by
      have := congrArg List.length ht
      simp only [length_tail, length_append] at this hl
      omega
    obtain ⟨z, rfl⟩ : y₂ <:+ s := suffix_of_suffix_length_le hs (suffix_append _ _) hsh
    exact matches_star_iff.mpr ⟨z, y₂, rfl, hy₂⟩

lemma progress_advance (h : Progress (some ok :: p) (a :: s) star) : Progress p s star := by
  match star with
  | none => trivial
  | some (resume, consumed) =>
    obtain ⟨tests, taken, rfl, rfl, hl, hte⟩ := h
    refine ⟨tests ++ [some ok], taken ++ [a], by simp, by simp, by simpa using hl, ?_⟩
    intro token ht
    rcases mem_append.mp ht with ht | ht
    · exact hte token ht
    · obtain rfl := mem_singleton.mp ht
      rfl

lemma progress_self (p : Pattern α) (s : List α) : Progress p s (some (p, s)) :=
  ⟨[], [], rfl, rfl, rfl, by simp⟩

lemma matches_or_retry_self : Matches p s ∨ Retry (some (p, s)) ↔ Matches (none :: p) s := by
  constructor
  · rintro (h | h)
    · exact .skip h
    · exact star_of_retry (progress_self p s) h
  rintro (_ | h | h | _)
  · exact .inl h
  · exact .inr h

lemma search_iff_of_progress (p : Pattern α) (s : List α) (star : Option (Pattern α × List α))
    (hs : Progress p s star) : search p s star ↔ Matches p s ∨ Retry star := by
  fun_induction search p s star with
  | case1 p star =>
    rw [← matches_stars_iff]
    constructor
    · exact .inl
    rintro (h | h)
    · exact h
    obtain ⟨x, y, hxy, hy⟩ := matches_star_iff.mp (star_of_retry hs h)
    obtain ⟨rfl, rfl⟩ := append_eq_nil_iff.mp hxy.symm
    exact hy
  | case2 star a s p ih =>
    rw [ih (progress_self _ _), matches_or_retry_self]
    constructor
    · exact .inl
    rintro (h | h)
    · exact h
    obtain ⟨x, y, hxy, hy⟩ := matches_star_iff.mp (star_of_retry hs h)
    obtain ⟨x', y', rfl, hy'⟩ := matches_star_iff.mp hy
    exact matches_star_iff.mpr ⟨x ++ x', y', by simp [hxy], hy'⟩
  | case3 star a s p hne p' ha ih =>
    obtain ⟨_, rfl, hok⟩ := advance_eq_some.mp ha
    rw [ih (progress_advance hs)]
    simp [matches_some_iff, hok]
  | case4 a s p hne ha resume b consumed ih =>
    have hst := not_matches_of_stuck s hne ha
    rw [ih (progress_self _ _), matches_or_retry_self]
    simp [hst, Retry]
  | case5 star a s p hne ha he =>
    have hst := not_matches_of_stuck s hne ha
    simp only [Bool.false_eq_true, hst, false_or, false_iff]
    match star with
    | none => exact id
    | some (resume, consumed) =>
      obtain ⟨_, taken, _, rfl, _⟩ := hs
      cases taken with
      | nil => exact absurd rfl (he resume a s)
      | cons b taken => exact absurd rfl (he resume b _)

/-- The search with one retry point finds a match whenever there is one. -/
lemma search_iff : search p s none ↔ Matches p s := by
  rw [search_iff_of_progress p s none trivial]
  simp [Retry]

example : search [some (· == 1), none, some (· == 2)] [1, 5, 2, 7, 2] none = true := by decide +kernel

end Codex.Wildcard
