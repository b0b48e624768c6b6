import Codex.TurnDiff.Tracker

/-! # Every baseline path is on the left once and every current path on the right once -/

namespace Codex.TurnDiff

open TurnDiffTracker List

variable {c : UrlCrates} {t : TurnDiffTracker c} {it : Iteration}

/-! ## All paths -/

lemma mem_destutter' {α β : Type} [DecidableEq β] (f : α → β) (a : α) (l : List α) (b : β) :
    b ∈ (l.destutter' (fun p q => f p ≠ f q) a).map f ↔ b ∈ (a :: l).map f := by
  induction l generalizing a with
  | nil => simp
  | cons d l ih => ?_
  by_cases h : f a = f d
  · rw [destutter'_cons_neg _ (by simpa using h), ih]
    simp [h]
  · rw [destutter'_cons_pos _ h, map_cons, mem_cons, ih]
    simp

lemma mem_map_destutter {α β : Type} [DecidableEq β] (f : α → β) (l : List α) (b : β) :
    b ∈ (l.destutter fun p q => f p ≠ f q).map f ↔ b ∈ l.map f := by
  cases l with
  | nil => simp
  | cons a l => exact mem_destutter' f a l b

lemma mem_diffPaths : path.key c ∈ (t.diffPaths it).map (TrackedPath.key c) ↔
    t.baselineByPath.contains path ∨ t.currentByPath.contains path := by
  unfold diffPaths
  rw [mem_map_destutter, ((perm_insertionSort _ _).map _).mem_iff, map_append, mem_append,
    HashMap.contains_iff, HashMap.contains_iff, ((it.baseline.perm _).map _).mem_iff,
    ((it.current.perm _).map _).mem_iff, mem_map, mem_map]

/-! ## Renames -/

lemma contains_congr (m : HashMap (TrackedPath.key c) V) (h : p.key c = q.key c) : m.contains p = m.contains q := by
  unfold HashMap.contains
  rw [m.get_congr h]

lemma renamePairs_spec (h : (origin, dest) ∈ (t.renamePairs it).entries) :
    t.baselineByPath.contains origin ∧ ¬ t.currentByPath.contains origin ∧ t.currentByPath.contains dest ∧
      ¬ t.baselineByPath.contains dest ∧
      ∃ o, (dest, o) ∈ t.originByCurrentPath.entries ∧ o.key c = origin.key c := by
  obtain ⟨o, ho, hk⟩ := HashMap.mem_ofList h
  obtain ⟨⟨d, _⟩, he, hs⟩ := mem_filterMap.mp ho
  rw [Order.mem_visit] at he
  rw [Option.ite_none_left_eq_some] at hs
  obtain ⟨hc, heq⟩ := hs
  cases heq
  rw [contains_congr t.currentByPath hk, contains_congr t.baselineByPath hk] at hc
  simp only [Bool.or_eq_true, not_or, Bool.not_eq_true', Bool.not_eq_false] at hc
  exact ⟨hc.1.2, hc.1.1.1.2, hc.1.1.2, hc.2, _, he, hk⟩

lemma renamePairs_inj (h₁ : (o₁, d₁) ∈ (t.renamePairs it).entries)
    (h₂ : (o₂, d₂) ∈ (t.renamePairs it).entries) (hd : d₁.key c = d₂.key c) : o₁.key c = o₂.key c := by
  obtain ⟨-, -, -, -, _, hp₁, hk₁⟩ := renamePairs_spec h₁
  obtain ⟨-, -, -, -, _, hp₂, hk₂⟩ := renamePairs_spec h₂
  have heq := inj_on_of_nodup_map t.originByCurrentPath.nodup hp₁ hp₂ hd
  rw [← hk₁, ← hk₂, (Prod.mk.inj heq).2]

/-! ## The pairs -/

def Paired (renames : HashMap (TrackedPath.key c) TrackedPath) (k : Text × PathUri.Identity) : Prop :=
  ∃ e ∈ renames.entries, e.2.key c = k

lemma any_values_iff (renames : HashMap (TrackedPath.key c) TrackedPath) (path : TrackedPath) :
    (renames.values.any fun dest => dest.key c = path.key c) ↔ Paired renames (path.key c) := by
  unfold HashMap.values Paired
  simp

/-- Each path is on the left of one pair, unless it was handled before or is the end of a rename. -/
structure Chosen (renames : HashMap (TrackedPath.key c) TrackedPath) (handled : List (Text × PathUri.Identity))
    (paths : List TrackedPath) (pairs : List (TrackedPath × TrackedPath)) : Prop where
  right : ∀ pair ∈ pairs, pair.2 = (renames.get pair.1).getD pair.1
  nodup : (pairs.map (·.1.key c)).Nodup
  left : ∀ k, k ∈ pairs.map (·.1.key c) ↔ k ∈ paths.map (TrackedPath.key c) ∧ k ∉ handled ∧ ¬ Paired renames k

section

variable {renames : HashMap (TrackedPath.key c) TrackedPath} {handled handled' : List (Text × PathUri.Identity)}
  {path : TrackedPath} {paths : List TrackedPath} {pairs : List (TrackedPath × TrackedPath)}

section Choosing

variable (h : Chosen renames handled' paths pairs)
  (hope : ∀ k, ¬ Paired renames k → (k ∉ handled' ↔ k ∉ handled ∧ k ≠ path.key c))

include h hope

lemma Chosen.skip (hs : path.key c ∈ handled ∨ Paired renames (path.key c)) :
    Chosen renames handled (path :: paths) pairs := by
  refine ⟨h.right, h.nodup, fun k => (h.left k).trans ?_⟩
  rw [map_cons, mem_cons]
  constructor
  · rintro ⟨hk, hh, hp⟩
    exact ⟨.inr hk, ((hope k hp).mp hh).1, hp⟩
  rintro ⟨rfl | hk, hh, hp⟩
  · exact absurd hs (not_or.mpr ⟨hh, hp⟩)
  refine ⟨hk, (hope k hp).mpr ⟨hh, ?_⟩, hp⟩
  rintro rfl
  exact not_or.mpr ⟨hh, hp⟩ hs

lemma Chosen.pair (hf : path.key c ∉ handled) (hp : ¬ Paired renames (path.key c))
    (hr : dest = (renames.get path).getD path) :
    Chosen renames handled (path :: paths) ((path, dest) :: pairs) := by
  constructor
  · exact forall_mem_cons.mpr ⟨hr, h.right⟩
  · rw [map_cons, nodup_cons]
    refine ⟨fun hm => ?_, h.nodup⟩
    obtain ⟨-, hh, -⟩ := (h.left _).mp hm
    exact ((hope _ hp).mp hh).2 rfl
  · intro k
    rw [map_cons, mem_cons, map_cons, mem_cons, h.left]
    constructor
    · rintro (rfl | ⟨hk, hh, hk'⟩)
      · exact ⟨.inl rfl, hf, hp⟩
      · exact ⟨.inr hk, ((hope k hk').mp hh).1, hk'⟩
    rintro ⟨hk, hh, hk'⟩
    by_cases heq : k = path.key c
    · exact .inl heq
    · exact .inr ⟨hk.resolve_left heq, (hope k hk').mpr ⟨hh, heq⟩, hk'⟩

end Choosing

lemma choosePairs_chosen (renames : HashMap (TrackedPath.key c) TrackedPath)
    (handled : List (Text × PathUri.Identity)) (paths : List TrackedPath) :
    Chosen renames handled paths (choosePairs renames handled paths) := by
  induction paths generalizing handled with
  | nil => exact ⟨by simp [choosePairs], by simp [choosePairs], by simp [choosePairs]⟩
  | cons path paths ih => ?_
  unfold choosePairs
  split
  · rename_i hh
    refine (ih handled).skip (fun k _ => ⟨fun hk => ⟨hk, ?_⟩, And.left⟩) (.inl hh)
    rintro rfl
    exact hk hh
  rename_i hf
  split
  · rename_i ha
    refine (ih _).skip (fun k _ => ?_) (.inr ((any_values_iff _ _).mp ha))
    rw [mem_cons, not_or, and_comm]
  rename_i ha
  have hp : ¬ Paired renames (path.key c) := fun h => ha ((any_values_iff _ _).mpr h)
  split
  · rename_i hd
    refine (ih _).pair (fun k hk => ?_) hf hp (by rw [hd]; rfl)
    obtain ⟨e, he, -, rfl⟩ := HashMap.get_eq_some_iff.mp hd
    have : k ≠ e.2.key c := fun heq => hk ⟨e, he, heq.symm⟩
    rw [mem_cons, mem_cons, not_or, not_or, and_iff_right this, and_comm]
  rename_i hn
  refine (ih _).pair (fun k _ => ?_) hf hp (by rw [hn]; rfl)
  rw [mem_cons, not_or, and_comm]

end

lemma diffPairs_chosen : Chosen (t.renamePairs it) [] (t.diffPaths it) (t.diffPairs it) :=
  choosePairs_chosen _ _ _

lemma diffPairs_cases (h : pair ∈ t.diffPairs it) :
    (∃ o, (o, pair.2) ∈ (t.renamePairs it).entries ∧ o.key c = pair.1.key c) ∨
      (pair.2 = pair.1 ∧ ¬ Paired (t.renamePairs it) (pair.1.key c)) := by
  have hr := diffPairs_chosen.right pair h
  cases hg : (t.renamePairs it).get pair.1 with
  | some dest => ?_
  | none =>
    rw [hg] at hr
    exact .inr ⟨hr, ((diffPairs_chosen.left _).mp (mem_map.mpr ⟨pair, h, rfl⟩)).2.2⟩
  obtain ⟨e, he, hk, rfl⟩ := HashMap.get_eq_some_iff.mp hg
  rw [hg] at hr
  exact .inl ⟨e.1, by rw [hr]; exact he, hk⟩

lemma diffPairs_right_nodup : ((t.diffPairs it).map (·.2.key c)).Nodup := by
  have hl : (t.diffPairs it).Pairwise fun p q => p.1.key c ≠ q.1.key c :=
    pairwise_map.mp diffPairs_chosen.nodup
  unfold List.Nodup
  rw [pairwise_map]
  refine hl.imp_of_mem fun {p q} hp hq hne heq => ?_
  obtain ⟨o, ho, hk⟩ | ⟨hp', hpa⟩ := diffPairs_cases hp <;>
    obtain ⟨_, ho', hk'⟩ | ⟨hq', hpa'⟩ := diffPairs_cases hq
  · exact hne (by rw [← hk, ← hk', renamePairs_inj ho ho' heq])
  · exact hpa' ⟨_, ho, by rw [heq, hq']⟩
  · exact hpa ⟨_, ho', by rw [← heq, hp']⟩
  · exact hne (by rw [← hp', heq, hq'])

lemma mem_left_of_baseline (h : t.baselineByPath.contains path) :
    path.key c ∈ (t.diffPairs it).map (·.1.key c) := by
  refine (diffPairs_chosen.left _).mpr ⟨mem_diffPaths.mpr (.inl h), not_mem_nil, ?_⟩
  rintro ⟨e, he, hk⟩
  obtain ⟨-, -, -, hb, -⟩ := renamePairs_spec he
  rw [contains_congr _ hk] at hb
  exact hb h

/-- **A baseline path is on the left of one pair.** -/
lemma diffPairs_count_left (h : t.baselineByPath.contains path) :
    ((t.diffPairs it).map (·.1.key c)).count (path.key c) = 1 :=
  count_eq_one_of_mem diffPairs_chosen.nodup (mem_left_of_baseline h)

/-- **A current path is on the right of one pair.** -/
lemma diffPairs_count_right (h : t.currentByPath.contains path) :
    ((t.diffPairs it).map (·.2.key c)).count (path.key c) = 1 := by
  apply count_eq_one_of_mem diffPairs_right_nodup
  by_cases hpa : Paired (t.renamePairs it) (path.key c)
  · -- The path is the end of a rename: the pair is that of its origin.
    obtain ⟨⟨o, d⟩, he, hk⟩ := hpa
    have hori : o.key c ∈ (t.diffPairs it).map (·.1.key c) := mem_left_of_baseline (renamePairs_spec he).1
    obtain ⟨pair, hp, ho⟩ := mem_map.mp hori
    refine mem_map.mpr ⟨pair, hp, ?_⟩
    rw [diffPairs_chosen.right pair hp, HashMap.get_eq_some_iff.mpr ⟨_, he, ho.symm, rfl⟩]
    exact hk
  have hl : path.key c ∈ (t.diffPairs it).map (·.1.key c) :=
    (diffPairs_chosen.left _).mpr ⟨mem_diffPaths.mpr (.inr h), not_mem_nil, hpa⟩
  obtain ⟨pair, hp, hk⟩ := mem_map.mp hl
  refine mem_map.mpr ⟨pair, hp, ?_⟩
  obtain ⟨o, ho, hk'⟩ | ⟨heq, -⟩ := diffPairs_cases hp
  · obtain ⟨-, hc, -⟩ := renamePairs_spec ho
    rw [contains_congr _ (hk'.trans hk)] at hc
    exact absurd h hc
  · rw [heq]
    exact hk

end Codex.TurnDiff
