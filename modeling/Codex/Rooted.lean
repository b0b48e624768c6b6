import Mathlib

/-! # The deepest root above a path decides, as in rules -/

namespace Codex.Rooted

open List

variable {α M A B : Type} {path root : List α}

/-! ## The deepest root -/

section Deepest

variable [LinearOrder M] {entries : List (List α × M)} {mode : M}

structure Decides (entries : List (List α × M)) (path root : List α) (mode : M) : Prop where
  mem : (root, mode) ∈ entries
  above : root <+: path
  most : ∀ e ∈ entries, e.1 <+: path → e.1.length < root.length ∨ e.1 = root ∧ e.2 ≤ mode

lemma eq_of_prefix_length (hl : left <+: path) (hr : right <+: path) (h : left.length = right.length) : left = right :=
  (prefix_of_prefix_length_le hl hr h.le).eq_of_length h

lemma Decides.above_root (h : Decides entries path root mode) (hin : e ∈ entries)
    (ha : e.1 <+: path) : e.1 <+: root := by
  rcases h.most e hin ha with hlt | ⟨heq, -⟩
  · exact prefix_of_prefix_length_le ha h.above hlt.le
  · rw [heq]

lemma Decides.of_between (h : Decides entries path root mode) (hr : root <+: mid)
    (hp : mid <+: path) : Decides entries mid root mode where
  mem := h.mem
  above := hr
  most e hin ha := h.most e hin (ha.trans hp)

lemma Decides.unique (h : Decides entries path root mode) (h' : Decides entries path root' mode') :
    root = root' ∧ mode = mode' := by
  have hr : root = root' := by
    have hle := (h.above_root h'.mem h'.above).length_le
    have hle' := (h'.above_root h.mem h.above).length_le
    exact eq_of_prefix_length h.above h'.above (le_antisymm hle' hle)
  subst hr
  refine ⟨rfl, le_antisymm ?_ ?_⟩
  · rcases h'.most _ h.mem h.above with hlt | ⟨-, hle⟩
    · exact absurd hlt (lt_irrefl _)
    · exact hle
  rcases h.most _ h'.mem h'.above with hlt | ⟨-, hle⟩
  · exact absurd hlt (lt_irrefl _)
  · exact hle

lemma Decides.eq_self (h : Decides entries path root mode) (hin : (path, other) ∈ entries) : root = path := by
  rcases h.most _ hin prefix_rfl with hlt | ⟨heq, -⟩
  · exact absurd h.above.length_le (not_le.mpr hlt)
  · exact heq.symm

lemma Decides.self (hin : (path, mode) ∈ entries) (htop : ∀ m, m ≤ mode) : Decides entries path path mode where
  mem := hin
  above := prefix_rfl
  most _ _ ha := ha.length_le.lt_or_eq.imp_right fun hl => ⟨ha.eq_of_length hl, htop _⟩

lemma exists_decides (entries : List (List α × M)) (path : List α) (h : ∃ e ∈ entries, e.1 <+: path) :
    ∃ root mode, Decides entries path root mode := by
  induction entries with
  | nil => simp at h
  | cons e entries ih => ?_
  by_cases hr : ∃ e ∈ entries, e.1 <+: path
  · obtain ⟨root, mode, hd⟩ := ih hr
    -- The new entry takes over when it is above the path and deeper, or as deep with a greater mode.
    by_cases hnew : e.1 <+: path ∧ (root.length < e.1.length ∨ e.1 = root ∧ mode ≤ e.2)
    · obtain ⟨ha, hw⟩ := hnew
      refine ⟨e.1, e.2, by simp, ha, fun other ho hpr => ?_⟩
      rcases mem_cons.mp ho with rfl | hin
      · exact .inr ⟨rfl, le_rfl⟩
      rcases hd.most other hin hpr with hlt | ⟨heq, hle⟩ <;> rcases hw with hde | ⟨hs, hm⟩
      · exact .inl (hlt.trans hde)
      · exact .inl (hs ▸ hlt)
      · exact .inl (heq ▸ hde)
      · exact .inr ⟨heq.trans hs.symm, hle.trans hm⟩
    refine ⟨root, mode, by simp [hd.mem], hd.above, fun other ho hpr => ?_⟩
    rcases mem_cons.mp ho with rfl | hin
    · by_contra hn
      simp only [not_or, not_lt, not_and, not_le] at hn
      refine hnew ⟨hpr, ?_⟩
      rcases hn.1.lt_or_eq with hlt | heq
      · exact .inl hlt
      · have hs := eq_of_prefix_length hpr hd.above heq.symm
        exact .inr ⟨hs, (hn.2 hs).le⟩
    · exact hd.most other hin hpr
  obtain ⟨only, hin, ha⟩ := h
  rcases mem_cons.mp hin with rfl | hin
  · refine ⟨only.1, only.2, by simp, ha, fun other ho hpr => ?_⟩
    rcases mem_cons.mp ho with rfl | ho
    · exact .inr ⟨rfl, le_rfl⟩
    · exact absurd ⟨other, ho, hpr⟩ hr
  · exact absurd ⟨only, hin, ha⟩ hr

end Deepest

/-! ## Guarded names below roots -/

section Guarded

variable [DecidableEq α] [LinearOrder M] {guards : List α} {grant mode : M} {entries : List (List α × M)}
  {dir mid upper : List α}

def guardAt (guards : List α) (path root : List α) : Option (List α) :=
  (guards.map (root ++ [·])).find? (· <+: path)

section

variable (guards : List α) (grant : M) (entries : List (List α × M)) (path : List α)

def firstGuard : Option (List α) :=
  (entries.filter (·.2 = grant)).findSome? fun e => guardAt guards path e.1

/-- A granting root decides about the path, and a granting root below the first guarded directory holds it. -/
def Granted : Prop :=
  (∃ root, Decides entries path root grant) ∧
    ∀ dir ∈ firstGuard guards grant entries path, ∃ root, (root, grant) ∈ entries ∧ root <+: path ∧ dir <+: root

/-- Where a grant can end: at a root of another mode, or at a guarded directory of a granting root. -/
def Boundary : Prop :=
  (∃ mode, mode ≠ grant ∧ (path, mode) ∈ entries) ∨
    ∃ root name, (root, grant) ∈ entries ∧ name ∈ guards ∧ path = root ++ [name]

end

lemma guardAt_eq_some (h : guardAt guards path root = some dir) :
    (∃ name ∈ guards, dir = root ++ [name]) ∧ dir <+: path := by
  unfold guardAt at h
  refine ⟨?_, by simpa using find?_some h⟩
  obtain ⟨name, hn, rfl⟩ := mem_map.mp (mem_of_find?_eq_some h)
  exact ⟨name, hn, rfl⟩

lemma guardAt_of_between (h : guardAt guards path root = some dir) (hd : dir <+: mid)
    (hp : mid <+: path) : guardAt guards mid root = some dir := by
  obtain ⟨-, pre, after, heq, hb⟩ := find?_eq_some_iff_append.mp h
  refine find?_eq_some_iff_append.mpr ⟨decide_eq_true hd, pre, after, heq, ?_⟩
  intro other ho
  have := hb other ho
  simp only [Bool.not_eq_true', decide_eq_false_iff_not] at this ⊢
  exact fun hpr => this (hpr.trans hp)

lemma guardAt_none_above (h : guardAt guards path root = none) (hp : mid <+: path) :
    guardAt guards mid root = none := by
  rw [guardAt, find?_eq_none] at h ⊢
  intro dir hd
  have := h dir hd
  rw [decide_eq_true_iff] at this ⊢
  exact fun hpr => this (hpr.trans hp)

lemma firstGuard_eq_some (h : firstGuard guards grant entries path = some dir) :
    (∃ root name, (root, grant) ∈ entries ∧ name ∈ guards ∧ dir = root ++ [name]) ∧ dir <+: path := by
  obtain ⟨e, he, hat⟩ := exists_of_findSome?_eq_some h
  obtain ⟨⟨name, hn, hd⟩, hp⟩ := guardAt_eq_some hat
  obtain ⟨hin, hm⟩ := mem_filter.mp he
  refine ⟨⟨e.1, name, ?_, hn, hd⟩, hp⟩
  rw [← of_decide_eq_true hm]
  exact hin

lemma firstGuard_of_between (h : firstGuard guards grant entries path = some dir) (hd : dir <+: mid)
    (hp : mid <+: path) : firstGuard guards grant entries mid = some dir := by
  obtain ⟨pre, e, after, heq, hat, hb⟩ := findSome?_eq_some_iff.mp h
  refine findSome?_eq_some_iff.mpr ⟨pre, e, after, heq, guardAt_of_between hat hd hp, ?_⟩
  exact fun other ho => guardAt_none_above (hb other ho) hp

lemma Decides.granted (h : Decides entries path path grant) : Granted guards grant entries path :=
  ⟨⟨path, h⟩, fun _ hg => ⟨path, h.mem, prefix_rfl, (firstGuard_eq_some hg).2⟩⟩

/-- The guards below the deciding root are no deeper than one name. -/
lemma Granted.of_between (h : Granted guards grant entries path) (hd : Decides entries path root grant)
    (hr : root <+: mid) (hl : root.length < mid.length) (hp : mid <+: path) :
    Granted guards grant entries mid := by
  refine ⟨⟨root, hd.of_between hr hp⟩, fun dir hg => ?_⟩
  rcases hf : firstGuard guards grant entries path with _ | dir'
  · rw [firstGuard, findSome?_eq_none_iff] at hf
    obtain ⟨e, he, hat⟩ := exists_of_findSome?_eq_some hg
    rw [guardAt_none_above (hf e he) hp] at hat
    cases hat
  obtain ⟨⟨upper, name, hin, -, rfl⟩, ha⟩ := firstGuard_eq_some hf
  have hu := (hd.above_root hin ((prefix_append _ _).trans ha)).length_le
  have hb : upper ++ [name] <+: mid := prefix_of_prefix_length_le ha hp (by simpa using hu.trans_lt hl)
  cases (firstGuard_of_between hf hb hp).symm.trans hg
  obtain ⟨held, hin', ha', hdir⟩ := h.2 _ hf
  exact ⟨held, hin', (hd.above_root hin' ha').trans hr, hdir⟩

lemma exists_boundary (hr : ∃ e ∈ entries, e.1 <+: path) (h : ¬ Granted guards grant entries path) :
    ∃ edge, edge <+: path ∧ Boundary guards grant entries edge ∧
      ∀ mid, edge <+: mid → mid <+: path → ¬ Granted guards grant entries mid := by
  obtain ⟨root, mode, hd⟩ := exists_decides entries path hr
  by_cases hm : mode = grant
  · subst hm
    -- The mode is the granting one, so a guarded directory is in the way.
    have hgu : ∃ dir, firstGuard guards mode entries path = some dir ∧
        ∀ root, (root, mode) ∈ entries → root <+: path → ¬ dir <+: root := by
      by_contra hn
      refine h ⟨⟨root, hd⟩, fun dir hdi => ?_⟩
      by_contra hno
      exact hn ⟨dir, hdi, fun root hin hp hdi => hno ⟨root, hin, hp, hdi⟩⟩
    obtain ⟨dir, hf, hno⟩ := hgu
    obtain ⟨he, hp⟩ := firstGuard_eq_some hf
    refine ⟨dir, hp, .inr he, fun mid hdi hb hg => ?_⟩
    obtain ⟨exempting, hin, hbe, ha⟩ := hg.2 dir (firstGuard_of_between hf hdi hb)
    exact hno exempting hin (hbe.trans hb) ha
  refine ⟨root, hd.above, .inl ⟨mode, hm, hd.mem⟩, fun mid hbe hb hg => ?_⟩
  obtain ⟨⟨granting, hgr⟩, -⟩ := hg
  exact hm (hgr.unique (hd.of_between hbe hb)).2.symm

section Below

variable (hu : Granted guards grant entries upper) (hp : upper <+: path)
  (h : ¬ Granted guards grant entries path)

include hu hp h

lemma exists_boundary_below : ∃ edge, upper <+: edge ∧ edge <+: path ∧
      Boundary guards grant entries edge ∧ ¬ Granted guards grant entries edge := by
  obtain ⟨_, hd⟩ := hu.1
  obtain ⟨edge, he, hbo, hb⟩ := exists_boundary ⟨_, hd.mem, hd.above.trans hp⟩ h
  refine ⟨edge, ?_, he, hbo, hb edge prefix_rfl he⟩
  rcases prefix_or_prefix_of_prefix hp he with ha | hbe
  · exact ha
  · exact absurd hu (hb upper hbe hp)

end Below

end Guarded

end Codex.Rooted
