import Codex.Permissions.Policy

/-! # The deepest root that holds a path decides, and of equally deep ones the mode that wins -/

namespace Codex.Permissions

open Codex.Text List Option

namespace FileSystemSandboxPolicy

variable {c : UrlCrates} {policy policy' : FileSystemSandboxPolicy} {context : FileSystemSandboxPolicyContext}
  {path : PathUri}

/-! ## The entry that decides -/

/-- The mode of the deepest root that holds the path; of two as deep, the mode that wins. -/
def Decides (c : UrlCrates) (entries : List (PathUri × FileSystemAccessMode)) (path : PathUri)
    (access : FileSystemAccessMode) : Prop :=
  ∃ root depth, (root, access) ∈ entries ∧ root.lexicalDepth c = some depth ∧ path.startsWith c root = true ∧
    ∀ e ∈ entries, path.startsWith c e.1 = true → ∀ depth', e.1.lexicalDepth c = some depth' →
      depth' < depth ∨ depth' = depth ∧ e.2 ≤ access

/-- What a policy grants for a path: everything, or under restrictions what the entry that decides says. -/
def Grants (c : UrlCrates) (policy : FileSystemSandboxPolicy) (context : FileSystemSandboxPolicyContext)
    (path : PathUri) (access : FileSystemAccessMode) : Prop :=
  if policy.kind = .restricted then
    (path.inferPathConvention c = context.cwd.inferPathConvention c ∧ (path.lexicalDepth c).isSome ∧
      (context.cwd.lexicalDepth c).isSome) ∧
    (∀ e ∈ policy.resolvedEntries c context, e.1.lexicalDepth c = none → e.1.isOpaque c = true) ∧
    Decides c (policy.resolvedEntries c context) path access
  else access = .write

variable {entries : List (PathUri × FileSystemAccessMode)}

variable {deep : List (PathUri × FileSystemAccessMode × Nat)} {access : FileSystemAccessMode}

lemma mem_of_withDepths (h : withDepths c entries = some deep) (e : PathUri × FileSystemAccessMode × Nat) :
    e ∈ deep ↔ (e.1, e.2.1) ∈ entries ∧ e.1.lexicalDepth c = some e.2.2 := by
  induction entries generalizing deep with
  | nil =>
    cases h
    simp
  | cons entry entries ih => ?_
  obtain ⟨root, access⟩ := entry
  obtain ⟨uri, mode, depth⟩ := e
  unfold withDepths at h
  split at h
  · rename_i hd
    obtain ⟨deep', hdee', rfl⟩ := map_eq_some_iff.mp h
    rw [mem_cons, mem_cons, ih hdee']
    simp only [Prod.mk.injEq]
    constructor
    · rintro (⟨rfl, rfl, rfl⟩ | hin)
      · exact ⟨.inl ⟨rfl, rfl⟩, hd⟩
      · exact ⟨.inr hin.1, hin.2⟩
    rintro ⟨⟨rfl, rfl⟩ | hin, hde⟩
    · exact .inl ⟨rfl, rfl, some.inj (hde.symm.trans hd)⟩
    · exact .inr ⟨hin, hde⟩
  rename_i hd
  split at h
  · rw [ih h, mem_cons]
    constructor
    · exact fun hin => ⟨.inr hin.1, hin.2⟩
    rintro ⟨heq | hin, hde⟩
    · cases heq
      rw [hd] at hde
      simp at hde
    · exact ⟨hin, hde⟩
  · simp at h

lemma withDepths_isSome_iff :
    (withDepths c entries).isSome ↔ ∀ e ∈ entries, e.1.lexicalDepth c = none → e.1.isOpaque c := by
  induction entries with
  | nil => simp [withDepths]
  | cons entry entries ih => ?_
  unfold withDepths
  split
  · rename_i hd
    rw [isSome_map, ih]
    simp [hd]
  rename_i hd
  split
  · rename_i hb
    rw [ih]
    simp [hb]
  · rename_i hb
    simp [hd, hb]

lemma mostSpecific_eq_some_iff (h : withDepths c entries = some deep) (access : FileSystemAccessMode) :
    mostSpecific c path deep = some access ↔ Decides c entries path access := by
  -- The mode is read off the greatest key.
  have hk : mostSpecific c path deep = some access ↔ ∃ k, ((maxByKey (fun e => toLex (e.2.2, e.2.1))
      (deep.filter fun entry => path.startsWith c entry.1)).map fun e => toLex (e.2.2, e.2.1)) = some k ∧
      (ofLex k).2 = access := by
    rw [← map_eq_some_iff, Option.map_map]
    rfl
  simp only [hk, map_maxByKey_eq_some_iff, mem_filter, mem_of_withDepths h]
  constructor
  · rintro ⟨k, ⟨⟨⟨root, mode, depth⟩, ⟨⟨hin, hd⟩, hh⟩, rfl⟩, hle⟩, rfl⟩
    refine ⟨root, depth, hin, hd, hh, fun e he heh depth' hd' => ?_⟩
    exact Prod.Lex.toLex_le_toLex.mp (hle (e.1, e.2, depth') ⟨⟨he, hd'⟩, heh⟩)
  rintro ⟨root, depth, hin, hd, hh, hle⟩
  refine ⟨_, ⟨⟨(root, access, depth), ⟨⟨hin, hd⟩, hh⟩, rfl⟩, ?_⟩, rfl⟩
  rintro ⟨root', mode', depth'⟩ ⟨⟨hin', hd'⟩, hh'⟩
  exact Prod.Lex.toLex_le_toLex.mpr (hle (root', mode') hin' hh' depth' hd')

lemma exists_decides (hin : (root, access) ∈ entries) (hde : root.lexicalDepth c = some depth)
    (hh : path.startsWith c root)
    (hr : ∀ e ∈ entries, e.1.lexicalDepth c = none → e.1.isOpaque c) :
    ∃ decided, Decides c entries path decided := by
  obtain ⟨deep, hd⟩ := isSome_iff_exists.mp (withDepths_isSome_iff.mpr hr)
  have hme : (root, access, depth) ∈ deep := (mem_of_withDepths hd _).mpr ⟨hin, hde⟩
  cases hm : mostSpecific c path deep with
  | some decided => exact ⟨decided, (mostSpecific_eq_some_iff hd decided).mp hm⟩
  | none =>
    have hn := maxByKey_eq_none.mp (map_eq_none_iff.mp hm)
    exact absurd hh (filter_eq_nil_iff.mp hn _ hme)

lemma resolveAccess_restricted (h : policy.kind = .restricted) :
    policy.resolveAccess c path context =
      if path.inferPathConvention c = context.cwd.inferPathConvention c ∧
          (path.lexicalDepth c).isSome ∧ (context.cwd.lexicalDepth c).isSome then
        ((withDepths c (policy.resolvedEntries c context)).bind (mostSpecific c path)).getD .deny
      else .deny := by
  unfold resolveAccess
  rw [h]
  simp only
  split
  · rename_i hc
    have hd : context.cwd.lexicalDepth c = none := by
      unfold PathUri.lexicalDepth
      rw [hc]
      split <;> rfl
    rw [if_neg (by simp [hd])]
  rename_i hc
  rw [hc]
  split
  · rename_i hb
    rw [if_neg]
    rintro ⟨hs, hp, hd⟩
    rcases hb with hb | hb | hb
    · exact hb hs
    · simp [hb] at hp
    · simp [hb] at hd
  rename_i hg
  rw [not_or, not_or, not_not] at hg
  rw [if_pos ⟨hg.1, isSome_iff_ne_none.mpr hg.2.1, isSome_iff_ne_none.mpr hg.2.2⟩]
  cases withDepths c (policy.resolvedEntries c context) <;> rfl

lemma resolveAccess_eq_iff (hd : access ≠ .deny) :
    policy.resolveAccess c path context = access ↔ Grants c policy context path access := by
  unfold Grants
  by_cases hki : policy.kind = .restricted
  · rw [resolveAccess_restricted hki, if_pos hki]
    split
    · rename_i hc
      rw [← withDepths_isSome_iff]
      rcases hde : withDepths c (policy.resolvedEntries c context) with _ | deep
      · simp only [isSome_none, Bool.false_eq_true, false_and, and_false, iff_false]
        exact Ne.symm hd
      rw [← mostSpecific_eq_some_iff hde, bind_some]
      simp only [hc, true_and]
      cases mostSpecific c path deep with
      | none => simpa using Ne.symm hd
      | some mode => simp
    rename_i hn
    simp only [hn, false_and, iff_false]
    exact Ne.symm hd
  unfold resolveAccess
  cases hk : policy.kind with
  | restricted => exact absurd hk hki
  | unrestricted | externalSandbox => exact eq_comm

/-! ## Policies with the same entries -/

def SameEntries (policy policy' : FileSystemSandboxPolicy) : Prop :=
  policy.kind = policy'.kind ∧ ∀ entry, entry ∈ policy.entries ↔ entry ∈ policy'.entries

section Same

variable (h : SameEntries policy policy')

include h

lemma SameEntries.any (f : FileSystemSandboxEntry → Bool) :
    policy.entries.any f = policy'.entries.any f := by
  rw [Bool.eq_iff_iff, List.any_eq_true, List.any_eq_true]
  simp only [h.2]

lemma SameEntries.mem_resolvedEntries (e : PathUri × FileSystemAccessMode) :
    e ∈ policy.resolvedEntries c context ↔ e ∈ policy'.resolvedEntries c context := by
  unfold resolvedEntries
  rw [mem_flatMap, mem_flatMap]
  simp only [h.2]

lemma SameEntries.grants_iff (access : FileSystemAccessMode) :
    Grants c policy context path access ↔ Grants c policy' context path access := by
  unfold Grants Decides
  rw [h.1]
  simp only [h.mem_resolvedEntries]

lemma SameEntries.resolveAccess_eq :
    policy.resolveAccess c path context = policy'.resolveAccess c path context := by
  have hi : ∀ access, access ≠ .deny →
      (policy.resolveAccess c path context = access ↔ policy'.resolveAccess c path context = access) := by
    intro access hd
    rw [resolveAccess_eq_iff hd, resolveAccess_eq_iff hd, h.grants_iff]
  by_cases hd : policy.resolveAccess c path context = .deny
  · by_contra hne
    rw [hd] at hne
    exact hne (hd.symm.trans ((hi _ (Ne.symm hne)).mpr rfl))
  · exact ((hi _ hd).mp rfl).symm

lemma SameEntries.hasFullDiskWriteAccess_eq : policy.hasFullDiskWriteAccessWithContext c context =
      policy'.hasFullDiskWriteAccessWithContext c context := by
  have hn : policy.narrowsWrite c = policy'.narrowsWrite c := by
    funext convention entry
    unfold narrowsWrite hasSameTargetWriteOverride
    simp only [h.any]
  unfold hasFullDiskWriteAccessWithContext hasFullDiskWriteAccessForConvention hasRootAccess hasWriteNarrowingEntries
  rw [hn, h.1]
  simp only [h.any]

end Same

end FileSystemSandboxPolicy

end Codex.Permissions
