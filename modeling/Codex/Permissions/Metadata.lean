import Codex.Permissions.Access

/-! # The protection of metadata stops at the first directory that holds the path -/

namespace Codex.Permissions

open Codex.Text List Option

namespace FileSystemSandboxPolicy

variable {c : UrlCrates} {policy policy' : FileSystemSandboxPolicy} {context : FileSystemSandboxPolicyContext}
  {path dir : PathUri}

/-! ## Metadata directories -/

/-- The path is in protected metadata of a writable root. -/
def Protects (c : UrlCrates) (policy : FileSystemSandboxPolicy) (context : FileSystemSandboxPolicyContext)
    (path dir : PathUri) : Prop :=
  ∃ root metadataName, (root, .write) ∈ policy.resolvedEntries c context ∧
    metadataName ∈ protectedMetadataPathNames ∧ root.joinDescendant c metadataName = .ok dir ∧
    path.startsWith c dir = true

/-- A writable root inside the metadata covers the path. -/
def Exempted (c : UrlCrates) (policy : FileSystemSandboxPolicy) (context : FileSystemSandboxPolicyContext)
    (path dir : PathUri) : Prop :=
  ∃ root, (root, .write) ∈ policy.resolvedEntries c context ∧ path.startsWith c root = true ∧
    root.startsWith c dir = true

def dirOf (c : UrlCrates) (path : PathUri) (roots : List (PathUri × FileSystemAccessMode)) : Option PathUri :=
  ((roots.filter (·.2.canWrite)).findSome? fun (root, _) => protectedDir c path root).map (·.1)

def firstDir (c : UrlCrates) (policy : FileSystemSandboxPolicy) (path : PathUri)
    (context : FileSystemSandboxPolicyContext) : Option PathUri :=
  dirOf c path (policy.resolvedEntries c context)

lemma exempts_iff : exempts c (policy.resolvedEntries c context) path dir ↔
    Exempted c policy context path dir := by
  unfold exempts Exempted
  rw [List.any_eq_true]
  constructor
  · rintro ⟨⟨root, _⟩, hin, hr⟩
    simp only [Bool.and_eq_true, FileSystemAccessMode.canWrite_iff] at hr
    obtain ⟨⟨rfl, hp⟩, hd⟩ := hr
    exact ⟨root, hin, hp, hd⟩
  rintro ⟨root, hin, hp, hd⟩
  refine ⟨_, hin, ?_⟩
  simp only [Bool.and_eq_true]
  exact ⟨⟨rfl, hp⟩, hd⟩

lemma canWritePath_iff : policy.canWritePath c path context ↔
    Grants c policy context path .write ∧
      (policy.hasFullDiskWriteAccessWithContext c context = false →
        ∀ dir ∈ policy.firstDir c path context, Exempted c policy context path dir) := by
  rw [← resolveAccess_eq_iff (by decide)]
  unfold canWritePath
  by_cases ha : policy.resolveAccess c path context = .write
  · rw [if_neg (by simp [FileSystemAccessMode.canWrite_iff, ha])]
    simp only [ha]
    cases hd : policy.hasFullDiskWriteAccessWithContext c context with
    | true => simp
    | false => ?_
    have hki : policy.kind = .restricted := by
      unfold hasFullDiskWriteAccessWithContext hasFullDiskWriteAccessForConvention at hd
      cases hk : policy.kind <;> simp_all
    unfold metadataWriteDenial firstDir dirOf
    rw [if_neg (by simp [hki])]
    simp only [← exempts_iff]
    cases hf : ((policy.resolvedEntries c context).filter (·.2.canWrite)).findSome?
        (fun e => protectedDir c path e.1) with
    | none => simp
    | some hit => cases he : exempts c (policy.resolvedEntries c context) path hit.1 <;> simp [he]
  · rw [if_pos (by simp [Bool.eq_false_iff, FileSystemAccessMode.canWrite_iff, ha])]
    simp [ha]

lemma protectedDir_ne_none (hn : metadataName ∈ protectedMetadataPathNames)
    (hj : root.joinDescendant c metadataName = .ok dir) (hs : path.startsWith c dir) :
    protectedDir c path root ≠ none := by
  unfold protectedDir
  intro hno
  have := findSome?_eq_none_iff.mp hno metadataName hn
  rw [hj] at this
  simp [Except.toOption, hs] at this

lemma firstDir_of_protects (h : Protects c policy context path dir) :
    ∃ first, policy.firstDir c path context = some first := by
  obtain ⟨root, _, hm, hn, hj, hs⟩ := h
  rw [← ne_none_iff_exists']
  unfold firstDir dirOf
  rw [Ne, map_eq_none_iff, findSome?_eq_none_iff]
  intro hno
  exact protectedDir_ne_none hn hj hs (hno (root, .write) (mem_filter.mpr ⟨hm, rfl⟩))

/-- **Metadata stays protected**, unless the first directory that holds the path is exempted and another is not. -/
theorem metadata_protected_iff (c : UrlCrates) (policy : FileSystemSandboxPolicy)
    (context : FileSystemSandboxPolicyContext) (path : PathUri)
    (hdisk : policy.hasFullDiskWriteAccessWithContext c context = false) :
    (∀ dir, Protects c policy context path dir → ¬ Exempted c policy context path dir →
        policy.canWritePath c path context = false) ↔
      (Grants c policy context path .write →
        ∀ first ∈ policy.firstDir c path context, Exempted c policy context path first →
          ∀ dir, Protects c policy context path dir → Exempted c policy context path dir) := by
  constructor
  · intro hd hg first hf he dir hp
    by_contra hn
    have hw : policy.canWritePath c path context = true := by
      refine canWritePath_iff.mpr ⟨hg, fun _ other ho => ?_⟩
      rw [mem_unique ho hf]
      exact he
    rw [hd dir hp hn] at hw
    cases hw
  intro ha dir hp hn
  rw [Bool.eq_false_iff]
  intro hw
  obtain ⟨hg, hfe⟩ := canWritePath_iff.mp hw
  obtain ⟨first, hf⟩ := firstDir_of_protects hp
  exact hn (ha hg first hf (hfe hdisk first hf) dir hp)

def worktreePolicy : FileSystemSandboxPolicy where
  kind := .restricted
  entries := [{ path := .path (plainUri "/home"), access := .write },
    { path := .path (plainUri "/home/.codex/w"), access := .write }]

def homeContext : FileSystemSandboxPolicyContext := ⟨plainUri "/home", [], none, none⟩

def worktreeGitConfig : PathUri := plainUri "/home/.codex/w/.git/config"

theorem worktree_git_writable : worktreePolicy.hasFullDiskWriteAccessWithContext .plain homeContext = false ∧
    Protects .plain worktreePolicy homeContext worktreeGitConfig (plainUri "/home/.codex/w/.git") ∧
    ¬ Exempted .plain worktreePolicy homeContext worktreeGitConfig (plainUri "/home/.codex/w/.git") ∧
    worktreePolicy.canWritePath .plain worktreeGitConfig homeContext = true := by
  refine ⟨by decide, ?_, ?_, by decide⟩
  · exact ⟨plainUri "/home/.codex/w", ".git", by decide, by decide, by decide, by decide⟩
  · rw [← exempts_iff]
    decide

theorem worktree_git_protected :
    ({ worktreePolicy with entries := worktreePolicy.entries.reverse }).canWritePath .plain worktreeGitConfig
      homeContext = false := by
  refine (metadata_protected_iff .plain { worktreePolicy with entries := worktreePolicy.entries.reverse }
    homeContext worktreeGitConfig (by decide)).mpr ?_ (plainUri "/home/.codex/w/.git")
    ⟨plainUri "/home/.codex/w", ".git", by decide, by decide, by decide, by decide⟩ ?_
  · intro _ first hf he
    obtain rfl := some.inj ((by decide : some (plainUri "/home/.codex/w/.git") = _).trans hf)
    exact absurd (exempts_iff.mpr he) (by decide)
  · rw [← exempts_iff]
    decide

/-! ## The order of the entries -/

/-- Another order, or one entry twice. -/
def Rearranged (entries entries' : List FileSystemSandboxEntry) : Prop :=
  entries'.Perm entries ∨ ∃ entry ∈ entries, entries'.Perm (entry :: entries)

lemma sameEntries_of_rearranged (h : Rearranged policy.entries entries') :
    SameEntries { policy with entries := entries' } policy := by
  refine ⟨rfl, fun entry => ?_⟩
  rcases h with hp | ⟨_, ht, hp⟩
  · exact hp.mem_iff
  rw [hp.mem_iff, mem_cons]
  constructor
  · rintro (rfl | hin)
    · exact ht
    · exact hin
  · exact .inr

lemma SameEntries.exempted_iff (h : SameEntries policy policy') :
    Exempted c policy context path dir ↔ Exempted c policy' context path dir := by
  unfold Exempted
  simp only [h.mem_resolvedEntries]

lemma dirOf_append (roots roots' : List (PathUri × FileSystemAccessMode)) :
    dirOf c path (roots ++ roots') = (dirOf c path roots).or (dirOf c path roots') := by
  unfold dirOf
  rw [filter_append, findSome?_append, map_or]

lemma firstDir_eq_findSome : policy.firstDir c path context =
    policy.entries.findSome? fun entry => dirOf c path (entry.roots c context) := by
  unfold firstDir resolvedEntries
  induction policy.entries with
  | nil => rfl
  | cons entry entries ih =>
    rw [flatMap_cons, dirOf_append, ih, findSome?_cons]
    cases dirOf c path (entry.roots c context) <;> rfl

/-- One exempted directory exempts all. -/
def DirsAgree (c : UrlCrates) (policy : FileSystemSandboxPolicy) (context : FileSystemSandboxPolicyContext)
    (path : PathUri) : Prop :=
  ∀ entry ∈ policy.entries, ∀ entry' ∈ policy.entries, ∀ dir ∈ dirOf c path (entry.roots c context),
    ∀ dir' ∈ dirOf c path (entry'.roots c context),
      Exempted c policy context path dir → Exempted c policy context path dir'

lemma SameEntries.canWritePath_of_dirsAgree (h : SameEntries policy policy')
    (ha : Grants c policy context path .write →
      policy.hasFullDiskWriteAccessWithContext c context = false → DirsAgree c policy context path)
    (hw : policy'.canWritePath c path context) : policy.canWritePath c path context := by
  obtain ⟨hg, hf⟩ := canWritePath_iff.mp hw
  rw [← h.grants_iff] at hg
  refine canWritePath_iff.mpr ⟨hg, fun hd dir hdi => ?_⟩
  -- Both policies ask about a directory of one of the entries.
  rw [firstDir_eq_findSome] at hdi
  obtain ⟨entry, he, hed⟩ := exists_of_findSome?_eq_some hdi
  have hs : policy'.firstDir c path context ≠ none := by
    rw [firstDir_eq_findSome, Ne, findSome?_eq_none_iff]
    intro hn
    rw [hn entry ((h.2 entry).mp he)] at hed
    simp at hed
  obtain ⟨dir', hdi'⟩ := ne_none_iff_exists'.mp hs
  have hexe := h.exempted_iff.mpr (hf (h.hasFullDiskWriteAccess_eq ▸ hd) dir' hdi')
  rw [firstDir_eq_findSome] at hdi'
  obtain ⟨entry', he', hed'⟩ := exists_of_findSome?_eq_some hdi'
  exact ha hg hd entry' ((h.2 entry').mpr he') entry he dir' hed' dir hed hexe

lemma canWritePath_front (hen : entry ∈ policy.entries)
    (hdi : dir ∈ dirOf c path (entry.roots c context)) (hg : Grants c policy context path .write)
    (hd : policy.hasFullDiskWriteAccessWithContext c context = false) :
    ({ policy with entries := entry :: policy.entries.erase entry }).canWritePath c path context ↔
      Exempted c policy context path dir := by
  have hs : SameEntries { policy with entries := entry :: policy.entries.erase entry } policy :=
    sameEntries_of_rearranged (.inl (perm_cons_erase hen).symm)
  have hf : ({ policy with entries := entry :: policy.entries.erase entry }).firstDir c path context =
      some dir := by
    rw [firstDir_eq_findSome, findSome?_cons, mem_def.mp hdi]
  rw [canWritePath_iff, hs.grants_iff, hs.hasFullDiskWriteAccess_eq, hf]
  constructor
  · rintro ⟨-, ha⟩
    exact hs.exempted_iff.mp (ha hd dir rfl)
  intro he
  refine ⟨hg, fun _ other ho => ?_⟩
  cases ho
  exact hs.exempted_iff.mpr he

/-- **The order of the entries does not matter**, for writing exactly when they agree on the exemption. -/
theorem order_independent_iff (c : UrlCrates) (policy : FileSystemSandboxPolicy)
    (context : FileSystemSandboxPolicyContext) (path : PathUri) :
    (∀ entries', Rearranged policy.entries entries' →
      ({ policy with entries := entries' }).resolveAccess c path context =
        policy.resolveAccess c path context) ∧
    ((∀ entries', Rearranged policy.entries entries' →
        ({ policy with entries := entries' }).canWritePath c path context =
          policy.canWritePath c path context) ↔
      (Grants c policy context path .write →
        policy.hasFullDiskWriteAccessWithContext c context = false → DirsAgree c policy context path)) := by
  refine ⟨fun _ h => (sameEntries_of_rearranged h).resolveAccess_eq, ?_, ?_⟩
  · intro hs hg hd entry he entry' he' dir hdi dir' hdi' hexe
    have hf := (canWritePath_front he hdi hg hd).mpr hexe
    rw [hs _ (.inl (perm_cons_erase he).symm), ← hs _ (.inl (perm_cons_erase he').symm)] at hf
    exact (canWritePath_front he' hdi' hg hd).mp hf
  intro ha entries' h
  have hs := sameEntries_of_rearranged h
  have hs' : SameEntries policy { policy with entries := entries' } :=
    ⟨hs.1.symm, fun e => (hs.2 e).symm⟩
  rw [Bool.eq_iff_iff]
  constructor
  · exact hs'.canWritePath_of_dirsAgree ha
  refine hs.canWritePath_of_dirsAgree fun hg hd => ?_
  rw [hs.grants_iff] at hg
  rw [hs.hasFullDiskWriteAccess_eq] at hd
  intro entry he entry' he' dir hdi dir' hdi' hexe
  exact hs.exempted_iff.mpr (ha hg hd entry ((hs.2 _).mp he) entry'
    ((hs.2 _).mp he') dir hdi dir' hdi' (hs.exempted_iff.mp hexe))

theorem worktree_order_matters : Rearranged worktreePolicy.entries worktreePolicy.entries.reverse ∧
    worktreePolicy.canWritePath .plain worktreeGitConfig homeContext = true ∧
    ({ worktreePolicy with entries := worktreePolicy.entries.reverse }).canWritePath .plain worktreeGitConfig
      homeContext = false :=
  ⟨.inl (reverse_perm _), by decide, by decide⟩

end FileSystemSandboxPolicy

end Codex.Permissions
