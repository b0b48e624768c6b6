import Codex.Permissions.Target

/-!
# Additional permissions

`merge_file_system_policy_with_additional_permissions` and `effective_file_system_sandbox_policy` of
`sandboxing/src/policy_transforms.rs`: an additional entry can take access away.
-/

namespace Codex.Permissions

open Codex.Text List

/-! ## The merge -/

structure FileSystemPermissions where
  entries : List FileSystemSandboxEntry
  globScanMaxDepth : Option { depth : Nat // depth ≠ 0 } := none

structure AdditionalPermissionProfile where
  fileSystem : Option FileSystemPermissions

inductive GlobScanDepth where
  | bounded (depth : Nat)
  | unbounded
deriving DecidableEq

def isDeniedGlob (entry : FileSystemSandboxEntry) : Bool :=
  entry.access = .deny && match entry.path with
    | .globPattern _ => true
    | _ => false

def effectiveGlobScanDepth (entries : List FileSystemSandboxEntry) (depth : Option Nat) : Option GlobScanDepth :=
  if entries.any isDeniedGlob then some (depth.elim .unbounded .bounded) else none

def mergeGlobScanMaxDepth (leftEntries : List FileSystemSandboxEntry) (leftDepth : Option Nat)
    (rightEntries : List FileSystemSandboxEntry) (rightDepth : Option Nat) : Option Nat :=
  match effectiveGlobScanDepth leftEntries leftDepth, effectiveGlobScanDepth rightEntries rightDepth with
  | some .unbounded, _ => none
  | _, some .unbounded => none
  | some (.bounded left), some (.bounded right) => some (max left right)
  | some (.bounded depth), none => some depth
  | none, some (.bounded depth) => some depth
  | none, none => none

def pushNew (c : UrlCrates) (merged : List FileSystemSandboxEntry) (entry : FileSystemSandboxEntry) :
    List FileSystemSandboxEntry :=
  if merged.any (·.eq c entry) then merged else merged ++ [entry]

namespace FileSystemSandboxPolicy

def mergeWithAdditionalPermissions (c : UrlCrates) (policy : FileSystemSandboxPolicy)
    (additional : FileSystemPermissions) : FileSystemSandboxPolicy :=
  match policy.kind with
  | .restricted => { policy with
    entries := additional.entries.foldl (pushNew c) policy.entries
    globScanMaxDepth := mergeGlobScanMaxDepth policy.entries policy.globScanMaxDepth additional.entries
      (additional.globScanMaxDepth.map (·.val)) }
  | .unrestricted => policy
  | .externalSandbox => policy

def effectiveFileSystemSandboxPolicy (c : UrlCrates) (policy : FileSystemSandboxPolicy)
    (additional : Option AdditionalPermissionProfile) : FileSystemSandboxPolicy :=
  match additional.bind (·.fileSystem) with
  | none => policy
  | some permissions =>
    if permissions.entries.isEmpty then policy else policy.mergeWithAdditionalPermissions c permissions

/-! ## What is added -/

variable {c : UrlCrates} {policy : FileSystemSandboxPolicy} {context : FileSystemSandboxPolicyContext}
  {path : PathUri}

def newEntries (c : UrlCrates) : List FileSystemSandboxEntry → List FileSystemSandboxEntry → List FileSystemSandboxEntry
  | _, [] => []
  | known, entry :: entries =>
    if known.any (·.eq c entry) then newEntries c known entries
    else entry :: newEntries c (known ++ [entry]) entries

def additionalEntries (additional : Option AdditionalPermissionProfile) : List FileSystemSandboxEntry :=
  ((additional.bind (·.fileSystem)).map (·.entries)).getD []

lemma foldl_pushNew (entries known : List FileSystemSandboxEntry) :
    entries.foldl (pushNew c) known = known ++ newEntries c known entries := by
  induction entries generalizing known with
  | nil => simp [newEntries]
  | cons entry entries ih => ?_
  rw [foldl_cons, ih, pushNew, newEntries]
  split
  · rfl
  · rw [append_assoc]
    rfl

lemma mem_of_mem_newEntries {entries known : List FileSystemSandboxEntry}
    (h : entry ∈ newEntries c known entries) : entry ∈ entries := by
  induction entries generalizing known with
  | nil => simp [newEntries] at h
  | cons first entries ih => ?_
  unfold newEntries at h
  split at h
  · exact mem_cons_of_mem _ (ih h)
  rcases mem_cons.mp h with rfl | h
  · exact mem_cons_self
  · exact mem_cons_of_mem _ (ih h)

def newRoots (c : UrlCrates) (policy : FileSystemSandboxPolicy) (additional : Option AdditionalPermissionProfile)
    (context : FileSystemSandboxPolicyContext) : List (PathUri × FileSystemAccessMode) :=
  (newEntries c policy.entries (additionalEntries additional)).flatMap (·.roots c context)

variable {additional : Option AdditionalPermissionProfile}

lemma effective_restricted (h : policy.kind = .restricted) :
    (policy.effectiveFileSystemSandboxPolicy c additional).kind = .restricted ∧
      (policy.effectiveFileSystemSandboxPolicy c additional).entries =
        policy.entries ++ newEntries c policy.entries (additionalEntries additional) := by
  unfold effectiveFileSystemSandboxPolicy additionalEntries
  rcases additional.bind (·.fileSystem) with _ | permissions
  · simp [h, newEntries]
  by_cases he : permissions.entries = []
  · simp [h, he, newEntries]
  · simp only [List.isEmpty_iff, he, if_false, mergeWithAdditionalPermissions, h]
    exact ⟨trivial, foldl_pushNew _ _⟩

lemma resolvedEntries_effective (h : policy.kind = .restricted) :
    (policy.effectiveFileSystemSandboxPolicy c additional).resolvedEntries c context =
      policy.resolvedEntries c context ++ policy.newRoots c additional context := by
  unfold resolvedEntries newRoots
  rw [(effective_restricted h).2, flatMap_append]

lemma access_ne_deny_of_newRoots (h : ∀ entry ∈ additionalEntries additional, entry.access ≠ .deny)
    (he : e ∈ policy.newRoots c additional context) : e.2 ≠ .deny := by
  obtain ⟨entry, hen, hr⟩ := mem_flatMap.mp he
  obtain ⟨_, -, rfl⟩ := mem_map.mp hr
  exact h entry (mem_of_mem_newEntries hen)

/-! ## The root that decides -/

/-- Roots that cannot be compared make every path unreadable. -/
def ComparableRoots (c : UrlCrates) (roots : List (PathUri × FileSystemAccessMode)) : Prop :=
  ∀ e ∈ roots, e.1.lexicalDepth c = none → e.1.isOpaque c = true

/-- Every additional root that is only readable and holds the path has a writable root as deep that holds it. -/
def Outweighed (c : UrlCrates) (roots newRoots : List (PathUri × FileSystemAccessMode)) (path : PathUri) : Prop :=
  ∀ root depth, (root, .read) ∈ newRoots → path.startsWith c root = true → root.lexicalDepth c = some depth →
    ∃ root' depth', (root', .write) ∈ roots ++ newRoots ∧ path.startsWith c root' = true ∧
      root'.lexicalDepth c = some depth' ∧ depth ≤ depth'

section Roots

variable {roots newRoots : List (PathUri × FileSystemAccessMode)} {access : FileSystemAccessMode}

lemma decides_append (hd : Decides c roots path access) (hr : ComparableRoots c (roots ++ newRoots)) :
    ∃ decided, Decides c (roots ++ newRoots) path decided := by
  obtain ⟨_, _, hin, hde, hh, -⟩ := hd
  exact exists_decides (mem_append_left _ hin) hde hh hr

lemma decides_cases (hde : Decides c roots path access)
    (h : Decides c (roots ++ newRoots) path decided) : decided = access ∨
      ∃ root depth, (root, decided) ∈ newRoots ∧ path.startsWith c root ∧ root.lexicalDepth c = some depth ∧
        ∀ e ∈ roots ++ newRoots, path.startsWith c e.1 → ∀ depth', e.1.lexicalDepth c = some depth' →
          depth' < depth ∨ depth' = depth ∧ e.2 ≤ decided := by
  obtain ⟨root, depth, hin, hd, hh, hm⟩ := h
  rcases mem_append.mp hin with hin | hin
  · left
    obtain ⟨_, oldDepth, ho, hod, hoh, hom⟩ := hde
    have hle := hom _ hin hh depth hd
    have hge := hm _ (mem_append_left _ ho) hoh oldDepth hod
    rcases hle with hle | ⟨_, hle⟩
    · rcases hge with hge | ⟨hge, -⟩ <;> omega
    rcases hge with hge | ⟨-, hge⟩
    · omega
    · exact le_antisymm hle hge
  · exact .inr ⟨root, depth, hin, hh, hd, hm⟩

lemma readable_append (hd : Decides c roots path access) (hre : access ≠ .deny)
    (hn : ∀ e ∈ newRoots, e.2 ≠ .deny) (hr : ComparableRoots c (roots ++ newRoots)) :
    ∃ decided, decided ≠ .deny ∧ Decides c (roots ++ newRoots) path decided := by
  obtain ⟨decided, h⟩ := decides_append hd hr
  refine ⟨decided, ?_, h⟩
  rcases decides_cases hd h with rfl | ⟨_, _, hin, -⟩
  · exact hre
  · exact hn _ hin

lemma writable_append_iff (hde : Decides c roots path .write) (hn : ∀ e ∈ newRoots, e.2 ≠ .deny)
    (hr : ComparableRoots c (roots ++ newRoots)) :
    Decides c (roots ++ newRoots) path .write ↔ Outweighed c roots newRoots path := by
  constructor
  · rintro ⟨root, depth, hin, hd, hh, hm⟩ _ otherDepth ho hoh hod
    refine ⟨root, depth, hin, hh, hd, ?_⟩
    rcases hm _ (mem_append_right _ ho) hoh otherDepth hod with h | h
    · exact h.le
    · exact h.1.le
  intro hw
  obtain ⟨decided, h⟩ := decides_append hde hr
  rcases decides_cases hde h with rfl | ⟨root, depth, hin, hh, hd, hm⟩
  · exact h
  cases decided with
  | write => exact h
  | deny => exact absurd rfl (hn _ hin)
  | read => ?_
  obtain ⟨_, depth', hin', hh', hd', _⟩ := hw root depth hin hh hd
  rcases hm _ hin' hh' depth' hd' with _ | ⟨-, hmo⟩
  · omega
  · exact absurd hmo (by decide : ¬ FileSystemAccessMode.write ≤ .read)

end Roots

lemma grants_restricted_iff (h : policy.kind = .restricted) :
    Grants c policy context path access ↔
      (path.inferPathConvention c = context.cwd.inferPathConvention c ∧ (path.lexicalDepth c).isSome ∧
        (context.cwd.lexicalDepth c).isSome) ∧
      ComparableRoots c (policy.resolvedEntries c context) ∧
        Decides c (policy.resolvedEntries c context) path access := by
  unfold Grants
  rw [if_pos h]
  rfl

lemma canRead_resolveAccess_iff : (policy.resolveAccess c path context).canRead ↔
    ∃ access, access ≠ .deny ∧ Grants c policy context path access := by
  rw [FileSystemAccessMode.canRead_iff]
  constructor
  · exact fun h => ⟨_, h, (resolveAccess_eq_iff h).mp rfl⟩
  rintro ⟨access, hd, hg⟩
  rw [(resolveAccess_eq_iff hd).mpr hg]
  exact hd

lemma comparableRoots_append {roots newRoots : List (PathUri × FileSystemAccessMode)} :
    ComparableRoots c (roots ++ newRoots) ↔ ComparableRoots c roots ∧ ComparableRoots c newRoots := by
  unfold ComparableRoots
  simp only [mem_append, or_imp, forall_and]

section Restricted

variable (h : policy.kind = .restricted)

include h

lemma firstDir_effective :
    (policy.effectiveFileSystemSandboxPolicy c additional).firstDir c path context =
      (policy.firstDir c path context).or (dirOf c path (policy.newRoots c additional context)) := by
  unfold firstDir
  rw [resolvedEntries_effective h, dirOf_append]

/-! ## Access that stays -/

/-- The whole disk may be written, or a writable root in the first protected directory holds the path. -/
def MetadataOpen (c : UrlCrates) (policy : FileSystemSandboxPolicy) (additional : Option AdditionalPermissionProfile)
    (context : FileSystemSandboxPolicyContext) (path : PathUri) : Prop :=
  (restricted (policy.entries ++
      newEntries c policy.entries (additionalEntries additional))).hasFullDiskWriteAccessWithContext c context = true ∨
    ∀ dir ∈ (policy.firstDir c path context).or (dirOf c path (policy.newRoots c additional context)),
      ∃ root, (root, .write) ∈ policy.resolvedEntries c context ++ policy.newRoots c additional context ∧
        path.startsWith c root = true ∧ root.startsWith c dir = true

lemma hasFullDiskWriteAccess_effective :
    (policy.effectiveFileSystemSandboxPolicy c additional).hasFullDiskWriteAccessWithContext c context =
      (restricted (policy.entries ++
        newEntries c policy.entries (additionalEntries additional))).hasFullDiskWriteAccessWithContext c context := by
  apply SameEntries.hasFullDiskWriteAccess_eq
  refine ⟨(effective_restricted h).1, fun entry => ?_⟩
  rw [(effective_restricted h).2]
  rfl

lemma canWritePath_effective_iff :
    (policy.effectiveFileSystemSandboxPolicy c additional).canWritePath c path context ↔
      Grants c (policy.effectiveFileSystemSandboxPolicy c additional) context path .write ∧
        MetadataOpen c policy additional context path := by
  rw [canWritePath_iff, hasFullDiskWriteAccess_effective h, firstDir_effective h]
  unfold Exempted MetadataOpen
  rw [resolvedEntries_effective h, Bool.eq_false_iff, imp_iff_not_or, not_not]

lemma grants_effective_write_iff (he : ∀ entry ∈ additionalEntries additional, entry.access ≠ .deny)
    (hwr : Grants c policy context path .write) :
    Grants c (policy.effectiveFileSystemSandboxPolicy c additional) context path .write ↔
      ComparableRoots c (policy.newRoots c additional context) ∧
        Outweighed c (policy.resolvedEntries c context) (policy.newRoots c additional context) path := by
  obtain ⟨hp, hr, hd⟩ := (grants_restricted_iff h).mp hwr
  rw [grants_restricted_iff (effective_restricted h).1, resolvedEntries_effective h, comparableRoots_append]
  constructor
  · rintro ⟨-, ⟨-, hn⟩, hde⟩
    exact ⟨hn, (writable_append_iff hd (fun _ => access_ne_deny_of_newRoots he)
      (comparableRoots_append.mpr ⟨hr, hn⟩)).mp hde⟩
  rintro ⟨hn, hw⟩
  exact ⟨hp, ⟨hr, hn⟩, (writable_append_iff hd (fun _ => access_ne_deny_of_newRoots he)
    (comparableRoots_append.mpr ⟨hr, hn⟩)).mpr hw⟩

lemma canRead_effective_iff (he : ∀ entry ∈ additionalEntries additional, entry.access ≠ .deny)
    (hre : (policy.resolveAccess c path context).canRead) :
    ((policy.effectiveFileSystemSandboxPolicy c additional).resolveAccess c path context).canRead ↔
      ComparableRoots c (policy.newRoots c additional context) := by
  obtain ⟨access, hden, hg⟩ := canRead_resolveAccess_iff.mp hre
  obtain ⟨hp, hr, hd⟩ := (grants_restricted_iff h).mp hg
  simp only [canRead_resolveAccess_iff, grants_restricted_iff (effective_restricted h).1, resolvedEntries_effective h,
    comparableRoots_append]
  constructor
  · rintro ⟨-, -, -, ⟨-, hn⟩, -⟩
    exact hn
  intro hn
  obtain ⟨decided, hne, hde⟩ := readable_append hd hden (fun _ => access_ne_deny_of_newRoots he)
    (comparableRoots_append.mpr ⟨hr, hn⟩)
  exact ⟨decided, hne, hp, ⟨hr, hn⟩, hde⟩

end Restricted

lemma canRead_of_canWritePath (h : policy.canWritePath c path context) :
    (policy.resolveAccess c path context).canRead :=
  canRead_resolveAccess_iff.mpr ⟨.write, by decide, (canWritePath_iff.mp h).1⟩

/-- **Additional permissions without denials take nothing away** exactly when their roots are outweighed. -/
theorem additional_keeps_access_iff (c : UrlCrates) (policy : FileSystemSandboxPolicy)
    (additional : Option AdditionalPermissionProfile) (context : FileSystemSandboxPolicyContext) (path : PathUri)
    (h : policy.kind = .restricted) (hextra : ∀ entry ∈ additionalEntries additional, entry.access ≠ .deny) :
    (((policy.resolveAccess c path context).canRead = true →
        ((policy.effectiveFileSystemSandboxPolicy c additional).resolveAccess c path context).canRead = true) ∧
      (policy.canWritePath c path context = true →
        (policy.effectiveFileSystemSandboxPolicy c additional).canWritePath c path context = true)) ↔
    ((policy.resolveAccess c path context).canRead = true → ComparableRoots c (policy.newRoots c additional context)) ∧
      (policy.canWritePath c path context = true →
        Outweighed c (policy.resolvedEntries c context) (policy.newRoots c additional context) path ∧
          MetadataOpen c policy additional context path) := by
  have hr : ((policy.resolveAccess c path context).canRead = true →
      ((policy.effectiveFileSystemSandboxPolicy c additional).resolveAccess c path context).canRead = true) ↔
      ((policy.resolveAccess c path context).canRead = true →
        ComparableRoots c (policy.newRoots c additional context)) :=
    imp_congr_right fun hr => canRead_effective_iff h hextra hr
  rw [hr]
  refine and_congr_right fun hc => imp_congr_right fun hwr => ?_
  rw [canWritePath_effective_iff h, grants_effective_write_iff h hextra (canWritePath_iff.mp hwr).1]
  have hn := hc (canRead_of_canWritePath hwr)
  constructor
  · rintro ⟨⟨-, hw⟩, ho⟩
    exact ⟨hw, ho⟩
  · rintro ⟨hw, ho⟩
    exact ⟨⟨hn, hw⟩, ho⟩

def writesTo (path : String) : FileSystemSandboxEntry := { path := .path (plainUri path), access := .write }

def readsFrom (path : String) : FileSystemSandboxEntry := { path := .path (plainUri path), access := .read }

def additionally (entries : List FileSystemSandboxEntry) : Option AdditionalPermissionProfile := some ⟨some { entries }⟩

theorem repository_stays_writable :
    ((restricted [writesTo "/repo"]).effectiveFileSystemSandboxPolicy .plain
      (additionally [writesTo "/data"])).canWritePath .plain (plainUri "/repo/docs/a") homeContext = true := by
  have hk := (additional_keeps_access_iff .plain (restricted [writesTo "/repo"]) (additionally [writesTo "/data"])
    homeContext (plainUri "/repo/docs/a") rfl (by decide)).mpr
  refine (hk ⟨?_, ?_⟩).2 (by decide)
  · intro _ e he hn
    have : e = (plainUri "/data", .write) := by
      revert he
      exact mem_singleton.mp
    subst this
    revert hn
    decide
  intro _
  refine ⟨?_, .inr ?_⟩
  · intro root depth hin
    have hr : (restricted [writesTo "/repo"]).newRoots .plain (additionally [writesTo "/data"]) homeContext =
      [(plainUri "/data", .write)] := by decide
    rw [hr] at hin
    simp at hin
  intro dir hd
  have hn : ((restricted [writesTo "/repo"]).firstDir .plain (plainUri "/repo/docs/a") homeContext).or
    (dirOf .plain (plainUri "/repo/docs/a") ((restricted [writesTo "/repo"]).newRoots .plain
      (additionally [writesTo "/data"]) homeContext)) = none := by decide
  rw [hn] at hd
  simp at hd

theorem additional_root_takes_writing :
    (restricted [writesTo "/repo"]).canWritePath .plain (plainUri "/repo/docs/a") homeContext = true ∧
    ((restricted [writesTo "/repo"]).effectiveFileSystemSandboxPolicy .plain
      (additionally [readsFrom "/repo/docs"])).canWritePath .plain (plainUri "/repo/docs/a") homeContext = false ∧
    (restricted [writesTo "/repo"]).canWritePath .plain (plainUri "/repo/sub/.git/config") homeContext = true ∧
    ((restricted [writesTo "/repo"]).effectiveFileSystemSandboxPolicy .plain
      (additionally [writesTo "/repo/sub"])).canWritePath .plain (plainUri "/repo/sub/.git/config") homeContext =
        false := by
  refine ⟨by decide, by decide, by decide, by decide⟩

end FileSystemSandboxPolicy

end Codex.Permissions
