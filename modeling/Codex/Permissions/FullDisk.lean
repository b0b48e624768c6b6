import Codex.Permissions.ReadDeny

/-! # The shortcuts for the whole disk look at entries, the evaluation at their roots -/

namespace Codex.Permissions

open Codex.Text List FileSystemAccessMode

namespace FileSystemSandboxPolicy

variable {c : UrlCrates} {policy : FileSystemSandboxPolicy} {context : FileSystemSandboxPolicyContext}
  {path : PathUri} {entry : FileSystemSandboxEntry}

section

variable (c : UrlCrates) (policy : FileSystemSandboxPolicy) (context : FileSystemSandboxPolicyContext)

/-- Every root has a depth or is opaque. -/
def RootsComparable : Prop :=
  (context.cwd.lexicalDepth c).isSome ∧
    ∀ e ∈ policy.resolvedEntries c context, e.1.lexicalDepth c = none → e.1.isOpaque c = true

/-- Some entry with a depth covers the path. -/
def Held (path : PathUri) : Prop :=
  ∃ root access depth, (root, access) ∈ policy.resolvedEntries c context ∧ root.lexicalDepth c = some depth ∧
    path.startsWith c root = true

/-- A grant of writing covers the path, no less deep. -/
def HeldByWrite (path : PathUri) (depth : Nat) : Prop :=
  ∃ root deep, (root, .write) ∈ policy.resolvedEntries c context ∧ root.lexicalDepth c = some deep ∧
    path.startsWith c root = true ∧ depth ≤ deep

/-- Where a Write entry overrides a Read entry under another name, a Write root at least as deep holds the path. -/
def AliasesHold (path : PathUri) : Prop :=
  ∀ convention, context.cwd.inferPathConvention c = some convention →
    ∀ entry ∈ policy.entries, entry.access = .read →
      ∀ override ∈ policy.entries, override.access = .write → override.path ≠ entry.path →
        fileSystemPathsShareTarget c convention override.path entry.path = true →
          ∀ root depth, (root, .read) ∈ entry.roots c context → root.lexicalDepth c = some depth →
            path.startsWith c root = true → HeldByWrite c policy context path depth

end

/-! ## Entries under full access -/

variable {root : PathUri} {access : FileSystemAccessMode} {convention : PathConvention}

lemma roots_of_path_eq {other : FileSystemSandboxEntry} (h : other.path = entry.path)
    (hr : (root, access) ∈ entry.roots c context) : (root, other.access) ∈ other.roots c context := by
  obtain ⟨-, hin, hc⟩ := mem_roots.mp hr
  exact mem_roots.mpr ⟨rfl, h ▸ hin, hc⟩

lemma no_override_of_deny (hd : entry.access = .deny) (convention : PathConvention) :
    policy.hasSameTargetWriteOverride c entry convention = false := by
  unfold hasSameTargetWriteOverride
  rw [any_eq_false]
  intro candidate _ h
  simp only [Bool.and_eq_true, canWrite_iff, hd] at h
  rw [h.1.1] at h
  exact absurd h.1.2 (by decide)

lemma narrows_or_rootless_of_deny (hd : entry.access = .deny)
    (hc : context.cwd.inferPathConvention c = some convention) :
    policy.narrowsWrite c convention entry ∨ entry.path.paths c context = [] := by
  unfold narrowsWrite
  rw [no_override_of_deny hd, hd]
  cases hpa : entry.path with
  | path uri | globPattern pattern => exact .inl rfl
  | special value => ?_
  cases value with
  | root => exact .inl rfl
  | minimal => exact .inr rfl
  | projectRoots subpath | tmpdir => exact .inl rfl
  | unknown path subpath => exact .inr rfl
  | slashTmp => ?_
  cases convention with
  | posix => exact .inl rfl
  | windows => ?_
  right
  unfold FileSystemPath.paths
  rw [hc]
  rfl

lemma fullDiskWrite_restricted (hk : policy.kind = .restricted)
    (hf : policy.hasFullDiskWriteAccessWithContext c context) :
    ∃ convention, context.cwd.inferPathConvention c = some convention ∧
      (∃ entry ∈ policy.entries, entry.path = .special .root ∧ entry.access = .write) ∧
      ∀ entry ∈ policy.entries, policy.narrowsWrite c convention entry = false := by
  unfold hasFullDiskWriteAccessWithContext hasFullDiskWriteAccessForConvention hasRootAccess
    hasWriteNarrowingEntries at hf
  rw [hk] at hf
  rcases hc : context.cwd.inferPathConvention c with _ | convention
  · rw [hc] at hf
    simp at hf
  rw [hc] at hf
  simp only [Option.any_some, decide_true, Bool.true_and, Bool.and_eq_true, any_eq_true, Bool.not_eq_true',
    any_eq_false, decide_eq_true_eq, canWrite_iff, Bool.not_eq_true] at hf
  exact ⟨convention, rfl, hf.1, hf.2⟩

lemma deny_rootless_of_fullDiskWrite (hk : policy.kind = .restricted)
    (hf : policy.hasFullDiskWriteAccessWithContext c context) :
    (root, .deny) ∉ policy.resolvedEntries c context := by
  obtain ⟨_, hc, -, hna⟩ := fullDiskWrite_restricted hk hf
  intro hin
  obtain ⟨entry, he, hr⟩ := mem_resolvedEntries.mp hin
  obtain ⟨hd, hp, -⟩ := mem_roots.mp hr
  rcases narrows_or_rootless_of_deny hd.symm hc with hn | hni
  · rw [hna entry he] at hn
    cases hn
  · rw [hni] at hp
    cases hp

lemma deny_rootless_of_fullDiskRead (hk : policy.kind = .restricted)
    (hf : policy.hasFullDiskReadAccessForConvention (context.cwd.inferPathConvention c)) :
    (root, .deny) ∉ policy.resolvedEntries c context := by
  intro hin
  obtain ⟨entry, he, hr⟩ := mem_resolvedEntries.mp hin
  obtain ⟨hd, hp, -⟩ := mem_roots.mp hr
  unfold hasFullDiskReadAccessForConvention hasDeniedReadRestrictionsForConvention at hf
  rw [hk] at hf
  simp only [decide_true, Bool.true_and, Bool.and_eq_true, Bool.not_eq_true', any_eq_false,
    decide_eq_true_eq, not_and, Bool.not_eq_false] at hf
  obtain ⟨hpa, hw⟩ := hf.2 entry he hd.symm
  unfold FileSystemPath.paths at hp
  rw [hpa, hw] at hp
  simp at hp

lemma override_of_not_narrows (hr : entry.access = .read) (hc : context.cwd.inferPathConvention c = some convention)
    (hn : policy.narrowsWrite c convention entry = false) :
    policy.hasSameTargetWriteOverride c entry convention ∨ entry.path = .special .root ∨
      entry.path.paths c context = [] := by
  unfold narrowsWrite at hn
  rw [if_neg (by simp [canWrite_iff, hr])] at hn
  cases hpa : entry.path with
  | path uri =>
    rw [hpa] at hn
    exact .inl (by simpa using hn)
  | globPattern pattern => exact .inr (.inr rfl)
  | special value => ?_
  rw [hpa] at hn
  cases value with
  | root => exact .inr (.inl rfl)
  | minimal => exact .inr (.inr rfl)
  | projectRoots subpath | tmpdir => exact .inl (by simpa using hn)
  | unknown path subpath => exact .inr (.inr rfl)
  | slashTmp => ?_
  cases convention with
  | posix => exact .inl (by simpa using hn)
  | windows => ?_
  refine .inr (.inr ?_)
  unfold FileSystemPath.paths
  rw [hc]
  rfl

lemma heldByWrite_of_read (hk : policy.kind = .restricted) (hf : policy.hasFullDiskWriteAccessWithContext c context)
    (ha : AliasesHold c policy context path) (hin : (root, .read) ∈ policy.resolvedEntries c context)
    (hdp : root.lexicalDepth c = some depth)
    (hh : path.startsWith c root) : HeldByWrite c policy context path depth := by
  obtain ⟨convention, hc, ⟨rootEntry, hre, hrp, hrw⟩, hn⟩ :=
    fullDiskWrite_restricted hk hf
  obtain ⟨entry, he, hr⟩ := mem_resolvedEntries.mp hin
  have hrea : entry.access = .read := (mem_roots.mp hr).1.symm
  -- A Write entry with the same path has the same roots.
  have hs : ∀ other ∈ policy.entries, other.access = .write → other.path = entry.path →
      HeldByWrite c policy context path depth := by
    intro other hoth hw hpa
    refine ⟨root, depth, mem_resolvedEntries.mpr ⟨other, hoth, ?_⟩, hdp, hh, le_rfl⟩
    rw [← hw]
    exact roots_of_path_eq hpa hr
  rcases override_of_not_narrows hrea hc (hn entry he) with ho | hpa | hni
  · obtain ⟨override, hm, h⟩ := any_eq_true.mp ho
    simp only [Bool.and_eq_true, canWrite_iff] at h
    by_cases hpa : override.path = entry.path
    · exact hs override hm h.1.1 hpa
    · exact ha convention hc entry he hrea override hm h.1.1 hpa h.2 root depth hr hdp hh
  · exact hs rootEntry hre hrw (hrp.trans hpa.symm)
  have := (mem_roots.mp hr).2.1
  rw [hni] at this
  cases this

/-! ## The shortcuts -/

section Restricted

variable (hk : policy.kind = .restricted) (hpa : path.inferPathConvention c = context.cwd.inferPathConvention c)
  (hdp : (path.lexicalDepth c).isSome)

include hk hpa hdp

lemma grants_restricted : Grants c policy context path access ↔
      RootsComparable c policy context ∧ Decides c (policy.resolvedEntries c context) path access := by
  unfold Grants RootsComparable
  rw [if_pos hk]
  simp only [hpa, hdp, true_and, and_assoc]

lemma canWrite_iff_of_fullDisk (hf : policy.hasFullDiskWriteAccessWithContext c context) :
    policy.canWritePath c path context ↔
      RootsComparable c policy context ∧ HeldByWrite c policy context path 0 ∧
        AliasesHold c policy context path := by
  rw [canWritePath_iff, grants_restricted hk hpa hdp]
  constructor
  · rintro ⟨⟨hc, root, depth, hin, hr, hh, hm⟩, -⟩
    refine ⟨hc, ⟨root, depth, hin, hr, hh, Nat.zero_le _⟩, ?_⟩
    intro convention hcw entry he hre override _ _ _ _ root' depth' hr' hd' hh'
    refine ⟨root, depth, hin, hr, hh, ?_⟩
    rcases hm _ (mem_resolvedEntries.mpr ⟨entry, he, hr'⟩) hh' depth' hd' with hl | heq
    · exact hl.le
    · exact heq.1.le
  rintro ⟨hc, ⟨root, depth, hin, hr, hh, -⟩, ha⟩
  refine ⟨⟨hc, ?_⟩, fun hdi => absurd (hf.symm.trans hdi) (by decide)⟩
  obtain ⟨access, root', depth', hin', hr', hh', hm⟩ := exists_decides hin hr hh hc.2
  cases access with
  | write => exact ⟨root', depth', hin', hr', hh', hm⟩
  | deny => exact absurd hin' (deny_rootless_of_fullDiskWrite hk hf)
  | read =>
    -- The Write root beside the Read root that decides would win.
    obtain ⟨_, deep, ho, hde, hoh, _⟩ :=
      heldByWrite_of_read hk hf ha hin' hr' hh'
    rcases hm _ ho hoh deep hde with hl | ⟨-, hmo⟩
    · omega
    · exact absurd hmo (by decide : ¬ FileSystemAccessMode.write ≤ .read)

lemma canRead_iff_of_fullDisk (hf : policy.hasFullDiskReadAccessForConvention (context.cwd.inferPathConvention c)) :
    (policy.resolveAccess c path context).canRead ↔
      RootsComparable c policy context ∧ Held c policy context path := by
  unfold FileSystemAccessMode.canRead
  rw [decide_eq_true_iff]
  constructor
  · intro hne
    have hg := (resolveAccess_eq_iff hne).mp rfl
    rw [grants_restricted hk hpa hdp] at hg
    obtain ⟨hc, root, depth, hin, hr, hh, -⟩ := hg
    exact ⟨hc, root, _, depth, hin, hr, hh⟩
  rintro ⟨hc, root, _, depth, hin, hr, hh⟩
  obtain ⟨decided, hd⟩ := exists_decides hin hr hh hc.2
  have hne : decided ≠ .deny := by
    rintro rfl
    obtain ⟨_, -, hin', -⟩ := hd
    exact deny_rootless_of_fullDiskRead hk hf hin'
  rw [(resolveAccess_eq_iff hne).mpr ((grants_restricted hk hpa hdp).mpr ⟨hc, hd⟩)]
  exact hne

end Restricted

/-- **The shortcuts for the whole disk agree with the evaluation** exactly when the roots hold the path. -/
theorem full_disk_agrees_iff (c : UrlCrates) (policy : FileSystemSandboxPolicy)
    (context : FileSystemSandboxPolicyContext) (path : PathUri)
    (hpath : path.inferPathConvention c = context.cwd.inferPathConvention c)
    (hdepth : (path.lexicalDepth c).isSome) :
    ((policy.hasFullDiskWriteAccessWithContext c context = true → policy.canWritePath c path context = true) ∧
      (policy.hasFullDiskReadAccessForConvention (context.cwd.inferPathConvention c) = true →
        (policy.resolveAccess c path context).canRead = true)) ↔
    (policy.kind = .restricted →
      (policy.hasFullDiskWriteAccessWithContext c context = true →
        RootsComparable c policy context ∧ HeldByWrite c policy context path 0 ∧ AliasesHold c policy context path) ∧
      (policy.hasFullDiskReadAccessForConvention (context.cwd.inferPathConvention c) = true →
        RootsComparable c policy context ∧ Held c policy context path)) := by
  by_cases hk : policy.kind = .restricted
  · simp only [hk, true_imp_iff]
    refine and_congr (imp_congr_right fun hf => ?_) (imp_congr_right fun hf => ?_)
    · exact canWrite_iff_of_fullDisk hk hpath hdepth hf
    · exact canRead_iff_of_fullDisk hk hpath hdepth hf
  have hw : policy.resolveAccess c path context = .write := by
    rw [resolveAccess_eq_iff (by decide)]
    unfold Grants
    rw [if_neg hk]
  have hc : policy.hasFullDiskWriteAccessWithContext c context = true →
      policy.canWritePath c path context = true := by
    intro hf
    unfold canWritePath
    rw [hw, hf]
    rfl
  simp only [hk, hw, false_imp_iff, iff_true]
  exact ⟨hc, fun _ => rfl⟩

def drivePath (letter : Char) (names : List Text) : PathUri := ⟨⟨none, [letter, ':'] :: names⟩⟩

def workContext : FileSystemSandboxPolicyContext := ⟨drivePath 'C' ["work"], [], none, none⟩

def rootWritable : FileSystemSandboxPolicy := restricted [{ path := .special .root, access := .write }]

theorem other_drive_disagrees :
    (drivePath 'D' ["file"]).inferPathConvention .plain = workContext.cwd.inferPathConvention .plain ∧
    ((drivePath 'D' ["file"]).lexicalDepth .plain).isSome ∧
    rootWritable.hasFullDiskWriteAccessWithContext .plain workContext = true ∧
    rootWritable.canWritePath .plain (drivePath 'D' ["file"]) workContext = false ∧
    rootWritable.hasFullDiskReadAccessForConvention (workContext.cwd.inferPathConvention .plain) = true ∧
    (rootWritable.resolveAccess .plain (drivePath 'D' ["file"]) workContext).canRead = false := by
  decide

theorem same_drive_agrees : rootWritable.canWritePath .plain (drivePath 'C' ["file"]) workContext = true := by
  have hc : RootsComparable .plain rootWritable workContext := ⟨by decide, by decide⟩
  have hin : (drivePath 'C' [], .write) ∈ rootWritable.resolvedEntries .plain workContext := by decide
  have ha : AliasesHold .plain rootWritable workContext (drivePath 'C' ["file"]) := by
    intro _ _ entry he hr
    obtain rfl := mem_singleton.mp he
    cases hr
  refine ((full_disk_agrees_iff .plain rootWritable workContext (drivePath 'C' ["file"]) (by decide)
    (by decide)).mpr fun _ => ⟨fun _ => ⟨hc, ?_, ha⟩, fun _ => ⟨hc, ?_⟩⟩).1 (by decide)
  · exact ⟨_, 1, hin, by decide, by decide, Nat.zero_le _⟩
  · exact ⟨_, _, 1, hin, by decide, by decide⟩

end FileSystemSandboxPolicy

end Codex.Permissions
