import Codex.Permissions.ReadDeny
import Codex.Permissions.WritableRoots

/-!
# Policies that are judged equivalent

`is_semantically_equivalent_to` of `protocol/src/permissions.rs` compares what two policies come to on this machine.
-/

namespace Codex.Sandbox

open Codex.Text Codex.Permissions AbsolutePathBuf List FileSystemSandboxPolicy

/-! ## Roots of a policy on Linux -/

namespace Linux

section

variable (c : FileUrlCrates) (system : LocalSystem) (policy : FileSystemSandboxPolicy) (cwd : AbsolutePathBuf)

def canReadLocalPathWithCwd (path : AbsolutePathBuf) : Bool :=
  (policy.resolveAccess c.toUrlCrates (.fromAbsPath c path) (localPolicyContext c system cwd)).canRead

def canWriteLocalPathWithCwd (path : AbsolutePathBuf) : Bool :=
  policy.canWritePath c.toUrlCrates (.fromAbsPath c path) (localPolicyContext c system cwd)

def getReadableRootsWithCwd : List AbsolutePathBuf :=
  if policy.hasFullDiskReadAccess then []
  else (((policy.resolvedEntriesWithCwd c system cwd).filter fun entry =>
    entry.access.canRead && canReadLocalPathWithCwd c system policy cwd entry.path).map (·.path)).eraseDups

/-- The denied roots but `/` that nothing opens again. -/
def getUnreadableRootsWithCwd : List AbsolutePathBuf :=
  if policy.kind ≠ .restricted then []
  else (((policy.resolvedEntriesWithCwd c system cwd).filter fun entry =>
    entry.access = .deny && !canReadLocalPathWithCwd c system policy cwd entry.path &&
      entry.path ≠ ⟨[]⟩).map (·.path)).eraseDups

def getUnreadableGlobsWithCwd : List Text :=
  if policy.kind ≠ .restricted then []
  else (((policy.entries.filter (·.access = .deny)).filterMap fun entry =>
    match entry.path with
    | .globPattern pattern => some (resolvePathAgainstBase system.host pattern cwd).toText
    | _ => none).insertionSort fun a b => (List.compareLex compare a b).isLE).eraseDups

def includePlatformDefaults : Bool :=
  !policy.hasFullDiskReadAccess && policy.kind = .restricted && policy.entries.any fun entry =>
    entry.path = .special .minimal && entry.access.canRead

end

variable {c : FileUrlCrates} {system : LocalSystem} {policy : FileSystemSandboxPolicy} {cwd path : AbsolutePathBuf}

lemma mem_unreadableRoots (h : policy.kind = .restricted) : path ∈ getUnreadableRootsWithCwd c system policy cwd ↔
    ⟨path, .deny⟩ ∈ policy.resolvedEntriesWithCwd c system cwd ∧
      canReadLocalPathWithCwd c system policy cwd path = false ∧ path ≠ ⟨[]⟩ := by
  unfold getUnreadableRootsWithCwd
  rw [if_neg (by simp [h]), mem_eraseDups, mem_map]
  simp only [mem_filter, Bool.and_eq_true, decide_eq_true_eq, Bool.not_eq_true']
  constructor
  · rintro ⟨⟨path, _⟩, ⟨hin, ⟨rfl, hr⟩, hne⟩, rfl⟩
    exact ⟨hin, hr, hne⟩
  · rintro ⟨hin, hr, hne⟩
    exact ⟨_, ⟨hin, ⟨rfl, hr⟩, hne⟩, rfl⟩

end Linux

open Linux

/-! ## The signature -/

structure FileSystemSemanticSignature where
  hasFullDiskReadAccess : Bool
  hasFullDiskWriteAccess : Bool
  includePlatformDefaults : Bool
  readableRoots : List AbsolutePathBuf
  writableRoots : List WritableRoot
  unreadableRoots : List AbsolutePathBuf
  unreadableGlobs : List Text
deriving DecidableEq

def pathLe (left right : AbsolutePathBuf) : Bool := (List.compareLex (List.compareLex compare) left.key right.key).isLE

def sortedAbsolutePaths (paths : List AbsolutePathBuf) : List AbsolutePathBuf :=
  paths.insertionSort fun left right => pathLe left right

lemma mem_of_sorted_eq {path : AbsolutePathBuf} (hs : sortedAbsolutePaths left = sortedAbsolutePaths right)
    (h : path ∈ left) : path ∈ right := by
  unfold sortedAbsolutePaths at hs
  exact (mem_insertionSort _).mp (hs ▸ (mem_insertionSort _).mpr h)

def sortedWritableRoot (root : WritableRoot) : WritableRoot where
  root := root.root
  readOnlySubpaths := sortedAbsolutePaths root.readOnlySubpaths
  protectedMetadataNames :=
    (root.protectedMetadataNames.insertionSort fun a b => (List.compareLex compare a b).isLE).eraseDups

def sortedWritableRoots (roots : List WritableRoot) : List WritableRoot :=
  (roots.map sortedWritableRoot).insertionSort fun left right => pathLe left.root right.root

section

variable (c : FileUrlCrates) (system : LocalSystem) (policy : FileSystemSandboxPolicy) (cwd : AbsolutePathBuf)

def getWritableRootsWithCwd : List WritableRoot :=
  if policy.hasFullDiskWriteAccess c then []
  else Permissions.writableRoots system (Linux.canWriteLocalPathWithCwd c system policy cwd)
    (policy.resolvedEntriesWithCwd c system cwd) cwd .separate

def semanticSignature : FileSystemSemanticSignature where
  hasFullDiskReadAccess := policy.hasFullDiskReadAccess
  hasFullDiskWriteAccess := policy.hasFullDiskWriteAccess c
  includePlatformDefaults := includePlatformDefaults policy
  readableRoots := sortedAbsolutePaths (getReadableRootsWithCwd c system policy cwd)
  writableRoots := sortedWritableRoots (getWritableRootsWithCwd c system policy cwd)
  unreadableRoots := sortedAbsolutePaths (getUnreadableRootsWithCwd c system policy cwd)
  unreadableGlobs := getUnreadableGlobsWithCwd system policy cwd

def isSemanticallyEquivalentTo (other : FileSystemSandboxPolicy) : Bool :=
  semanticSignature c system policy cwd = semanticSignature c system other cwd

def resolveAccessForLocalPathWithCwd (path : AbsolutePathBuf) : FileSystemAccessMode :=
  policy.resolveAccess c.toUrlCrates (.fromAbsPath c path) (localPolicyContext c system cwd)

/-- The answer of the matcher; a policy that denies nothing has none. -/
def isLocalPathReadDenied (g : Globset) (path : AbsolutePathBuf) : Bool :=
  (ReadDenyMatcher.fromContext c.toUrlCrates g policy (localPolicyContext c system cwd)).any
    (·.isReadDeniedUri c.toUrlCrates (.fromAbsPath c path) (localPolicyContext c system cwd))

abbrev keyedRoots : List (List (List UInt8) × FileSystemAccessMode) :=
  localEntries c.toUrlCrates (policy.resolvedEntries c.toUrlCrates (localPolicyContext c system cwd))

/-- The mode of a root at the path itself. -/
abbrev ModeAt (path : AbsolutePathBuf) (mode : FileSystemAccessMode) : Prop :=
  Rooted.Decides (keyedRoots c system policy cwd) path.key path.key mode

/-- The paths of the policy are local, and what resolves on this machine decides about paths. -/
structure RootsResolve : Prop where
  ofPolicy : LocalPolicy c.toUrlCrates policy (localPolicyContext c system cwd)
  keyed : ∀ path access, ⟨path, access⟩ ∈ policy.resolvedEntriesWithCwd c system cwd →
    (path.key, access) ∈ keyedRoots c system policy cwd
  cwdNormal : cwd.Normal

/-- A root that decides about paths and that the signature leaves out: it does not resolve on this machine, it denies
the whole disk, or full-disk access takes its list away. -/
def Omitted (path : AbsolutePathBuf) : Prop :=
  ∃ mode, (path.key, mode) ∈ keyedRoots c system policy cwd ∧
    (⟨path, mode⟩ ∉ policy.resolvedEntriesWithCwd c system cwd ∨ mode = .deny ∧ path = ⟨[]⟩ ∨
      mode = .read ∧ policy.hasFullDiskReadAccess = true ∨ mode ≠ .deny ∧ policy.hasFullDiskWriteAccess c = true)

/-- The places to look at: the roots that are left out, and the protected names right below them. -/
def OmittedPlace (path : AbsolutePathBuf) : Prop :=
  Omitted c system policy cwd path ∨
    ∃ root, ∃ name ∈ protectedMetadataPathNames, Omitted c system policy cwd root ∧ path = root.join system.host name

def isUnderDeniedRoot (path : AbsolutePathBuf) : Bool :=
  (policy.deniedRoots c.toUrlCrates (localPolicyContext c system cwd)).any
    fun root => (PathUri.fromAbsPath c path).startsWith c.toUrlCrates root

/-- The globs of the matcher; `none` stands for one that cannot be resolved. -/
def deniedGlobs : List (Option Text) :=
  (policy.entries.filterMap denyPattern).map
    fun pattern => (denyReadGlob c.toUrlCrates (localPolicyContext c system cwd) pattern).toOption

/-- Both policies answer alike about the path, their globs apart. -/
@[mk_iff]
structure Alike (other : FileSystemSandboxPolicy) (path : AbsolutePathBuf) : Prop where
  access : resolveAccessForLocalPathWithCwd c system policy cwd path =
    resolveAccessForLocalPathWithCwd c system other cwd path
  write : Linux.canWriteLocalPathWithCwd c system policy cwd path =
    Linux.canWriteLocalPathWithCwd c system other cwd path
  denied : isUnderDeniedRoot c system policy cwd path = isUnderDeniedRoot c system other cwd path

end

/-! ## What a root decides -/

section Roots

variable {c : FileUrlCrates} {g : Globset} {system : LocalSystem} {policy other : FileSystemSandboxPolicy}
  {cwd path : AbsolutePathBuf} {mode : FileSystemAccessMode} {root : List (List UInt8)}

lemma localNames_of_hasUri (hc : c.Lawful) (hp : path.Normal) (hu : path.hasUri) :
    (PathUri.fromAbsPath c path).localNames c.toUrlCrates = some path.key := by
  rw [PathUri.localNames_fromAbsPath hc hp, if_pos hu]

variable (hc : c.Lawful) (h : RootsResolve c system policy cwd)

include hc h

lemma RootsResolve.isFileSystemRoot_iff {uri : PathUri} (hr : uri.localNames c.toUrlCrates = some root) :
    isFileSystemRoot c.toUrlCrates (localPolicyContext c system cwd) uri ↔ root = [] := by
  have hu : cwd.hasUri := by
    have hs : ((PathUri.fromAbsPath c cwd).localNames c.toUrlCrates).isSome := h.ofPolicy.cwd
    rw [PathUri.localNames_fromAbsPath hc h.cwdNormal] at hs
    by_contra hno
    simp [hno] at hs
  obtain ⟨url, heq, hcl, -, -⟩ := PathUri.fromAbsPath_clean hc h.cwdNormal hu
  obtain ⟨top, hla, ht, hni⟩ := hcl.last_ancestor hc
  have hn : (PathUri.mk top).localNames c.toUrlCrates = some [] := by
    rw [ht.localNames hc, hni]
    rfl
  have hf : fileSystemRoot c.toUrlCrates (localPolicyContext c system cwd) = some ⟨top⟩ := by
    obtain ⟨depth, hd⟩ := Option.isSome_iff_exists.mp h.ofPolicy.cwd_eq.2
    unfold fileSystemRoot
    rw [hd, ← hla, ← heq]
    rfl
  unfold isFileSystemRoot
  rw [hf, Option.any_some, Bool.and_eq_true, PathUri.startsWith_iff_names hr hn, PathUri.startsWith_iff_names hn hr]
  simp

variable (hp : path.OfSystem) (hu : path.hasUri)

include hp hu

lemma RootsResolve.access_of_decides (hd : Rooted.Decides (keyedRoots c system policy cwd) path.key root mode) :
    resolveAccessForLocalPathWithCwd c system policy cwd path = mode := by
  have hn := localNames_of_hasUri hc hp.1 hu
  by_cases hm : resolveAccessForLocalPathWithCwd c system policy cwd path = .deny
  · by_contra hne
    exact hne ((resolveAccess_eq_iff fun hmd => hne (hm.trans hmd.symm)).mpr
      ((grants_local h.ofPolicy hn).mpr ⟨root, hd⟩))
  · obtain ⟨_, hd'⟩ := (grants_local h.ofPolicy hn).mp ((resolveAccess_eq_iff hm).mp rfl)
    exact (hd'.unique hd).2

/-- A path that is not denied has a root that decides about it. -/
lemma RootsResolve.exists_decides (hm : resolveAccessForLocalPathWithCwd c system policy cwd path ≠ .deny) :
    ∃ root, Rooted.Decides (keyedRoots c system policy cwd) path.key root
      (resolveAccessForLocalPathWithCwd c system policy cwd path) :=
  (grants_local h.ofPolicy (localNames_of_hasUri hc hp.1 hu)).mp ((resolveAccess_eq_iff hm).mp rfl)

lemma RootsResolve.canWrite_iff : Linux.canWriteLocalPathWithCwd c system policy cwd path ↔
    Rooted.Granted (if policy.hasFullDiskWriteAccess c then [] else metadataKeys) .write
      (keyedRoots c system policy cwd) path.key := by
  unfold Linux.canWriteLocalPathWithCwd
  rw [canWritePath_iff_granted h.ofPolicy (localNames_of_hasUri hc hp.1 hu)]
  unfold hasFullDiskWriteAccessWithContext
  rw [h.ofPolicy.cwd_eq.1]
  rfl

lemma RootsResolve.underDenied_iff : isUnderDeniedRoot c system policy cwd path ↔
    ∃ root, root ≠ [] ∧ root <+: path.key ∧ (root, .deny) ∈ keyedRoots c system policy cwd := by
  have hn := localNames_of_hasUri hc hp.1 hu
  unfold isUnderDeniedRoot
  rw [any_eq_true]
  constructor
  · rintro ⟨uri, hin, hs⟩
    obtain ⟨hin, hno⟩ := mem_deniedRoots.mp hin
    obtain ⟨key, hk, hpr⟩ := h.ofPolicy.roots.of_startsWith hn hin hs
    refine ⟨key, fun hni => ?_, hpr, mem_localEntries.mpr ⟨uri, hin, hk⟩⟩
    rw [(h.isFileSystemRoot_iff hc hk).mpr hni] at hno
    simp at hno
  rintro ⟨key, hne, hpr, hin⟩
  obtain ⟨uri, hin, hk⟩ := mem_localEntries.mp hin
  refine ⟨uri, mem_deniedRoots.mpr ⟨hin, ?_⟩, (PathUri.startsWith_iff_names hn hk).mpr hpr⟩
  rw [Bool.eq_false_iff, Ne, h.isFileSystemRoot_iff hc hk]
  exact hne

lemma RootsResolve.readDenied_iff : isLocalPathReadDenied c system policy cwd g path ↔
    isUnderDeniedRoot c system policy cwd path ∨ ∃ glob ∈ deniedGlobs c system policy cwd,
      ∀ text, glob = some text → ∀ matcher, buildGlobMatcher g text .posix = .ok matcher →
        matcher (globCandidate c.toUrlCrates (.fromAbsPath c path) .posix) = true := by
  have hn := localNames_of_hasUri hc hp.1 hu
  obtain ⟨hpo, hde⟩ := h.ofPolicy.cwd_eq
  have hcm : Comparable c.toUrlCrates (localPolicyContext c system cwd) (.fromAbsPath c path) :=
    ⟨(PathUri.localNames_eq_some_iff.mp hn).1.trans hpo.symm, by rw [PathUri.lexicalDepth_of_localNames hn]; rfl, hde⟩
  have hg : (∃ glob ∈ deniedGlobs c system policy cwd, ∀ text, glob = some text →
      ∀ matcher, buildGlobMatcher g text .posix = .ok matcher →
        matcher (globCandidate c.toUrlCrates (.fromAbsPath c path) .posix) = true) ↔
      ∃ entry ∈ policy.entries, ∃ pattern, denyPattern entry = some pattern ∧
        PatternDenies c.toUrlCrates g (localPolicyContext c system cwd) (.fromAbsPath c path) pattern := by
    rw [← exists_pattern_iff]
    unfold deniedGlobs PatternDenies
    simp only [mem_map, exists_exists_and_eq_and, hpo, Option.some.injEq, forall_eq']
    refine exists_congr fun pattern => and_congr_right fun _ => forall_congr' fun glob => ?_
    cases denyReadGlob c.toUrlCrates (localPolicyContext c system cwd) pattern <;> simp [Except.toOption]
  unfold isLocalPathReadDenied
  rw [Option.any_eq_true, fromContext_denies_iff, hg]
  unfold isUnderDeniedRoot
  rw [any_eq_true]
  constructor
  · rintro ⟨-, hd⟩
    exact hd hcm
  rintro (⟨uri, hin, hs⟩ | ⟨entry, hin, pattern, hpa, hd⟩)
  · obtain ⟨entry, he, hr⟩ := mem_resolvedEntries.mp (mem_deniedRoots.mp hin).1
    obtain ⟨_, -, heq⟩ := mem_map.mp hr
    exact ⟨⟨entry, he, (Prod.mk.inj heq).2⟩, fun _ => .inl ⟨uri, hin, hs⟩⟩
  · exact ⟨⟨entry, hin, (denyPattern_eq_some.mp hpa).1⟩, fun _ => .inr ⟨entry, hin, pattern, hpa, hd⟩⟩

/-! ## The lists of the signature -/

lemma RootsResolve.mem_readable :
    path ∈ getReadableRootsWithCwd c system policy cwd ↔ policy.hasFullDiskReadAccess = false ∧
      ∃ mode ≠ .deny, ModeAt c system policy cwd path mode ∧
        ∃ access ≠ .deny, ⟨path, access⟩ ∈ policy.resolvedEntriesWithCwd c system cwd := by
  unfold getReadableRootsWithCwd
  cases policy.hasFullDiskReadAccess with
  | true => simp
  | false => ?_
  simp only [Bool.false_eq_true, if_false, mem_eraseDups, mem_map, mem_filter, Bool.and_eq_true,
    FileSystemAccessMode.canRead_iff, true_and]
  constructor
  · rintro ⟨⟨_, access⟩, ⟨hin, hne, hr⟩, rfl⟩
    obtain ⟨key, hd⟩ := h.exists_decides hc hp hu (FileSystemAccessMode.canRead_iff.mp hr)
    obtain rfl := hd.eq_self (h.keyed _ _ hin)
    exact ⟨_, FileSystemAccessMode.canRead_iff.mp hr, hd, access, hne, hin⟩
  · rintro ⟨mode, hne, hd, access, hna, hin⟩
    refine ⟨⟨path, access⟩, ⟨hin, hna, FileSystemAccessMode.canRead_iff.mpr ?_⟩, rfl⟩
    exact (h.access_of_decides hc hp hu hd).trans_ne hne

lemma RootsResolve.mem_unreadable : path ∈ getUnreadableRootsWithCwd c system policy cwd ↔
    ⟨path, .deny⟩ ∈ policy.resolvedEntriesWithCwd c system cwd ∧ path ≠ ⟨[]⟩ := by
  rw [mem_unreadableRoots h.ofPolicy.kind_eq]
  refine and_congr_right fun hin => and_iff_right ?_
  rw [Bool.eq_false_iff, Ne, canReadLocalPathWithCwd, FileSystemAccessMode.canRead_iff, not_not]
  exact h.access_of_decides hc hp hu (.self (h.keyed _ _ hin) fun m => by cases m <;> decide)

lemma RootsResolve.mem_writable : (∃ entry ∈ writableEntries system (Linux.canWriteLocalPathWithCwd c system policy cwd)
      (policy.resolvedEntriesWithCwd c system cwd) .separate, entry.path = path) ↔
    ModeAt c system policy cwd path .write ∧ ⟨path, .write⟩ ∈ policy.resolvedEntriesWithCwd c system cwd := by
  simp only [mem_writableEntries_separate]
  constructor
  · rintro ⟨⟨_, _⟩, ⟨hin, rfl, hw⟩, rfl⟩
    obtain ⟨⟨_, hd⟩, -⟩ := (h.canWrite_iff hc hp hu).mp hw
    obtain rfl := hd.eq_self (h.keyed _ _ hin)
    exact ⟨hd, hin⟩
  · rintro ⟨hd, hin⟩
    exact ⟨⟨path, .write⟩, ⟨hin, rfl, (h.canWrite_iff hc hp hu).mpr hd.granted⟩, rfl⟩

/-! ## Roots of equivalent policies -/

variable (h' : RootsResolve c system other cwd)
  (heq : semanticSignature c system policy cwd = semanticSignature c system other cwd)

include h' heq

/-- A writable root that is listed is one of the other policy too, with the same names protected. -/
lemma RootsResolve.shared_root (hd : ModeAt c system policy cwd path .write) (hno : ¬ Omitted c system policy cwd path)
    :
    ModeAt c system other cwd path .write ∧ ∀ name ∈ protectedMetadataPathNames,
      Linux.canWriteLocalPathWithCwd c system policy cwd (path.join system.host name) =
        Linux.canWriteLocalPathWithCwd c system other cwd (path.join system.host name) := by
  simp only [Omitted, not_exists, not_and, not_or, not_not] at hno
  obtain ⟨hin, -, -, hf⟩ := hno .write hd.mem
  have hf : policy.hasFullDiskWriteAccess c = false := Bool.eq_false_iff.mpr (hf (by simp))
  obtain ⟨entry, hen, rfl⟩ := (h.mem_writable hc hp hu).mpr ⟨hd, hin⟩
  have hm : ∀ {p} {w : WritableRoot}, p.hasFullDiskWriteAccess c = false →
      (w ∈ (semanticSignature c system p cwd).writableRoots ↔ ∃ entry ∈ writableEntries system
        (Linux.canWriteLocalPathWithCwd c system p cwd) (p.resolvedEntriesWithCwd c system cwd) .separate,
        sortedWritableRoot (writableRoot system (Linux.canWriteLocalPathWithCwd c system p cwd)
          (p.resolvedEntriesWithCwd c system cwd) cwd entry.path) = w) := by
    intro p w hp
    unfold semanticSignature sortedWritableRoots getWritableRootsWithCwd
    simp only [mem_insertionSort, mem_map, hp, Bool.false_eq_true, if_false, mem_writableRoots]
    exact ⟨fun ⟨_, ⟨e, he, hw⟩, hw'⟩ => ⟨e, he, hw ▸ hw'⟩, fun ⟨e, he, hw⟩ => ⟨_, ⟨e, he, rfl⟩, hw⟩⟩
  have hw := (hm hf).mpr ⟨entry, hen, rfl⟩
  rw [heq] at hw
  obtain ⟨entry', hin', hw'⟩ := (hm ((congrArg (·.hasFullDiskWriteAccess) heq).symm.trans hf)).mp hw
  have hr : entry'.path = entry.path := congrArg WritableRoot.root hw'
  refine ⟨((h'.mem_writable hc hp hu).mp ⟨entry', hin', hr⟩).1, fun name hna => ?_⟩
  have hn := congrArg (name ∈ ·.protectedMetadataNames) hw'
  simp only [sortedWritableRoot, writableRoot, mem_eraseDups, mem_insertionSort, mem_protectedMetadataNames, hna,
    true_and, hr, eq_iff_iff] at hn
  rw [Bool.eq_iff_iff, ← not_iff_not, Bool.not_eq_true, Bool.not_eq_true]
  exact hn.symm

lemma RootsResolve.shared_denial (hin : (path.key, .deny) ∈ keyedRoots c system policy cwd)
    (hno : ¬ Omitted c system policy cwd path) : (path.key, .deny) ∈ keyedRoots c system other cwd := by
  simp only [Omitted, not_exists, not_and, not_or, not_not] at hno
  obtain ⟨hre, hne, -⟩ := hno .deny hin
  have hl := mem_of_sorted_eq (congrArg (·.unreadableRoots) heq)
    ((h.mem_unreadable hc hp hu).mpr ⟨hre, hne rfl⟩)
  exact h'.keyed _ _ ((h'.mem_unreadable hc hp hu).mp hl).1

variable (hplaces : ∀ place : AbsolutePathBuf, place.OfSystem → place.hasUri →
  OmittedPlace c system policy cwd place ∨ OmittedPlace c system other cwd place →
    Alike c system policy cwd other place)

include hplaces

/-- The other policy has the mode of a root at that root, listed or not. -/
lemma RootsResolve.access_at_root (hd : ModeAt c system policy cwd path mode) :
    resolveAccessForLocalPathWithCwd c system other cwd path = mode := by
  have hm := h.access_of_decides hc hp hu hd
  by_cases hom : Omitted c system policy cwd path ∨ Omitted c system other cwd path
  · rw [← (hplaces path hp hu (hom.imp .inl .inl)).access, hm]
  rw [not_or] at hom
  obtain ⟨hno, hno'⟩ := hom
  cases mode with
  | write => exact h'.access_of_decides hc hp hu (h.shared_root hc hp hu h' heq hd hno).1
  | deny =>
    exact h'.access_of_decides hc hp hu
      (.self (h.shared_denial hc hp hu h' heq hd.mem hno) fun m => by cases m <;> decide)
  | read =>
    have hl := hno
    simp only [Omitted, not_exists, not_and, not_or, not_not] at hl
    obtain ⟨hin, -, hf, -⟩ := hl .read hd.mem
    have hl := mem_of_sorted_eq (congrArg (·.readableRoots) heq) ((h.mem_readable hc hp hu).mpr
      ⟨Bool.eq_false_iff.mpr (hf rfl), .read, by decide, hd, .read, by decide, hin⟩)
    obtain ⟨-, mode, hne, hd', -⟩ := (h'.mem_readable hc hp hu).mp hl
    cases mode with
    | read => exact h'.access_of_decides hc hp hu hd'
    | deny => cases hne rfl
    | write => cases (hd.unique (h'.shared_root hc hp hu h heq.symm hd' hno').1).2

/-- Of the roots that decide, the deeper one is known to both policies. -/
lemma RootsResolve.access_eq_of_deeper (hd : Rooted.Decides (keyedRoots c system policy cwd) path.key root mode)
    (hs : ∀ e ∈ keyedRoots c system other cwd, e.1 <+: path.key → e.1 <+: root) :
    resolveAccessForLocalPathWithCwd c system other cwd path = mode := by
  have hup := path.upTo_prefix root.length
  have hk : (path.upTo root.length).key = root := key_upTo hd.above
  have hat : ModeAt c system policy cwd (path.upTo root.length) mode := by
    unfold ModeAt
    rw [hk]
    exact hd.of_between prefix_rfl hd.above
  have ha := h.access_at_root hc (hp.above hup) (hasUri_above hu hup) h' heq hplaces hat
  by_cases hm : ∃ e ∈ keyedRoots c system other cwd, e.1 <+: path.key
  · obtain ⟨key, mode', hd'⟩ := Rooted.exists_decides _ _ hm
    rw [h'.access_of_decides hc hp hu hd', ← ha]
    have hat' : Rooted.Decides (keyedRoots c system other cwd) (path.upTo root.length).key key mode' := by
      rw [hk]
      exact hd'.of_between (hs _ hd'.mem hd'.above) hd.above
    exact (h'.access_of_decides hc (hp.above hup) (hasUri_above hu hup) hat').symm
  · by_contra hne
    have hn : ∀ x : AbsolutePathBuf, x.names <+: path.names → x.OfSystem → x.hasUri →
        resolveAccessForLocalPathWithCwd c system other cwd x = .deny := by
      intro x hx hpx hux
      by_contra hnd
      obtain ⟨key, hd'⟩ := h'.exists_decides hc hpx hux hnd
      exact hm ⟨_, hd'.mem, hd'.above.trans (key_prefix_iff.mpr hx)⟩
    rw [hn path prefix_rfl hp hu, ← ha] at hne
    exact hne (hn _ hup (hp.above hup) (hasUri_above hu hup)).symm

lemma RootsResolve.denied_of_denied (hd : isUnderDeniedRoot c system policy cwd path) :
    isUnderDeniedRoot c system other cwd path := by
  obtain ⟨root, hne, hpr, hin⟩ := (h.underDenied_iff hc hp hu).mp hd
  have hup := path.upTo_prefix root.length
  have hk : (path.upTo root.length).key = root := key_upTo hpr
  rw [← hk] at hin
  by_cases hom : Omitted c system policy cwd (path.upTo root.length)
  · have hp' := hp.above hup
    have hu' := hasUri_above hu hup
    have hat := (hplaces _ hp' hu' (.inl (.inl hom))).denied
    rw [(h.underDenied_iff hc hp' hu').mpr ⟨root, hne, hk.symm ▸ prefix_rfl, hk ▸ hin⟩] at hat
    obtain ⟨upper, hne, ha, hin⟩ := (h'.underDenied_iff hc hp' hu').mp hat.symm
    exact (h'.underDenied_iff hc hp hu).mpr ⟨upper, hne, ha.trans (key_prefix_iff.mpr hup), hin⟩
  · have hin' := h.shared_denial hc (hp.above hup) (hasUri_above hu hup) h' heq hin hom
    exact (h'.underDenied_iff hc hp hu).mpr ⟨root, hne, hpr, hk ▸ hin'⟩

/-- At a writable root, and at the protected names right below it, both policies answer alike about writes. -/
lemma RootsResolve.write_at_root {root : AbsolutePathBuf} (hr : root.names <+: path.names)
    (hd : ModeAt c system policy cwd root .write) : Linux.canWriteLocalPathWithCwd c system other cwd root ∧
      ∀ name ∈ protectedMetadataPathNames, root.join system.host name = path →
        Linux.canWriteLocalPathWithCwd c system policy cwd path =
          Linux.canWriteLocalPathWithCwd c system other cwd path := by
  have hp' := hp.above hr
  have hu' := hasUri_above hu hr
  by_cases hom : Omitted c system policy cwd root
  · refine ⟨?_, fun name hn hj => (hplaces path hp hu (.inl (.inr ⟨root, name, hn, hom, hj.symm⟩))).write⟩
    rw [← (hplaces root hp' hu' (.inl (.inl hom))).write]
    exact (h.canWrite_iff hc hp' hu').mpr hd.granted
  · obtain ⟨hd', hn⟩ := h.shared_root hc hp' hu' h' heq hd hom
    exact ⟨(h'.canWrite_iff hc hp' hu').mpr hd'.granted, fun name hna hj => hj ▸ hn name hna⟩

end Roots

/-! ## Equivalent policies -/

section Equivalent

variable {c : FileUrlCrates} {g : Globset} {system : LocalSystem} {policy other : FileSystemSandboxPolicy}
  {cwd path : AbsolutePathBuf} (hc : c.Lawful) (h : RootsResolve c system policy cwd)
  (h' : RootsResolve c system other cwd)
  (heq : semanticSignature c system policy cwd = semanticSignature c system other cwd)
  (hplaces : ∀ place : AbsolutePathBuf, place.OfSystem → place.hasUri →
    OmittedPlace c system policy cwd place ∨ OmittedPlace c system other cwd place →
      Alike c system policy cwd other place)
  (hp : path.OfSystem) (hu : path.hasUri)

omit hc h h' heq hp hu in
lemma alike_places_symm (hplaces : ∀ place : AbsolutePathBuf, place.OfSystem → place.hasUri →
    OmittedPlace c system policy cwd place ∨ OmittedPlace c system other cwd place →
      Alike c system policy cwd other place) (place : AbsolutePathBuf) (hp : place.OfSystem) (hu : place.hasUri)
    (hom : OmittedPlace c system other cwd place ∨ OmittedPlace c system policy cwd place) :
    Alike c system other cwd policy place :=
  have ha := hplaces place hp hu hom.symm
  ⟨ha.access.symm, ha.write.symm, ha.denied.symm⟩

include hc h h' heq hplaces hp hu

lemma access_eq_of_places : resolveAccessForLocalPathWithCwd c system policy cwd path =
    resolveAccessForLocalPathWithCwd c system other cwd path := by
  have hsy := alike_places_symm hplaces
  by_cases hm : ∃ e ∈ keyedRoots c system policy cwd, e.1 <+: path.key
  swap
  · by_contra hne
    have hnd : resolveAccessForLocalPathWithCwd c system other cwd path ≠ .deny := by
      intro hd'
      obtain ⟨root, hd⟩ := h.exists_decides hc hp hu (hd' ▸ hne)
      exact hm ⟨_, hd.mem, hd.above⟩
    obtain ⟨root, hd⟩ := h'.exists_decides hc hp hu hnd
    exact hne (h'.access_eq_of_deeper hc hp hu h heq.symm hsy hd fun e he ha => absurd ⟨e, he, ha⟩ hm)
  obtain ⟨root, mode, hd⟩ := Rooted.exists_decides _ _ hm
  by_cases hs : ∀ e ∈ keyedRoots c system other cwd, e.1 <+: path.key → e.1 <+: root
  · rw [h.access_eq_of_deeper hc hp hu h' heq hplaces hd hs, h.access_of_decides hc hp hu hd]
  simp only [not_forall] at hs
  obtain ⟨e, he, ha, hn⟩ := hs
  obtain ⟨root', mode', hd'⟩ := Rooted.exists_decides _ _ ⟨e, he, ha⟩
  -- The root of the other policy is the deeper one.
  rw [h'.access_of_decides hc hp hu hd']
  refine h'.access_eq_of_deeper hc hp hu h heq.symm hsy hd' fun e' he' ha' => (hd.above_root he' ha').trans ?_
  rcases prefix_or_prefix_of_prefix hd.above hd'.above with hr | hr
  · exact hr
  · exact absurd ((hd'.above_root he ha).trans hr) hn

lemma canWrite_of_places (hw : Linux.canWriteLocalPathWithCwd c system policy cwd path) :
    Linux.canWriteLocalPathWithCwd c system other cwd path := by
  have hsy := alike_places_symm hplaces
  have hg := (h.canWrite_iff hc hp hu).mp hw
  obtain ⟨root, hd⟩ := hg.1
  have ha := (access_eq_of_places hc h h' heq hplaces hp hu).symm.trans (h.access_of_decides hc hp hu hd)
  obtain ⟨root', hd'⟩ := h'.exists_decides hc hp hu (ha ▸ by simp)
  rw [ha] at hd'
  by_contra hno
  rw [h'.canWrite_iff hc hp hu] at hno
  obtain ⟨key, he, hbo, hbe⟩ := Rooted.exists_boundary ⟨_, hd'.mem, hd'.above⟩ hno
  -- The refusal starts below the deciding root, so at a protected name.
  have hnr : ¬ key <+: root' := fun hk => hbe root' hk hd'.above (hd'.of_between prefix_rfl hd'.above).granted
  rcases hbo with ⟨mode, -, hin⟩ | ⟨upper, name, hin, hna, rfl⟩
  · exact hnr (hd'.above_root hin he)
  obtain rfl : root' = upper := by
    have hup := hd'.above_root hin ((prefix_append _ _).trans he)
    refine (hup.eq_of_length_le ?_).symm
    by_contra hlt
    exact hnr (prefix_of_prefix_length_le he hd'.above (by simpa using not_le.mp hlt))
  obtain ⟨name, hname, rfl⟩ : ∃ text ∈ protectedMetadataPathNames, Text.asBytes text = name := by
    split at hna
    · simp at hna
    · exact mem_map.mp hna
  have hed := path.upTo_prefix (root' ++ [Text.asBytes name]).length
  have hek := key_upTo he
  have hrk := key_upTo hd'.above
  have hre : (path.upTo root'.length).names <+: (path.upTo (root' ++ [Text.asBytes name]).length).names := by
    rw [← key_prefix_iff, hek, hrk]
    exact prefix_append _ _
  have hj : (path.upTo root'.length).join system.host name = path.upTo (root' ++ [Text.asBytes name]).length := by
    refine AbsolutePathBuf.ext ((map_injective_iff.mpr fun _ _ => asBytes_injective) ?_)
    change _ = (path.upTo (root' ++ [Text.asBytes name]).length).key
    rw [hek, join_metadata_names hname, map_append]
    exact congrArg (· ++ [Text.asBytes name]) hrk
  have hat : ModeAt c system other cwd (path.upTo root'.length) .write := by
    unfold ModeAt
    rw [hrk]
    exact hd'.of_between prefix_rfl hd'.above
  have hsame := (h'.write_at_root hc (hp.above hed) (hasUri_above hu hed) h heq.symm hsy hre hat).2 name hname hj
  have hrefused : ¬ Linux.canWriteLocalPathWithCwd c system other cwd
      (path.upTo (root' ++ [Text.asBytes name]).length) := by
    rw [h'.canWrite_iff hc (hp.above hed) (hasUri_above hu hed), hek]
    exact hbe _ prefix_rfl he
  rw [hsame, h.canWrite_iff hc (hp.above hed) (hasUri_above hu hed), hek] at hrefused
  rcases lt_or_ge root.length (root' ++ [Text.asBytes name]).length with hlt | hge
  · exact hrefused (hg.of_between hd (prefix_of_prefix_length_le hd.above he hlt.le) hlt he)
  -- A root of the one policy below the name is writable under the other, which no path there is.
  have hup := path.upTo_prefix root.length
  have hk := key_upTo hd.above
  have hat : ModeAt c system policy cwd (path.upTo root.length) .write := by
    unfold ModeAt
    rw [hk]
    exact hd.of_between prefix_rfl hd.above
  have hw' := (h.write_at_root hc hp hu h' heq hplaces hup hat).1
  rw [h'.canWrite_iff hc (hp.above hup) (hasUri_above hu hup), hk] at hw'
  exact hbe root (prefix_of_prefix_length_le he hd.above hge) hd.above hw'

end Equivalent

/-- A machine with the directory `/w` and nothing else. -/
def bareLinux : LocalSystem where
  host := { homeDirectory := none, currentDir := none }
  tmpdir := none
  files := .node [("w".toList, .node [])]

def diskReads (entries : List FileSystemSandboxEntry) : FileSystemSandboxPolicy :=
  .restricted ([{ path := .special .root, access := .read }, localEntry "/w" .write] ++ entries)

def diskRoots : List AbsolutePathBuf := [⟨[]⟩, normalize "/w", normalize "/a"]

lemma rootsResolve_of_diskRoots {policy : FileSystemSandboxPolicy} (hk : policy.kind = .restricted)
    (hr : ∀ e ∈ policy.resolvedEntries FileUrlCrates.plain.toUrlCrates
      (localPolicyContext .plain bareLinux (normalize "/w")),
        ∃ root ∈ diskRoots, PathUri.fromAbsPath .plain root = e.1)
    (hkey : ∀ entry ∈ policy.resolvedEntriesWithCwd .plain bareLinux (normalize "/w"),
      (entry.path.key, entry.access) ∈ keyedRoots .plain bareLinux policy (normalize "/w")) :
    RootsResolve .plain bareLinux policy (normalize "/w") where
  ofPolicy := {
    kind_eq := hk
    cwd := rfl
    roots := by
      refine FileSystemSandboxPolicy.LocalRoots.of_clean FileUrlCrates.plain_lawful fun e he => .inl ?_
      obtain ⟨root, hin, he⟩ := hr e he
      have hn : root.Normal ∧ root.hasUri := by
        simp only [diskRoots, mem_cons, not_mem_nil, or_false] at hin
        rcases hin with rfl | rfl | rfl
        · exact ⟨nofun, by decide⟩
        · exact ⟨normalize_normal _, by decide⟩
        · exact ⟨normalize_normal _, by decide⟩
      obtain ⟨url, heq, hcl, -⟩ := PathUri.fromAbsPath_clean FileUrlCrates.plain_lawful hn.1 hn.2
      exact ⟨url, he ▸ heq, hcl⟩ }
  keyed path access hin := hkey ⟨path, access⟩ hin
  cwdNormal := normalize_normal _

def diskPlaces : List AbsolutePathBuf :=
  diskRoots ++ diskRoots.flatMap fun root => protectedMetadataPathNames.map (root.join bareLinux.host)

lemma OmittedPlace.mem_diskPlaces {policy : FileSystemSandboxPolicy} {path : AbsolutePathBuf}
    (h : OmittedPlace .plain bareLinux policy (normalize "/w") path)
    (hk : ∀ e ∈ keyedRoots .plain bareLinux policy (normalize "/w"),
      ∃ root ∈ diskRoots, root.key = e.1) : path ∈ diskPlaces := by
  have hr : ∀ {root : AbsolutePathBuf}, Omitted .plain bareLinux policy (normalize "/w") root →
      root ∈ diskRoots := by
    rintro root ⟨mode, hin, -⟩
    obtain ⟨root', hin', hke⟩ := hk _ hin
    cases AbsolutePathBuf.ext ((map_injective_iff.mpr fun _ _ => asBytes_injective) hke)
    exact hin'
  rcases h with h | ⟨root, name, hna, h, rfl⟩
  · exact mem_append_left _ (hr h)
  · exact mem_append_right _ (mem_flatMap.mpr ⟨root, hr h, mem_map_of_mem hna⟩)

instance : Decidable (Alike c system policy cwd other path) := decidable_of_iff _ (alike_iff ..).symm

end Codex.Sandbox
