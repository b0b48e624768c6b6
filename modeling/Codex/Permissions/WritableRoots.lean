import Codex.Tree
import Codex.Permissions.LocalAccess

/-!
# Writable roots and their carve-outs

`get_writable_roots_with_cwd_impl`, `get_readable_roots_with_cwd` and `get_unreadable_roots_with_cwd` of
`protocol/src/permissions.rs`, without symbolic links.
-/

namespace Codex.Permissions

open Codex.Text AbsolutePathBuf List FileSystemAccessMode

/-! ## The local machine -/

/-- The environment of the process and its disk. A file holds its text. -/
structure LocalSystem where
  host : Host
  tmpdir : Option Text
  files : Tree Text Text

namespace LocalSystem

variable (system : LocalSystem)

section

variable (path : AbsolutePathBuf)

def pathExists : Bool := (system.files.get path.names).isSome

def isDir : Bool := (system.files.get path.names).any (·.isNode)

def isFile : Bool := (system.files.get path.names).any (!·.isNode)

/-- A name is looked up in what is no directory. -/
def passesFile : Bool :=
  path.names.inits.dropLast.any fun names => (system.files.get names).any (!·.isNode)

def readToString : Option Text :=
  match system.files.get path.names with
  | some (.leaf contents) => some contents
  | _ => none

def localTemporaryDirectory : Option AbsolutePathBuf :=
  (system.tmpdir.filter (!·.isEmpty)).bind (fromAbsolutePath system.host)

/-! ## Git directories -/

def isGitPointerFile : Bool :=
  system.isFile path && path.fileName = some ".git".toList

end

/-- The directory that a `.git` file points to, relative to the directory of the file. -/
def resolveGitdirFromFile (dotGit : AbsolutePathBuf) : Option AbsolutePathBuf := do
  let trimmed := trim (← system.readToString dotGit)
  let key := trimmed.takeWhile (· ≠ ':')
  let gitdirRaw := trim ((trimmed.dropWhile (· ≠ ':')).drop 1)
  if !trimmed.contains ':' || trim key ≠ "gitdir".toList || gitdirRaw.isEmpty then none
  else
    let gitdirPath := resolvePathAgainstBase system.host gitdirRaw ⟨dotGit.names.dropLast⟩
    if system.pathExists gitdirPath then some gitdirPath else none

def gitdirOf (root : AbsolutePathBuf) : Option AbsolutePathBuf :=
  let dotGit := root.join system.host ".git"
  if system.isGitPointerFile dotGit then system.resolveGitdirFromFile dotGit else none

def defaultReadOnlySubpathsForWritableRoot (writableRoot : AbsolutePathBuf) (protectMissingDotCodex : Bool) :
    List AbsolutePathBuf :=
  let topLevel (name : Text) := writableRoot.join system.host name
  let git := topLevel ".git"
  let gitSubpaths :=
    if system.isDir git || system.isFile git then (system.gitdirOf writableRoot).toList ++ [git] else []
  let agentsSubpaths := if system.isDir (topLevel ".agents") then [topLevel ".agents"] else []
  let codexSubpaths :=
    if protectMissingDotCodex || system.isDir (topLevel ".codex") then [topLevel ".codex"] else []
  let awsSubpaths := if system.isDir (topLevel ".aws") then [topLevel ".aws"] else []
  (gitSubpaths ++ agentsSubpaths ++ codexSubpaths ++ awsSubpaths).eraseDups

end LocalSystem

/-! ## Entries as local paths -/

def resolveFileSystemSpecialPath (system : LocalSystem) (cwd : AbsolutePathBuf) :
    FileSystemSpecialPath → Option AbsolutePathBuf
  | .root => none
  | .minimal => none
  | .unknown .. => none
  | .projectRoots (some subpath) => some (resolvePathAgainstBase system.host subpath cwd)
  | .projectRoots none => some cwd
  | .tmpdir => system.localTemporaryDirectory
  | .slashTmp => if system.isDir ⟨["tmp".toList]⟩ then some ⟨["tmp".toList]⟩ else none

def resolveEntryPath (c : FileUrlCrates) (system : LocalSystem) (cwd : AbsolutePathBuf) :
    FileSystemPath → Option AbsolutePathBuf
  | .special .root => some ⟨[]⟩
  | .special value => resolveFileSystemSpecialPath system cwd value
  | .path uri => uri.toAbsPath c system.host
  | .globPattern _ => none

structure ResolvedFileSystemEntry where
  path : AbsolutePathBuf
  access : FileSystemAccessMode
deriving DecidableEq

def hasExplicitResolvedPathEntry (entries : List ResolvedFileSystemEntry) (path : AbsolutePathBuf) : Bool :=
  entries.any (·.path = path)

structure WritableRoot where
  root : AbsolutePathBuf
  readOnlySubpaths : List AbsolutePathBuf
  protectedMetadataNames : List Text
deriving DecidableEq

inductive RootMetadataWriteMounts where
  | separate
  | inheritWritableRoot
deriving DecidableEq

/-! ## Writable roots -/

section Roots

variable (system : LocalSystem) (canWrite : AbsolutePathBuf → Bool) (resolvedEntries : List ResolvedFileSystemEntry)
  (cwd : AbsolutePathBuf) (rootMetadataMounts : RootMetadataWriteMounts)

def effectiveEntries : List ResolvedFileSystemEntry :=
  resolvedEntries.filter fun entry => entry.access.canWrite == canWrite entry.path

def resolvedGitdirEntries : List ResolvedFileSystemEntry :=
  ((((effectiveEntries canWrite resolvedEntries).filter (·.access.canWrite)).filterMap fun entry =>
    system.gitdirOf entry.path).filter (!hasExplicitResolvedPathEntry resolvedEntries ·)).map (⟨·, .read⟩)

def preparedEntries : List ResolvedFileSystemEntry :=
  effectiveEntries canWrite resolvedEntries ++ resolvedGitdirEntries system canWrite resolvedEntries

def inheritsRootMetadata : Bool :=
  rootMetadataMounts = .inheritWritableRoot && (preparedEntries system canWrite resolvedEntries).any fun entry =>
    entry.access.canWrite && entry.path.names.isEmpty

def writableEntries : List ResolvedFileSystemEntry :=
  ((preparedEntries system canWrite resolvedEntries).filter (·.access.canWrite)).filter fun entry =>
    !inheritsRootMetadata system canWrite resolvedEntries rootMetadataMounts || entry.path.names.length ≠ 1 ||
      !entry.path.fileName.any protectedMetadataPathNames.contains

def carveouts (root : AbsolutePathBuf) : List AbsolutePathBuf :=
  ((preparedEntries system canWrite resolvedEntries).filter (!·.access.canWrite)).filterMap fun entry =>
    if entry.path = root || !entry.path.startsWith root then none else some entry.path

def protectedMetadataNamesForWritableRoot (root : AbsolutePathBuf) : List Text :=
  protectedMetadataPathNames.filter fun metadataName => !canWrite (root.join system.host metadataName)

def writableRoot (root : AbsolutePathBuf) : WritableRoot where
  root
  readOnlySubpaths :=
    ((system.defaultReadOnlySubpathsForWritableRoot root (cwd = root)).filter
      (!hasExplicitResolvedPathEntry resolvedEntries ·) ++ carveouts system canWrite resolvedEntries root).eraseDups
  protectedMetadataNames := protectedMetadataNamesForWritableRoot system canWrite root

/-- `get_writable_roots_with_cwd_impl` without the full-disk check, for what can be written by the policy. -/
def writableRoots : List WritableRoot :=
  ((writableEntries system canWrite resolvedEntries rootMetadataMounts).map (·.path)).eraseDups.map
    (writableRoot system canWrite resolvedEntries cwd)

end Roots

section Spec

variable {system : LocalSystem} {canWrite : AbsolutePathBuf → Bool} {resolvedEntries : List ResolvedFileSystemEntry}
  {cwd root path : AbsolutePathBuf} {rootMetadataMounts : RootMetadataWriteMounts} {entry : ResolvedFileSystemEntry}

lemma mem_resolvedGitdirEntries : entry ∈ resolvedGitdirEntries system canWrite resolvedEntries ↔
    entry.access = .read ∧ hasExplicitResolvedPathEntry resolvedEntries entry.path = false ∧
      ∃ writable ∈ resolvedEntries, writable.access = .write ∧ canWrite writable.path ∧
        system.gitdirOf writable.path = some entry.path := by
  unfold resolvedGitdirEntries effectiveEntries
  simp only [mem_map, mem_filter, mem_filterMap, beq_iff_eq, canWrite_iff, Bool.not_eq_true']
  constructor
  · rintro ⟨_, ⟨⟨writable, ⟨⟨hin, hef⟩, hw⟩, hg⟩, he⟩, rfl⟩
    exact ⟨rfl, he, writable, hin, hw, by rw [← hef, hw]; rfl, hg⟩
  rintro ⟨ha, he, writable, hin, hw, hc, hg⟩
  refine ⟨entry.path, ⟨⟨writable, ⟨⟨hin, ?_⟩, hw⟩, hg⟩, he⟩, ?_⟩
  · rw [hw, hc]
    rfl
  · rw [← ha]

lemma mem_effectiveEntries_write (hw : entry.access = .write) :
    entry ∈ effectiveEntries canWrite resolvedEntries ↔ entry ∈ resolvedEntries ∧ canWrite entry.path := by
  unfold effectiveEntries
  rw [mem_filter, beq_iff_eq, hw, eq_comm]
  rfl

lemma mem_effectiveEntries_not_write (hw : entry.access ≠ .write) :
    entry ∈ effectiveEntries canWrite resolvedEntries ↔ entry ∈ resolvedEntries ∧ canWrite entry.path = false := by
  have hn : entry.access.canWrite = false := by
    rw [Bool.eq_false_iff, Ne, canWrite_iff]
    exact hw
  unfold effectiveEntries
  rw [mem_filter, beq_iff_eq, hn, eq_comm]

lemma mem_preparedEntries_write (hw : entry.access = .write) :
    entry ∈ preparedEntries system canWrite resolvedEntries ↔
      entry ∈ resolvedEntries ∧ canWrite entry.path := by
  unfold preparedEntries
  rw [mem_append, mem_effectiveEntries_write hw, mem_resolvedGitdirEntries, hw]
  simp

lemma mem_writableEntries_separate : entry ∈ writableEntries system canWrite resolvedEntries .separate ↔
    entry ∈ resolvedEntries ∧ entry.access = .write ∧ canWrite entry.path := by
  unfold writableEntries inheritsRootMetadata
  simp only [reduceCtorEq, decide_false, Bool.false_and, Bool.not_false, Bool.true_or, filter_true,
    mem_filter, canWrite_iff]
  constructor
  · rintro ⟨hin, hw⟩
    obtain ⟨hin, hc⟩ := (mem_preparedEntries_write hw).mp hin
    exact ⟨hin, hw, hc⟩
  · rintro ⟨hin, hw, hc⟩
    exact ⟨(mem_preparedEntries_write hw).mpr ⟨hin, hc⟩, hw⟩

/-- What is carved out of a writable root, from the entries and the disk. -/
inductive ReadOnly (system : LocalSystem) (canWrite : AbsolutePathBuf → Bool)
    (resolvedEntries : List ResolvedFileSystemEntry) (cwd root : AbsolutePathBuf) : AbsolutePathBuf → Prop where
  | metadata {path : AbsolutePathBuf}
      (h : path ∈ system.defaultReadOnlySubpathsForWritableRoot root (cwd = root))
      (hexplicit : hasExplicitResolvedPathEntry resolvedEntries path = false) :
      ReadOnly system canWrite resolvedEntries cwd root path
  | entry {e : ResolvedFileSystemEntry} (h : e ∈ resolvedEntries) (hwrite : e.access ≠ .write)
      (hcan : canWrite e.path = false) (hne : e.path ≠ root) (hbelow : root.names <+: e.path.names) :
      ReadOnly system canWrite resolvedEntries cwd root e.path
  | gitdir {e : ResolvedFileSystemEntry} {path : AbsolutePathBuf} (h : e ∈ resolvedEntries)
      (hwrite : e.access = .write) (hcan : canWrite e.path = true) (hgitdir : system.gitdirOf e.path = some path)
      (hexplicit : hasExplicitResolvedPathEntry resolvedEntries path = false) (hne : path ≠ root)
      (hbelow : root.names <+: path.names) : ReadOnly system canWrite resolvedEntries cwd root path

lemma mem_carveouts : path ∈ carveouts system canWrite resolvedEntries root ↔
    path ≠ root ∧ root.names <+: path.names ∧ ∃ entry ∈ preparedEntries system canWrite resolvedEntries,
      entry.access ≠ .write ∧ entry.path = path := by
  unfold carveouts
  simp only [mem_filterMap, mem_filter, Bool.not_eq_true', Bool.eq_false_iff, ne_eq, canWrite_iff]
  constructor
  · rintro ⟨entry, ⟨hin, hw⟩, hs⟩
    split at hs
    · simp at hs
    rename_i hc
    simp only [Bool.or_eq_true, decide_eq_true_eq, Bool.not_eq_true', not_or, Bool.not_eq_false, startsWith_iff] at hc
    cases hs
    exact ⟨hc.1, hc.2, entry, hin, hw, rfl⟩
  rintro ⟨hne, hb, entry, hin, hw, rfl⟩
  refine ⟨entry, ⟨hin, hw⟩, ?_⟩
  rw [if_neg]
  simp only [Bool.or_eq_true, decide_eq_true_eq, Bool.not_eq_true', not_or, Bool.not_eq_false, startsWith_iff]
  exact ⟨hne, hb⟩

lemma mem_readOnlySubpaths :
    path ∈ (writableRoot system canWrite resolvedEntries cwd root).readOnlySubpaths ↔
      ReadOnly system canWrite resolvedEntries cwd root path := by
  unfold writableRoot
  simp only [mem_eraseDups, mem_append, mem_filter, Bool.not_eq_true', mem_carveouts]
  constructor
  · rintro (⟨h, he⟩ | ⟨hne, hb, entry, hin, hw, rfl⟩)
    · exact .metadata h he
    unfold preparedEntries at hin
    rcases mem_append.mp hin with hin | hin
    · obtain ⟨hin, hc⟩ := (mem_effectiveEntries_not_write hw).mp hin
      exact .entry hin hw hc hne hb
    · obtain ⟨-, he, _, hin, hw, hc, hg⟩ := mem_resolvedGitdirEntries.mp hin
      exact .gitdir hin hw hc hg he hne hb
  intro h
  cases h with
  | metadata h he => exact .inl ⟨h, he⟩
  | @entry e h hw hc hne hb =>
    refine .inr ⟨hne, hb, e, ?_, hw, rfl⟩
    exact mem_append_left _ ((mem_effectiveEntries_not_write hw).mpr ⟨h, hc⟩)
  | @gitdir e _ h hw hc hg he hne hb =>
    refine .inr ⟨hne, hb, ⟨path, .read⟩, ?_, by simp, rfl⟩
    exact mem_append_right _ (mem_resolvedGitdirEntries.mpr ⟨rfl, he, e, h, hw, hc, hg⟩)

lemma mem_protectedMetadataNames :
    name ∈ protectedMetadataNamesForWritableRoot system canWrite root ↔
      name ∈ protectedMetadataPathNames ∧ canWrite (root.join system.host name) = false := by
  unfold protectedMetadataNamesForWritableRoot
  rw [mem_filter, Bool.not_eq_true']

lemma mem_writableRoots :
    w ∈ writableRoots system canWrite resolvedEntries cwd rootMetadataMounts ↔
      ∃ entry ∈ writableEntries system canWrite resolvedEntries rootMetadataMounts,
        w = writableRoot system canWrite resolvedEntries cwd entry.path := by
  unfold writableRoots
  simp only [mem_map, mem_eraseDups]
  constructor
  · rintro ⟨_, ⟨entry, hin, rfl⟩, rfl⟩
    exact ⟨entry, hin, rfl⟩
  · rintro ⟨entry, hin, rfl⟩
    exact ⟨entry.path, ⟨entry, hin, rfl⟩, rfl⟩

end Spec

namespace FileSystemSandboxPolicy

def resolvedEntriesWithCwd (c : FileUrlCrates) (system : LocalSystem) (policy : FileSystemSandboxPolicy)
    (cwd : AbsolutePathBuf) : List ResolvedFileSystemEntry :=
  policy.entries.filterMap fun entry =>
    (resolveEntryPath c system cwd entry.path).map (⟨·, entry.access⟩)

def localPolicyContext (c : FileUrlCrates) (system : LocalSystem) (cwd : AbsolutePathBuf) :
    FileSystemSandboxPolicyContext where
  cwd := .fromAbsPath c cwd
  workspaceRoots := [.fromAbsPath c cwd]
  userHomeDir := (fromAbsolutePathChecked system.host "~").map (.fromAbsPath c)
  temporaryDirectories := some (system.localTemporaryDirectory.map (.fromAbsPath c)).toList

def hasFullDiskReadAccess (policy : FileSystemSandboxPolicy) : Bool :=
  policy.hasFullDiskReadAccessForConvention (some .posix)

def hasFullDiskWriteAccess (c : FileUrlCrates) (policy : FileSystemSandboxPolicy) : Bool :=
  policy.hasFullDiskWriteAccessForConvention c.toUrlCrates (some .posix)

lemma join_metadata_names {host : Host} {path : AbsolutePathBuf} (h : name ∈ protectedMetadataPathNames) :
    (path.join host name).names = path.names ++ [name] :=
  join_names (metadata_plain h).1 (by rw [metadata_head h]; decide)

end FileSystemSandboxPolicy

/-! ## Policies of local paths -/

def localEntry (path : Text) (access : FileSystemAccessMode) : FileSystemSandboxEntry :=
  { path := .path (.fromAbsPath .plain (normalize path)), access }

def singlePolicy : FileSystemSandboxPolicy := .restricted [localEntry "/w" .write]

def nestedPolicy : FileSystemSandboxPolicy := .restricted [localEntry "/w" .write, localEntry "/w/a" .write]

end Codex.Permissions
