import Mathlib.Data.Prod.Lex
import Codex.MaxByKey
import Codex.PathUri.Basic

/-!
# File system policies

`FileSystemSandboxPolicy` of `protocol/src/permissions.rs`, over the paths of the executor.
-/

namespace Codex.Permissions

open Codex.Text

/-! ## Entries -/

inductive FileSystemAccessMode where
  | read
  | write
  | deny
deriving DecidableEq

namespace FileSystemAccessMode

def rank : FileSystemAccessMode → Nat
  | read => 0
  | write => 1
  | deny => 2

/-- Of two entries for one target the later mode wins. -/
instance : LinearOrder FileSystemAccessMode :=
  LinearOrder.lift' rank fun a b h => by cases a <;> cases b <;> simp_all [rank]

def canRead (access : FileSystemAccessMode) : Bool := access ≠ deny

def canWrite (access : FileSystemAccessMode) : Bool := access = write

variable {access : FileSystemAccessMode}

lemma canRead_iff : access.canRead ↔ access ≠ deny := by
  unfold canRead
  exact decide_eq_true_iff

lemma eq_deny_of_le (h : deny ≤ access) : access = deny := by
  revert h
  cases access <;> decide

lemma canWrite_iff : access.canWrite ↔ access = write := by
  unfold canWrite
  exact decide_eq_true_iff

end FileSystemAccessMode

inductive FileSystemSpecialPath where
  | root
  | minimal
  | projectRoots (subpath : Option Text)
  | tmpdir
  | slashTmp
  | unknown (path : Text) (subpath : Option Text)
deriving DecidableEq

inductive FileSystemPath where
  | path (path : PathUri)
  | globPattern (pattern : Text)
  | special (value : FileSystemSpecialPath)
deriving DecidableEq

inductive FileSystemSandboxEntryMissingPathBehavior where
  | skip
deriving DecidableEq

structure FileSystemSandboxEntry where
  path : FileSystemPath
  access : FileSystemAccessMode
  missingPathBehavior : Option FileSystemSandboxEntryMissingPathBehavior := none
deriving DecidableEq

inductive FileSystemSandboxKind where
  | restricted
  | unrestricted
  | externalSandbox
deriving DecidableEq

structure FileSystemSandboxPolicy where
  kind : FileSystemSandboxKind
  globScanMaxDepth : Option Nat := none
  entries : List FileSystemSandboxEntry
deriving DecidableEq

structure FileSystemSandboxPolicyContext where
  cwd : PathUri
  workspaceRoots : List PathUri
  userHomeDir : Option PathUri
  temporaryDirectories : Option (List PathUri)

def protectedMetadataPathNames : List Text :=
  [".git".toList, ".agents".toList, ".codex".toList, ".aws".toList]

/-! ## Entries for one target -/

def specialPathsShareTarget : FileSystemSpecialPath → FileSystemSpecialPath → Bool
  | .root, .root => true
  | .minimal, .minimal => true
  | .tmpdir, .tmpdir => true
  | .slashTmp, .slashTmp => true
  | .projectRoots left, .projectRoots right => left = right
  | .unknown left leftSubpath, .unknown right rightSubpath => left = right && leftSubpath = rightSubpath
  | _, _ => false

def specialPathMatchesPathUri (c : UrlCrates) (value : FileSystemSpecialPath) (path : PathUri) : Bool :=
  match value with
  | .root => (path.lexicalDepth c).isSome && (path.parent c).isNone
  | .slashTmp => path.inferPathConvention c = some .posix && path.lexicalDepth c = some 1 &&
      path.basename c = some "tmp".toList
  | _ => false

def fileSystemPathsShareTarget (c : UrlCrates) (convention : PathConvention) : FileSystemPath → FileSystemPath → Bool
  | .path left, .path right => left.eq c right
  | .special left, .special right => specialPathsShareTarget left right
  | .path path, .special value =>
    path.inferPathConvention c = some convention && specialPathMatchesPathUri c value path
  | .special value, .path path =>
    path.inferPathConvention c = some convention && specialPathMatchesPathUri c value path
  | .globPattern left, .globPattern right => left = right
  | .globPattern _, _ => false
  | _, .globPattern _ => false

/-! ## The roots of entries -/

section

variable (c : UrlCrates) (context : FileSystemSandboxPolicyContext)

def fileSystemRoot : Option PathUri := do
  let _ ← context.cwd.lexicalDepth c
  (context.cwd.ancestors c).getLast?

def FileSystemPath.paths : FileSystemPath → List PathUri
  | .path uri => [uri]
  | .globPattern _ => []
  | .special .root => (fileSystemRoot c context).toList
  | .special (.projectRoots subpath) => context.workspaceRoots.filterMap fun root =>
    match subpath with
    | some subpath => (root.join c subpath).toOption
    | none => some root
  | .special .tmpdir => context.temporaryDirectories.getD []
  | .special .slashTmp =>
    if context.cwd.inferPathConvention c = some .posix then (context.cwd.join c "/tmp").toOption.toList else []
  | .special .minimal => []
  | .special (.unknown ..) => []

def FileSystemSandboxEntry.roots (entry : FileSystemSandboxEntry) : List (PathUri × FileSystemAccessMode) :=
  ((entry.path.paths c context).filter fun path =>
    path.inferPathConvention c = context.cwd.inferPathConvention c).map (·, entry.access)

end

/-- The roots that can be compared with their depths, unless some root is neither that nor opaque. -/
def withDepths (c : UrlCrates) :
    List (PathUri × FileSystemAccessMode) → Option (List (PathUri × FileSystemAccessMode × Nat))
  | [] => some []
  | (root, access) :: entries =>
    match root.lexicalDepth c with
    | some depth => (withDepths c entries).map ((root, access, depth) :: ·)
    | none => if root.isOpaque c then withDepths c entries else none

namespace FileSystemSandboxPolicy

def resolvedEntries (c : UrlCrates) (policy : FileSystemSandboxPolicy)
    (context : FileSystemSandboxPolicyContext) : List (PathUri × FileSystemAccessMode) :=
  policy.entries.flatMap (·.roots c context)

def restricted (entries : List FileSystemSandboxEntry) : FileSystemSandboxPolicy := { kind := .restricted, entries }

/-! ## Access to the whole disk -/

def hasRootAccess (policy : FileSystemSandboxPolicy) (predicate : FileSystemAccessMode → Bool) : Bool :=
  policy.kind = .restricted && policy.entries.any fun entry =>
    entry.path = .special .root && predicate entry.access

def hasDeniedReadRestrictionsForConvention (policy : FileSystemSandboxPolicy)
    (convention : Option PathConvention) : Bool :=
  policy.kind = .restricted && policy.entries.any fun entry =>
    entry.access = .deny && !(entry.path = .special .slashTmp && convention = some .windows)

def hasFullDiskReadAccessForConvention (policy : FileSystemSandboxPolicy) (convention : Option PathConvention) : Bool :=
  match policy.kind with
  | .unrestricted => true
  | .externalSandbox => true
  | .restricted => policy.hasRootAccess FileSystemAccessMode.canRead &&
    !policy.hasDeniedReadRestrictionsForConvention convention

section

variable (c : UrlCrates) (policy : FileSystemSandboxPolicy)

def hasSameTargetWriteOverride (entry : FileSystemSandboxEntry) (convention : PathConvention) : Bool :=
  policy.entries.any fun candidate =>
    candidate.access.canWrite && decide (candidate.access > entry.access) &&
      fileSystemPathsShareTarget c convention candidate.path entry.path

def narrowsWrite (convention : PathConvention) (entry : FileSystemSandboxEntry) : Bool :=
  if entry.access.canWrite then false
  else match entry.path with
    | .path _ => !policy.hasSameTargetWriteOverride c entry convention
    | .globPattern _ => true
    | .special .root => entry.access = .deny
    | .special .minimal => false
    | .special (.unknown ..) => false
    | .special .slashTmp =>
      if convention = .windows then false else !policy.hasSameTargetWriteOverride c entry convention
    | .special _ => !policy.hasSameTargetWriteOverride c entry convention

def hasWriteNarrowingEntries (convention : PathConvention) : Bool :=
  policy.kind = .restricted && policy.entries.any (policy.narrowsWrite c convention)

def hasFullDiskWriteAccessForConvention (convention : Option PathConvention) : Bool :=
  match policy.kind with
  | .unrestricted => true
  | .externalSandbox => true
  | .restricted => convention.any fun convention =>
    policy.hasRootAccess FileSystemAccessMode.canWrite && !policy.hasWriteNarrowingEntries c convention

def hasFullDiskWriteAccessWithContext (context : FileSystemSandboxPolicyContext) : Bool :=
  policy.hasFullDiskWriteAccessForConvention c (context.cwd.inferPathConvention c)

end

/-! ## Access to a path -/

section

variable (c : UrlCrates)

def mostSpecific (path : PathUri) (entries : List (PathUri × FileSystemAccessMode × Nat)) :
    Option FileSystemAccessMode :=
  (maxByKey (fun (_, access, depth) => toLex (depth, access))
    (entries.filter fun entry => path.startsWith c entry.1)).map (·.2.1)

section

variable (policy : FileSystemSandboxPolicy) (path : PathUri) (context : FileSystemSandboxPolicyContext)

def resolveAccess : FileSystemAccessMode :=
  match policy.kind with
  | .unrestricted => .write
  | .externalSandbox => .write
  | .restricted =>
    match context.cwd.inferPathConvention c with
    | none => .deny
    | some convention =>
      if path.inferPathConvention c ≠ some convention ∨ path.lexicalDepth c = none ∨
          context.cwd.lexicalDepth c = none then .deny
      else match withDepths c (policy.resolvedEntries c context) with
        | none => .deny
        | some entries => (mostSpecific c path entries).getD .deny

def protectedDir (path root : PathUri) : Option (PathUri × Text) :=
  protectedMetadataPathNames.findSome? fun metadataName =>
    ((root.joinDescendant c metadataName).toOption.filter fun dir => path.startsWith c dir).map (·, metadataName)

/-- A writable root below a metadata directory lifts its protection for the paths it holds. -/
def exempts (entries : List (PathUri × FileSystemAccessMode)) (path dir : PathUri) : Bool :=
  entries.any fun (root, access) => access.canWrite && path.startsWith c root && root.startsWith c dir

def metadataWriteDenial : Option Text :=
  if policy.kind ≠ .restricted then none
  else do
    let entries := policy.resolvedEntries c context
    let (dir, metadataName) ← (entries.filter (·.2.canWrite)).findSome? fun (root, _) =>
      protectedDir c path root
    if exempts c entries path dir then none else some metadataName

def canWritePath : Bool :=
  if !(policy.resolveAccess c path context).canWrite then false
  else policy.hasFullDiskWriteAccessWithContext c context || (policy.metadataWriteDenial c path context).isNone

end

end

end FileSystemSandboxPolicy

/-! ## Profiles -/

inductive ManagedFileSystemPermissions where
  | restricted (entries : List FileSystemSandboxEntry) (globScanMaxDepth : Option Nat)
  | unrestricted

def ManagedFileSystemPermissions.toSandboxPolicy : ManagedFileSystemPermissions → FileSystemSandboxPolicy
  | restricted entries globScanMaxDepth => { kind := .restricted, globScanMaxDepth, entries }
  | unrestricted => { kind := .unrestricted, entries := [] }

inductive PermissionProfile where
  | managed (fileSystem : ManagedFileSystemPermissions)
  | disabled
  | external

def PermissionProfile.fileSystemSandboxPolicy : PermissionProfile → FileSystemSandboxPolicy
  | managed fileSystem => fileSystem.toSandboxPolicy
  | disabled => { kind := .unrestricted, entries := [] }
  | external => { kind := .externalSandbox, entries := [] }

end Codex.Permissions
