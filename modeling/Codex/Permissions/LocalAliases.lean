import Codex.Result
import Codex.Permissions.WritableRoots

/-! # Local matching on macOS: `protocol/src/permissions/local_aliases.rs` -/

namespace Codex.Permissions

open Codex.Text AbsolutePathBuf List PathUri

/-- What `pathconf` says of the case of names in a directory. -/
inductive CaseSensitivity where
  | insensitive
  | sensitive
  | notFound
  | failed
deriving DecidableEq

structure MacSystem extends LocalSystem where
  pathconf : AbsolutePathBuf → CaseSensitivity

/-! ## Other spellings -/

def isCaseInsensitiveFilesystem (system : MacSystem) (path : AbsolutePathBuf) : Except Unit Bool :=
  match (path.names.inits.reverse.map fun names => system.pathconf ⟨names⟩).find? (· ≠ .notFound) with
  | some .insensitive => .ok true
  | some .sensitive => .ok false
  | _ => .error ()

/-- Each name that is spelled differently is looked up in the directory that holds it. -/
def spellsRoot (system : MacSystem) : List Text → List Text → List Text → Except Unit Bool
  | parent, expected :: root, actual :: path =>
    if expected = actual then spellsRoot system (parent ++ [expected]) root path
    else if !expected.eqIgnoreAsciiCase actual then .ok false
    else do
      if ← isCaseInsensitiveFilesystem system ⟨parent⟩ then spellsRoot system (parent ++ [expected]) root path
      else return false
  | _, _, _ => .ok true

lemma spellsRoot_self (system : MacSystem) (parent root rest : List Text) :
    spellsRoot system parent root (root ++ rest) = .ok true := by
  induction root generalizing parent with
  | nil => cases rest <;> rfl
  | cons name root ih =>
    rw [cons_append, spellsRoot, if_pos rfl]
    exact ih _

def normalizeMetadataCaseAlias (system : MacSystem) (path root : AbsolutePathBuf) :
    Except Unit (Option AbsolutePathBuf) :=
  match path.names.drop root.names.length with
  | [] => .ok none
  | name :: relative =>
    match protectedMetadataPathNames.find? (name.eqIgnoreAsciiCase ·) with
    | none => .ok none
    | some metadataName => do
      if !(← spellsRoot system [] root.names path.names) then return none
      else if name ≠ metadataName then
        if ← isCaseInsensitiveFilesystem system root then
          return some ((root.join system.host metadataName).join system.host (intercalate ['/'] relative))
        else return none
      else return some ((root.join system.host metadataName).join system.host (intercalate ['/'] relative))

namespace FileSystemSandboxPolicy

variable (c : FileUrlCrates) (system : MacSystem)

/-! ## The matched policy -/

def keepsPath : FileSystemPath → Bool
  | .globPattern _ => true
  | .special .root => true
  | .special .minimal => true
  | .special (.unknown ..) => true
  | _ => false

def resolvedLiteral (e : PathUri × FileSystemAccessMode) : Except Unit FileSystemSandboxEntry :=
  match e.1.toAbsPath c system.host with
  | none => .error ()
  | some path => .ok { path := .path (.fromAbsPath c path), access := e.2 }

section

variable (policy : FileSystemSandboxPolicy) (context : FileSystemSandboxPolicyContext)

/-- `prepare_local_matching`: symbolic roots become literal ones. -/
def prepareLocalMatching :
    Except Unit FileSystemSandboxPolicy := do
  let literals ← ((policy.resolvedEntries c.toUrlCrates context).filter (!·.1.isOpaque c.toUrlCrates)).mapM
    (resolvedLiteral c system)
  return { policy with entries := policy.entries.filter (keepsPath ·.path) ++ literals }

def normalizeEntry (root : AbsolutePathBuf) (entry : FileSystemSandboxEntry) : Except Unit FileSystemSandboxEntry :=
  match entry.path with
  | .path uri =>
    match uri.toAbsPath c system.host with
    | none => .error ()
    | some path => do
      match ← normalizeMetadataCaseAlias system path root with
      | some normalized => return { entry with path := .path (.fromAbsPath c normalized) }
      | none => return entry
  | _ => .ok entry

def allowsAlias (path : AbsolutePathBuf) (e : PathUri × FileSystemAccessMode) : Except Unit Bool :=
  if !e.2.canWrite || e.1.isOpaque c.toUrlCrates then .ok true
  else match e.1.toAbsPath c system.host with
    | none => .error ()
    | some root => do
      match ← normalizeMetadataCaseAlias system path root with
      | none => return true
      | some candidate =>
        let entries ← policy.entries.mapM (normalizeEntry c system root)
        return ({ policy with entries }).canWritePath c.toUrlCrates (.fromAbsPath c candidate) context

def allowsAliases (policy : FileSystemSandboxPolicy) (context : FileSystemSandboxPolicyContext)
    (path : AbsolutePathBuf) : List (PathUri × FileSystemAccessMode) → Except Unit Bool
  | [] => .ok true
  | e :: entries => do
    if ← allowsAlias c system policy context path e then allowsAliases policy context path entries
    else return false

/-- `can_write_path` of the matcher. -/
def matcherCanWritePath (uri : PathUri) : Except Unit Bool :=
  match uri.toAbsPath c system.host with
  | none => .error ()
  | some path =>
    if policy.canWritePath c.toUrlCrates (.fromAbsPath c path) context &&
        !policy.hasFullDiskWriteAccessWithContext c.toUrlCrates context then
      match (fromAbsPath c path).toAbsPath c system.host with
      | none => .error ()
      | some nativePath =>
        allowsAliases c system policy context nativePath (policy.resolvedEntries c.toUrlCrates context)
    else .ok (policy.canWritePath c.toUrlCrates (.fromAbsPath c path) context)

end

def canWriteLocalPathWithCwd (policy : FileSystemSandboxPolicy) (cwd path : AbsolutePathBuf) : Bool :=
  let context := localPolicyContext c system.toLocalSystem cwd
  match policy.prepareLocalMatching c system context with
  | .error _ => false
  | .ok matching =>
    match matching.matcherCanWritePath c system context (.fromAbsPath c path) with
    | .error _ => false
    | .ok writable => writable

/-- `get_writable_roots_with_cwd_preserving_mutable_paths`. -/
def getWritableRootsWithCwdPreservingMutablePaths (policy : FileSystemSandboxPolicy) (cwd : AbsolutePathBuf) :
    List WritableRoot :=
  if policy.hasFullDiskWriteAccess c then []
  else writableRoots system.toLocalSystem (policy.canWriteLocalPathWithCwd c system cwd)
    (policy.resolvedEntriesWithCwd c system.toLocalSystem cwd) cwd .separate

/-! ## What the matcher grants -/

section Spec

variable {c : FileUrlCrates} {system : MacSystem} {policy matching : FileSystemSandboxPolicy}
  {cwd path : AbsolutePathBuf}

variable {context : FileSystemSandboxPolicyContext}

lemma mem_paths_of_keepsPath {c : UrlCrates} {path : FileSystemPath} (h : keepsPath path)
    (hin : uri ∈ path.paths c context) : uri ∈ fileSystemRoot c context := by
  cases path with
  | path => simp [keepsPath] at h
  | globPattern => simp [FileSystemPath.paths] at hin
  | special value => cases value <;> simp_all [keepsPath, FileSystemPath.paths]

section Prepared

variable (hc : c.Lawful) (hcwd : cwd.Normal) (huri : cwd.hasUri = true)
  (h : policy.prepareLocalMatching c system (localPolicyContext c system.toLocalSystem cwd) = .ok matching)

include hc hcwd huri h

lemma prepared_roots :
    ∀ e ∈ matching.resolvedEntries c.toUrlCrates (localPolicyContext c system.toLocalSystem cwd),
      (∃ url, e.1 = ⟨url⟩ ∧ PathUri.Clean c url) ∨
        e.1.isOpaque c.toUrlCrates ∧ e.1.inferPathConvention c.toUrlCrates = some .posix := by
  obtain ⟨url, hu, hcl, -, -⟩ := fromAbsPath_clean hc hcwd huri
  have hpo : (localPolicyContext c system.toLocalSystem cwd).cwd.inferPathConvention c.toUrlCrates =
      some .posix := by
    show (fromAbsPath c cwd).inferPathConvention c.toUrlCrates = _
    rw [hu]
    exact (localNames_eq_some_iff.mp (hcl.localNames hc)).1
  unfold prepareLocalMatching at h
  obtain ⟨literals, hl, heq⟩ := Result.bind_eq_ok.mp h
  cases heq
  rintro ⟨uri, access⟩ he
  obtain ⟨entry, hen, hro⟩ := mem_flatMap.mp he
  obtain ⟨uri', hin, heq⟩ := mem_map.mp hro
  obtain ⟨rfl, rfl⟩ := Prod.mk.inj heq
  obtain ⟨hp, hco⟩ := mem_filter.mp hin
  rw [decide_eq_true_iff, hpo] at hco
  rcases mem_append.mp hen with hk | hli
  · obtain ⟨root, hla, hrc, -⟩ := hcl.last_ancestor hc
    refine .inl ⟨root, ?_, hrc⟩
    have hf := mem_paths_of_keepsPath (mem_filter.mp hk).2 hp
    unfold fileSystemRoot at hf
    obtain ⟨depth, -, ha⟩ := Option.bind_eq_some_iff.mp hf
    have ha' : ((fromAbsPath c cwd).ancestors c.toUrlCrates).getLast? = some uri' := ha
    rw [hu, hla] at ha'
    exact (Option.some.inj ha').symm
  obtain ⟨e, -, hr⟩ := (Result.mem_of_mapM_ok hl entry).mp hli
  unfold resolvedLiteral at hr
  split at hr
  · simp at hr
  rename_i literal hab
  cases hr
  obtain rfl := mem_singleton.mp hp
  have hn := toAbsPath_normal hab
  cases hh : literal.hasUri with
  | true =>
    obtain ⟨url', hu', hcl', -, -⟩ := fromAbsPath_clean hc hn hh
    exact .inl ⟨url', hu', hcl'⟩
  | false => exact .inr ⟨isOpaque_fromAbsPath hc hn hh, hco⟩

lemma prepared_local (hk : policy.kind = .restricted) :
    LocalPolicy c.toUrlCrates matching (localPolicyContext c system.toLocalSystem cwd) where
  kind_eq := by
    unfold prepareLocalMatching at h
    obtain ⟨_, -, heq⟩ := Result.bind_eq_ok.mp h
    rw [← Except.ok.inj heq]
    exact hk
  cwd := by
    show ((fromAbsPath c cwd).localNames c.toUrlCrates).isSome
    rw [localNames_fromAbsPath hc hcwd, if_pos huri]
    rfl
  roots := LocalRoots.of_clean hc (prepared_roots hc hcwd huri h)

end Prepared

def AliasesAllowed (c : FileUrlCrates) (system : MacSystem) (matching : FileSystemSandboxPolicy)
    (context : FileSystemSandboxPolicyContext) (path : AbsolutePathBuf) : Prop :=
  matching.hasFullDiskWriteAccessWithContext c.toUrlCrates context = false →
    allowsAliases c system matching context path (matching.resolvedEntries c.toUrlCrates context) = .ok true

lemma canWriteLocalPath_cases (hc : c.Lawful) (hk : policy.kind = .restricted) (hcwd : cwd.Normal)
    (hp : path.Normal) (h : policy.canWriteLocalPathWithCwd c system cwd path) :
    cwd.hasUri ∧ path.hasUri ∧ ∃ matching,
      policy.prepareLocalMatching c system (localPolicyContext c system.toLocalSystem cwd) = .ok matching ∧
      matching.canWritePath c.toUrlCrates (.fromAbsPath c path) (localPolicyContext c system.toLocalSystem cwd) =
        true ∧ AliasesAllowed c system matching (localPolicyContext c system.toLocalSystem cwd) path := by
  unfold canWriteLocalPathWithCwd at h
  simp only at h
  split at h
  · simp at h
  rename_i matching hm
  split at h
  · simp at h
  rename_i hw
  subst h
  unfold matcherCanWritePath at hw
  split at hw
  · simp at hw
  rename_i back hb
  -- The matcher is asked about the path that the URI stands for.
  have hca : matching.canWritePath c.toUrlCrates (.fromAbsPath c back)
      (localPolicyContext c system.toLocalSystem cwd) := by
    split at hw
    · rename_i hbo
      exact (Bool.and_eq_true _ _ |>.mp hbo).1
    · exact Except.ok.inj hw
  have hcu : cwd.hasUri := by
    by_contra hno
    have hn : (fromAbsPath c cwd).lexicalDepth c.toUrlCrates = none := by
      unfold PathUri.lexicalDepth
      rw [isOpaque_fromAbsPath hc hcwd (by simpa using hno)]
      rfl
    have hmk : matching.kind = .restricted := by
      unfold prepareLocalMatching at hm
      obtain ⟨literals, -, heq⟩ := Result.bind_eq_ok.mp hm
      rw [← Except.ok.inj heq]
      exact hk
    have hde : matching.resolveAccess c.toUrlCrates (.fromAbsPath c back)
        (localPolicyContext c system.toLocalSystem cwd) = .deny := by
      rw [resolveAccess_restricted hmk, if_neg]
      rintro ⟨-, -, hd⟩
      rw [show (localPolicyContext c system.toLocalSystem cwd).cwd.lexicalDepth c.toUrlCrates = none from hn] at hd
      simp at hd
    unfold canWritePath at hca
    rw [hde] at hca
    simp [FileSystemAccessMode.canWrite] at hca
  have hl := prepared_local hc hcwd hcu hm hk
  have huri : path.hasUri := by
    by_contra hno
    have hob := fromAbsPath_toAbsPath_of_opaque_uri (isOpaque_fromAbsPath hc hp (by simpa using hno)) hb
    rw [canWritePath_of_not_local hl (localNames_of_isOpaque hob)] at hca
    simp at hca
  obtain rfl := Option.some.inj ((toAbsPath_fromAbsPath hc system.host hp huri).symm.trans hb)
  refine ⟨hcu, huri, matching, hm, hca, fun hdi => ?_⟩
  rw [if_pos (by rw [hca, hdi]; rfl), hb] at hw
  exact hw

lemma canWriteLocalPath_eq (hc : c.Lawful) (hp : path.Normal) (huri : path.hasUri)
    (hm : policy.prepareLocalMatching c system (localPolicyContext c system.toLocalSystem cwd) = .ok matching)
    (hca : matching.canWritePath c.toUrlCrates (.fromAbsPath c path) (localPolicyContext c system.toLocalSystem cwd))
    (ha : AliasesAllowed c system matching (localPolicyContext c system.toLocalSystem cwd) path) :
    policy.canWriteLocalPathWithCwd c system cwd path := by
  have hb := toAbsPath_fromAbsPath hc system.host hp huri
  have hma : matching.matcherCanWritePath c system (localPolicyContext c system.toLocalSystem cwd)
      (.fromAbsPath c path) = .ok true := by
    unfold matcherCanWritePath
    rw [hb]
    simp only [hca]
    cases hd : matching.hasFullDiskWriteAccessWithContext c.toUrlCrates
        (localPolicyContext c system.toLocalSystem cwd) with
    | true => rfl
    | false =>
      simp only [hb]
      exact ha hd
  unfold canWriteLocalPathWithCwd
  simp only [hm, hma]

lemma allowsAliases_eq_ok {entries : List (PathUri × FileSystemAccessMode)} :
    allowsAliases c system matching context path entries = .ok true ↔
      ∀ e ∈ entries, allowsAlias c system matching context path e = .ok true := by
  induction entries with
  | nil => simp [allowsAliases]
  | cons e entries ih => ?_
  unfold allowsAliases
  rw [Result.bind_eq_ok]
  constructor
  · rintro ⟨allowed, ha, hr⟩
    cases allowed with
    | false => simp at hr
    | true => simpa [ha] using ih.mp hr
  · intro hal
    exact ⟨true, hal e (by simp), ih.mpr fun other ho => hal other (by simp [ho])⟩

end Spec

end FileSystemSandboxPolicy

end Codex.Permissions
