import Codex.Permissions.Materialize

/-! # Approved commands: `for_approved_command` of `protocol/src/permissions/target.rs` -/

namespace Codex.Permissions

open Codex.Text List Option

/-! ## Equal entries -/

def FileSystemPath.eq (c : UrlCrates) : FileSystemPath → FileSystemPath → Bool
  | .path left, .path right => left.eq c right
  | left, right => left = right

def FileSystemSandboxEntry.eq (c : UrlCrates) (left right : FileSystemSandboxEntry) : Bool :=
  left.path.eq c right.path && left.access = right.access && left.missingPathBehavior = right.missingPathBehavior

lemma FileSystemSandboxEntry.eq_cases {kept entry : FileSystemSandboxEntry} (h : kept.eq c entry) :
    kept.access = entry.access ∧ kept.missingPathBehavior = entry.missingPathBehavior ∧
      (kept.path = entry.path ∨
        ∃ uri other, kept.path = .path uri ∧ entry.path = .path other ∧ uri.eq c other) := by
  unfold FileSystemSandboxEntry.eq at h
  simp only [Bool.and_eq_true, decide_eq_true_eq] at h
  refine ⟨h.1.2, h.2, ?_⟩
  have hp := h.1.1
  unfold FileSystemPath.eq at hp
  split at hp
  · rename_i uri other hu ho
    exact .inr ⟨uri, other, hu, ho, hp⟩
  · exact .inl (of_decide_eq_true hp)

def invalidPath : Text := "managed filesystem denial cannot be materialized safely"

namespace FileSystemSandboxPolicy

def rootWrite : FileSystemSandboxEntry := { path := .special .root, access := .write }

section

variable (c : UrlCrates)

def pushIfAbsent (entries : List FileSystemSandboxEntry) (denyEntry : FileSystemSandboxEntry) :
    List FileSystemSandboxEntry :=
  if entries.any fun entry => entry.eq c denyEntry then entries else entries ++ [denyEntry]

def preserveDenyReadRestrictionsFrom (policy existing : FileSystemSandboxPolicy) : FileSystemSandboxPolicy :=
  let hasDenyReadEntries := existing.entries.any (·.access = .deny)
  let policy := if policy.kind = .unrestricted && hasDenyReadEntries then restricted [rootWrite] else policy
  if policy.kind ≠ .restricted then policy
  else { policy with
    globScanMaxDepth := policy.globScanMaxDepth.or existing.globScanMaxDepth
    entries := (existing.entries.filter (·.access = .deny)).foldl (pushIfAbsent c) policy.entries }

/-! ## Contexts that can be trusted -/

section

variable (policy : FileSystemSandboxPolicy) (context : FileSystemSandboxPolicyContext)

def hasContextReadDenials : Bool :=
  policy.kind = .restricted && policy.entries.any fun entry =>
    entry.access = .deny && !(entry.path = .special .slashTmp && context.cwd.inferPathConvention c ≠ some .posix)

def isValidContextPath (convention : PathConvention) (path : PathUri) : Bool :=
  path.inferPathConvention c = some convention && (path.lexicalDepth c).isSome

def validateEntryPath (context : FileSystemSandboxPolicyContext) (convention : PathConvention)
    (entry : FileSystemSandboxEntry) : Except Text Unit :=
  match entry.path with
  | .path uri => if isValidContextPath c convention uri then .ok () else .error invalidPath
  | .special .tmpdir => match context.temporaryDirectories with
    | none =>
      .error "executor temporary-directory metadata is unavailable for managed filesystem denials".toList
    | some directories =>
      if directories.any (!isValidContextPath c convention ·) then
        .error "executor temporary-directory metadata cannot be materialized safely".toList
      else .ok ()
  | .special (.projectRoots (some subpath)) =>
    if context.workspaceRoots.any fun root => (root.join c subpath).toOption.isNone then .error invalidPath
    else .ok ()
  | .globPattern pattern =>
    if (homeRelativePattern convention pattern).isSome && !context.userHomeDir.any (isValidContextPath c convention)
    then .error invalidPath
    else .ok ()
  | _ => .ok ()

def validateContextPaths : Except Text Unit :=
  match context.cwd.inferPathConvention c with
  | none => .error invalidPath
  | some convention =>
    if !isValidContextPath c convention context.cwd ||
        context.workspaceRoots.any (!isValidContextPath c convention ·) then .error invalidPath
    else policy.entries.forM (validateEntryPath c context convention)

end

end

end FileSystemSandboxPolicy

def ReadDenyMatcher.tryNewWithContext (c : UrlCrates) (g : Globset) (policy : FileSystemSandboxPolicy)
    (context : FileSystemSandboxPolicyContext) : Except DenyReadError (Option ReadDenyMatcher) :=
  if !policy.hasContextReadDenials c context then .ok none
  else do
    (policy.validateContextPaths c context).mapError DenyReadError.contextPath
    let prepared ← policy.prepareDenyReadMatcher c g context .returnError
    return some ⟨prepared⟩

namespace FileSystemSandboxPolicy

/-! ## Approved commands -/

section

variable (c : UrlCrates) (context : FileSystemSandboxPolicyContext) (matcher : Option ReadDenyMatcher)

def isDenied (path : PathUri) : Bool :=
  matcher.any fun matcher => matcher.isReadDeniedUri c path context

def metadataGrant (root : PathUri) (name : Text) : Option (List FileSystemSandboxEntry) :=
  match root.joinDescendant c name with
  | .error _ => none
  | .ok path => some (if isDenied c context matcher path then [] else [{ path := .path path, access := .write }])

end

/-- The denials made concrete and the grants for metadata, or nothing where a denial cannot be resolved or
denies the root. -/
def withRootGrants (c : UrlCrates) (g : Globset) (approved : FileSystemSandboxPolicy)
    (context : FileSystemSandboxPolicyContext) : Option FileSystemSandboxPolicy := do
  let approved ← approved.tryMaterializeProjectRootsWithPathUris c context.workspaceRoots
  let root ← fileSystemRoot c context
  let matcher ← (ReadDenyMatcher.tryNewWithContext c g approved context).toOption
  if !(approved.resolveAccess c root context).canWrite || isDenied c context matcher root then none
  else
    let grants ← protectedMetadataPathNames.mapM (metadataGrant c context matcher root)
    return { approved with entries := approved.entries ++ grants.flatten }

def forApprovedCommand (c : UrlCrates) (g : Globset) (policy : FileSystemSandboxPolicy)
    (context : FileSystemSandboxPolicyContext) : FileSystemSandboxPolicy :=
  if policy.kind ≠ .restricted then policy
  else
    let approved := (restricted [rootWrite]).preserveDenyReadRestrictionsFrom c policy
    if context.workspaceRoots.isEmpty && approved.entries.any (·.path.workspaceScope.isSome) then policy
    else (approved.withRootGrants c g context).getD policy

/-! ## Retained denials -/

variable {c : UrlCrates} {g : Globset} {policy approved : FileSystemSandboxPolicy}
  {context : FileSystemSandboxPolicyContext} {path root : PathUri} {entry : FileSystemSandboxEntry}
  {matcher : Option ReadDenyMatcher} {grants : List (List FileSystemSandboxEntry)}

def retained (c : UrlCrates) (policy : FileSystemSandboxPolicy) : FileSystemSandboxPolicy :=
  (restricted [rootWrite]).preserveDenyReadRestrictionsFrom c policy

lemma entry_eq_refl (entry : FileSystemSandboxEntry) : entry.eq c entry := by
  have hp : entry.path.eq c entry.path := by
    unfold FileSystemPath.eq
    split
    · rename_i left right hl hr
      obtain rfl : left = right := FileSystemPath.path.inj (hl.symm.trans hr)
      exact PathUri.eq_refl left
    · exact decide_eq_true rfl
  unfold FileSystemSandboxEntry.eq
  rw [hp, decide_eq_true rfl, decide_eq_true rfl]
  rfl

variable {pattern : Text} {entries : List FileSystemSandboxEntry} {convention : PathConvention}

variable {kept : FileSystemSandboxEntry} {denials : List FileSystemSandboxEntry}
  {materialized : FileSystemSandboxPolicy}

lemma mem_pushIfAbsent (h : kept ∈ pushIfAbsent c entries denyEntry) :
    kept ∈ entries ∨ kept = denyEntry := by
  unfold pushIfAbsent at h
  split at h
  · exact .inl h
  · simpa using h

section

variable (entries : List FileSystemSandboxEntry) (denyEntry : FileSystemSandboxEntry)

lemma pushIfAbsent_subset :
    entries ⊆ pushIfAbsent c entries denyEntry := by
  unfold pushIfAbsent
  split
  · exact List.Subset.refl _
  · exact subset_append_left _ _

lemma pushIfAbsent_contains :
    ∃ kept ∈ pushIfAbsent c entries denyEntry, kept.eq c denyEntry := by
  unfold pushIfAbsent
  split
  · rename_i ha
    exact any_eq_true.mp ha
  · exact ⟨denyEntry, by simp, entry_eq_refl denyEntry⟩

end

lemma foldl_pushIfAbsent_subset (denials entries : List FileSystemSandboxEntry) :
    entries ⊆ denials.foldl (pushIfAbsent c) entries := by
  induction denials generalizing entries with
  | nil => exact List.Subset.refl _
  | cons denial denials ih => exact fun _ h => ih _ (pushIfAbsent_subset entries denial h)

lemma mem_foldl_pushIfAbsent (h : kept ∈ denials.foldl (pushIfAbsent c) entries) :
    kept ∈ entries ∨ kept ∈ denials := by
  induction denials generalizing entries with
  | nil => exact .inl h
  | cons denial denials ih => ?_
  rcases ih h with hp | hin
  · rcases mem_pushIfAbsent hp with ho | rfl
    · exact .inl ho
    · exact .inr (by simp)
  · exact .inr (by simp [hin])

lemma foldl_pushIfAbsent_contains (h : denial ∈ denials) :
    ∃ kept ∈ denials.foldl (pushIfAbsent c) entries, kept.eq c denial := by
  induction denials generalizing entries with
  | nil => cases h
  | cons first denials ih => ?_
  rcases mem_cons.mp h with rfl | hin
  · obtain ⟨kept, hk, heq⟩ := pushIfAbsent_contains (c := c) entries denial
    exact ⟨kept, foldl_pushIfAbsent_subset denials _ hk, heq⟩
  · exact ih hin

lemma retained_kind (c : UrlCrates) (policy : FileSystemSandboxPolicy) : (retained c policy).kind = .restricted :=
  rfl

lemma mem_retained (h : entry ∈ (retained c policy).entries) :
    entry = rootWrite ∨ entry ∈ policy.entries ∧ entry.access = .deny := by
  rcases mem_foldl_pushIfAbsent h with hr | hden
  · exact .inl (mem_singleton.mp hr)
  · obtain ⟨hin, ha⟩ := mem_filter.mp hden
    exact .inr ⟨hin, of_decide_eq_true ha⟩

lemma rootWrite_mem_retained : rootWrite ∈ (retained c policy).entries := by
  exact foldl_pushIfAbsent_subset _ _ (mem_singleton_self _)

lemma retained_contains (he : entry ∈ policy.entries) (hden : entry.access = .deny) :
    ∃ kept ∈ (retained c policy).entries, kept.eq c entry := by
  exact foldl_pushIfAbsent_contains (mem_filter.mpr ⟨he, by simp [hden]⟩)

lemma mem_retained_of_deny (he : entry ∈ policy.entries) (hden : entry.access = .deny)
    (hp : ∀ uri, entry.path ≠ .path uri) : entry ∈ (retained c policy).entries := by
  obtain ⟨kept, hk, heq⟩ := retained_contains (c := c) he hden
  obtain ⟨_, _, hs⟩ := FileSystemSandboxEntry.eq_cases heq
  rcases hs with hs | ⟨uri, other, -, ho, -⟩
  · obtain rfl : kept = entry := by
      cases kept
      cases entry
      simp_all
    exact hk
  · exact absurd ho (hp other)

/-! ## When a command is approved -/

abbrev withGrants (approved : FileSystemSandboxPolicy) (grants : List (List FileSystemSandboxEntry)) :
    FileSystemSandboxPolicy :=
  { approved with entries := approved.entries ++ grants.flatten }

/-- What `for_approved_command` checks before it widens a policy. -/
structure Approves (c : UrlCrates) (g : Globset) (policy : FileSystemSandboxPolicy)
    (context : FileSystemSandboxPolicyContext) (approved : FileSystemSandboxPolicy) (root : PathUri)
    (matcher : Option ReadDenyMatcher) (grants : List (List FileSystemSandboxEntry)) : Prop where
  known : (context.workspaceRoots.isEmpty && (retained c policy).entries.any (·.path.workspaceScope.isSome)) = false
  materialized : (retained c policy).tryMaterializeProjectRootsWithPathUris c context.workspaceRoots = some approved
  root_eq : fileSystemRoot c context = some root
  matcher_eq : ReadDenyMatcher.tryNewWithContext c g approved context = .ok matcher
  writable : (approved.resolveAccess c root context).canWrite = true
  readable : isDenied c context matcher root = false
  metadata : protectedMetadataPathNames.mapM (metadataGrant c context matcher root) = some grants

lemma withRootGrants_eq_some (h : (retained c policy).withRootGrants c g context = some returned)
    (hk : (context.workspaceRoots.isEmpty && (retained c policy).entries.any (·.path.workspaceScope.isSome)) = false) :
    ∃ approved root matcher grants, Approves c g policy context approved root matcher grants ∧
      returned = approved.withGrants grants := by
  unfold withRootGrants at h
  obtain ⟨approved, ha, h⟩ := bind_eq_some_iff.mp h
  obtain ⟨root, hro, h⟩ := bind_eq_some_iff.mp h
  obtain ⟨matcher, hm, h⟩ := bind_eq_some_iff.mp h
  split at h
  · simp at h
  rename_i ho
  obtain ⟨grants, hg, hr⟩ := bind_eq_some_iff.mp h
  simp only [Bool.or_eq_true, Bool.not_eq_true', not_or, Bool.not_eq_false, Bool.not_eq_true] at ho
  refine ⟨approved, root, matcher, grants, ⟨hk, ha, hro, ?_, ho.1, ho.2, hg⟩, (some.inj hr).symm⟩
  rcases ht : ReadDenyMatcher.tryNewWithContext c g approved context with e | made
  · simp [ht, Except.toOption] at hm
  rw [ht] at hm
  rw [some.inj hm]

lemma Approves.withRootGrants_eq (h : Approves c g policy context approved root matcher grants) :
    (retained c policy).withRootGrants c g context =
      some (approved.withGrants grants) := by
  unfold withRootGrants
  simp only [h.materialized, h.root_eq, h.matcher_eq, h.writable, h.readable, h.metadata, Except.toOption,
    bind_eq_bind, bind_some]
  rfl

lemma forApprovedCommand_cases (hki : policy.kind = .restricted) :
    (∃ approved root matcher grants, Approves c g policy context approved root matcher grants ∧
        policy.forApprovedCommand c g context = approved.withGrants grants) ∨
      (¬ ∃ approved root matcher grants, Approves c g policy context approved root matcher grants) ∧
        policy.forApprovedCommand c g context = policy := by
  unfold forApprovedCommand
  rw [if_neg (by simp [hki])]
  simp only [show (restricted [rootWrite]).preserveDenyReadRestrictionsFrom c policy = retained c policy from rfl]
  split
  · rename_i hunknown
    refine .inr ⟨?_, rfl⟩
    rintro ⟨approved, root, matcher, grants, ha⟩
    exact absurd (hunknown.symm.trans ha.known) (by simp)
  rename_i hk
  rcases h : (retained c policy).withRootGrants c g context with _ | returned
  · refine .inr ⟨?_, rfl⟩
    rintro ⟨approved, root, matcher, grants, ha⟩
    exact absurd (h.symm.trans ha.withRootGrants_eq) (by simp)
  obtain ⟨approved, root, matcher, grants, ha, rfl⟩ :=
    withRootGrants_eq_some h (Bool.eq_false_iff.mpr hk)
  exact .inl ⟨approved, root, matcher, grants, ha, rfl⟩

/-! ## What denials cover -/

def concreteGlobs (c : UrlCrates) (context : FileSystemSandboxPolicyContext) (entry : FileSystemSandboxEntry) :
    List Text :=
  match entry.path.workspaceScope, entry.path with
  | some scope, _ =>
    if scope.isGlob then context.workspaceRoots.filterMap fun root =>
      (materializedPath c scope root).map (·.inferredNativePathString c)
    else []
  | none, .globPattern pattern => [pattern]
  | none, _ => []

/-- A denial, but not one of the whole file system, whose root holds the path or whose pattern matches it. -/
def Covers (c : UrlCrates) (g : Globset) (context : FileSystemSandboxPolicyContext) (path : PathUri)
    (entry : FileSystemSandboxEntry) : Prop :=
  entry.access = .deny ∧
    ((∃ root, (root, .deny) ∈ entry.roots c context ∧ isFileSystemRoot c context root = false ∧
        path.startsWith c root = true) ∨
      ∃ pattern ∈ concreteGlobs c context entry, PatternDenies c g context path pattern)

lemma mem_concreteGlobs (h : pattern ∈ concreteGlobs c context entry) :
    entry.path.workspaceScope = none ∧ entry.path = .globPattern pattern ∨
      ∃ scope, entry.path.workspaceScope = some scope ∧ scope.isGlob ∧ ∃ root ∈ context.workspaceRoots,
        ∃ resolved, materializedPath c scope root = some resolved ∧ resolved.inferredNativePathString c = pattern := by
  unfold concreteGlobs at h
  split at h
  · rename_i scope hs
    split at h
    · rename_i hg
      obtain ⟨root, hr, ht⟩ := mem_filterMap.mp h
      exact .inr ⟨scope, hs, hg, root, hr, map_eq_some_iff.mp ht⟩
    · cases h
  · rename_i hs hp
    obtain rfl := mem_singleton.mp h
    exact .inl ⟨hs, hp⟩
  · cases h

lemma pattern_materialized
    (h : policy.tryMaterializeProjectRootsWithPathUris c context.workspaceRoots = some materialized)
    (pattern : Text) :
    (∃ made ∈ materialized.entries, denyPattern made = some pattern) ↔
      ∃ entry ∈ policy.entries, entry.access = .deny ∧ pattern ∈ concreteGlobs c context entry := by
  constructor
  · rintro ⟨made, hma, hpa⟩
    obtain ⟨hden, hp⟩ := denyPattern_eq_some.mp hpa
    obtain ⟨entry, he, es, hes, hme⟩ := (mem_materialized h made).mp hma
    unfold materializeEntry at hes
    split at hes
    · rename_i hs
      cases hes
      obtain rfl := mem_singleton.mp hme
      refine ⟨made, he, hden, ?_⟩
      unfold concreteGlobs
      rw [hs, hp]
      exact mem_singleton_self _
    rename_i hs
    split at hes
    · simp at hes
    cases hes
    obtain ⟨root, hro, hm⟩ := mem_filterMap.mp hme
    unfold materializedEntry at hm
    split at hm
    · rename_i hr
      cases hm
      refine ⟨entry, he, hden, ?_⟩
      split at hp
      · rename_i hg
        unfold concreteGlobs
        rw [hs]
        simp only [if_pos hg]
        exact mem_filterMap.mpr ⟨root, hro, by rw [hr, ← FileSystemPath.globPattern.inj hp]; rfl⟩
      · simp at hp
    split at hm
    · simp at hm
    · cases hm
      simp at hp
  rintro ⟨entry, he, hden, hpa⟩
  rcases mem_concreteGlobs hpa with ⟨hs, hp⟩ | ⟨scope, hs, hg, root, hro, resolved, hr, rfl⟩
  · refine ⟨entry, (mem_materialized h entry).mpr ⟨entry, he, [entry], ?_, by simp⟩,
      denyPattern_eq_some.mpr ⟨hden, hp⟩⟩
    unfold materializeEntry
    rw [hs]
  refine ⟨{ entry with path := .globPattern (resolved.inferredNativePathString c) },
    materializeEntry_of_some h he hs hro ?_, denyPattern_eq_some.mpr ⟨hden, rfl⟩⟩
  unfold materializedEntry
  rw [hr]
  simp only [if_pos hg]

lemma readDenied_materialized_iff
    (h : policy.tryMaterializeProjectRootsWithPathUris c context.workspaceRoots = some materialized)
    (hres : ∀ entry ∈ policy.entries, Resolves c context.workspaceRoots entry)
    (hc : Comparable c context path) :
    ReadDenied c g materialized context path ↔ ∃ entry ∈ policy.entries, Covers c g context path entry := by
  constructor
  · intro hd
    rcases hd hc with ⟨root, hro, hh⟩ | ⟨made, hma, pattern, hp, hm⟩
    · obtain ⟨hin, hn⟩ := mem_deniedRoots.mp hro
      obtain ⟨entry, he, hr⟩ := mem_resolvedEntries.mp ((resolvedEntries_materialized hres h _).mp hin)
      exact ⟨entry, he, (mem_roots.mp hr).1.symm, .inl ⟨root, hr, hn, hh⟩⟩
    · obtain ⟨entry, he, hden, hg⟩ := (pattern_materialized h pattern).mp ⟨made, hma, hp⟩
      exact ⟨entry, he, hden, .inr ⟨pattern, hg, hm⟩⟩
  rintro ⟨entry, he, hden, ⟨root, hr, hn, hh⟩ | ⟨pattern, hg, hm⟩⟩ _
  · refine .inl ⟨root, mem_deniedRoots.mpr ⟨?_, hn⟩, hh⟩
    exact (resolvedEntries_materialized hres h _).mpr (mem_resolvedEntries.mpr ⟨entry, he, hr⟩)
  · obtain ⟨made, hma, hp⟩ := (pattern_materialized h pattern).mpr ⟨entry, he, hden, hg⟩
    exact .inr ⟨made, hma, pattern, hp, hm⟩

lemma hasContextReadDenials_of_root (hk : policy.kind = .restricted)
    (hr : (root, .deny) ∈ policy.resolvedEntries c context) :
    policy.hasContextReadDenials c context := by
  obtain ⟨entry, he, hin⟩ := mem_resolvedEntries.mp hr
  obtain ⟨hden, hp, -⟩ := mem_roots.mp hin
  unfold hasContextReadDenials
  simp only [hk, decide_true, Bool.true_and, List.any_eq_true, Bool.and_eq_true, decide_eq_true_eq]
  refine ⟨entry, he, hden.symm, ?_⟩
  by_contra hn
  simp only [Bool.not_eq_true', Bool.not_eq_false, Bool.and_eq_true, decide_eq_true_eq] at hn
  unfold FileSystemPath.paths at hp
  rw [hn.1] at hp
  simp only [if_neg hn.2, not_mem_nil] at hp

lemma hasContextReadDenials_of_pattern (hk : policy.kind = .restricted) (he : entry ∈ policy.entries)
    (hp : denyPattern entry = some pattern) : policy.hasContextReadDenials c context := by
  obtain ⟨hden, hpa⟩ := denyPattern_eq_some.mp hp
  unfold hasContextReadDenials
  simp only [hk, decide_true, Bool.true_and, List.any_eq_true, Bool.and_eq_true, decide_eq_true_eq]
  exact ⟨entry, he, hden, by simp [hpa]⟩

/-! ## The approved policy -/

/-- Every denial resolves in the workspace roots. -/
def DenialsResolve (c : UrlCrates) (policy : FileSystemSandboxPolicy) (context : FileSystemSandboxPolicyContext) :
    Prop :=
  ∀ entry ∈ policy.entries, entry.access = .deny → Resolves c context.workspaceRoots entry

section

variable (c : UrlCrates) (g : Globset) (policy : FileSystemSandboxPolicy)
  (context : FileSystemSandboxPolicyContext) (path : PathUri)

def Uncovered : Prop :=
  ∀ kept ∈ (retained c policy).entries, ¬ Covers c g context path kept

def Opened : Prop :=
  ∃ root, fileSystemRoot c context = some root ∧ (path.startsWith c root = true ∨
    ∃ name ∈ protectedMetadataPathNames, ∃ dir, root.joinDescendant c name = .ok dir ∧
      Uncovered c g policy context dir ∧ path.startsWith c dir = true)

end

lemma DenialsResolve.retained (h : DenialsResolve c policy context) :
    ∀ entry ∈ (retained c policy).entries, Resolves c context.workspaceRoots entry := by
  intro entry he scope hs
  rcases mem_retained he with rfl | ⟨hin, hden⟩
  · simp [rootWrite, FileSystemPath.workspaceScope] at hs
  · exact h entry hin hden scope hs

lemma joinDescendant_startsWith (h : root.joinDescendant c name = .ok dir) :
    dir.startsWith c root := by
  unfold PathUri.joinDescendant at h
  obtain ⟨descendant, -, h⟩ := Result.bind_eq_ok.mp h
  simp only at h
  split at h
  · simp at h
  rename_i hi
  cases h
  simp only [not_or, Bool.not_eq_true', Bool.not_eq_false] at hi
  exact hi.2.2

namespace Approves

variable (h : Approves c g policy context approved root matcher grants)

include h

lemma kind_eq : approved.kind = .restricted :=
  (kind_materialized h.materialized).trans (retained_kind c policy)

lemma root_grants : Grants c approved context root .write :=
  (resolveAccess_eq_iff (by decide)).mp (FileSystemAccessMode.canWrite_iff.mp h.writable)

lemma comparable : Comparable c context root := by
  have hg := h.root_grants
  unfold Grants at hg
  rw [if_pos h.kind_eq] at hg
  exact hg.1

lemma comparable_dir (hdi : dir.startsWith c root) : Comparable c context dir := by
  obtain ⟨hc, hd, hcw⟩ := h.comparable
  exact ⟨(PathUri.inferPathConvention_of_startsWith hdi).trans hc, (PathUri.lexicalDepth_of_startsWith hdi).mpr hd, hcw⟩

section Resolving

variable (hres : DenialsResolve c policy context)

include hres

lemma not_uncovered_iff (hc : Comparable c context path) :
    ¬ Uncovered c g policy context path ↔ ReadDenied c g approved context path := by
  rw [readDenied_materialized_iff h.materialized hres.retained hc]
  unfold Uncovered
  push Not
  rfl

lemma isDenied_iff (hc : Comparable c context path) :
    isDenied c context matcher path ↔ ¬ Uncovered c g policy context path := by
  rw [h.not_uncovered_iff hres hc]
  have hm := h.matcher_eq
  unfold ReadDenyMatcher.tryNewWithContext at hm
  split at hm
  · -- Without denials there is nothing to match.
    rename_i hn
    cases hm
    refine iff_of_false (by simp [isDenied]) fun hd => ?_
    rcases hd hc with ⟨denied, hr, -⟩ | ⟨entry, he, pattern, hpa, -⟩
    · rw [hasContextReadDenials_of_root h.kind_eq (mem_deniedRoots.mp hr).1] at hn
      simp at hn
    · rw [hasContextReadDenials_of_pattern h.kind_eq he hpa] at hn
      simp at hn
  obtain ⟨_, -, hm⟩ := Result.bind_eq_ok.mp hm
  obtain ⟨prepared, hp, hm⟩ := Result.bind_eq_ok.mp hm
  cases hm
  exact matchesPreparedReadDeny_iff hp

lemma mem_grants (made : FileSystemSandboxEntry) :
    made ∈ grants.flatten ↔ ∃ name ∈ protectedMetadataPathNames, ∃ dir, root.joinDescendant c name = .ok dir ∧
      Uncovered c g policy context dir ∧ made = { path := .path dir, access := .write } := by
  rw [mem_flatten_of_forall₂ (forall₂_of_mapM h.metadata)]
  have hn : ∀ name, (∃ es, metadataGrant c context matcher root name = some es ∧ made ∈ es) ↔
      ∃ dir, root.joinDescendant c name = .ok dir ∧ Uncovered c g policy context dir ∧
        made = { path := .path dir, access := .write } := by
    intro name
    unfold metadataGrant
    rcases hdi : root.joinDescendant c name with e | dir
    · simp
    have hd := h.isDenied_iff hres (h.comparable_dir (joinDescendant_startsWith hdi))
    dsimp only
    cases hc : isDenied c context matcher dir with
    | true => simp [hd.mp hc]
    | false => ?_
    have : Uncovered c g policy context dir := by
      by_contra hno
      exact absurd (hc.symm.trans (hd.mpr hno)) (by simp)
    simp [this]
  simp only [hn]

lemma mem_resolvedEntries_returned :
    (uri, access) ∈ (approved.withGrants grants).resolvedEntries c context ↔
      (uri, access) ∈ (retained c policy).resolvedEntries c context ∨
        access = .write ∧ ∃ name ∈ protectedMetadataPathNames, root.joinDescendant c name = .ok uri ∧
          Uncovered c g policy context uri := by
  rw [← resolvedEntries_materialized hres.retained h.materialized, mem_resolvedEntries, mem_resolvedEntries]
  simp only [mem_append, or_and_right, exists_or]
  apply or_congr_right
  constructor
  · rintro ⟨made, hm, hr⟩
    obtain ⟨name, hn, _, hd, hu, rfl⟩ := (h.mem_grants hres made).mp hm
    obtain ⟨rfl, hp, -⟩ := mem_roots.mp hr
    obtain rfl := mem_singleton.mp hp
    exact ⟨rfl, name, hn, hd, hu⟩
  rintro ⟨rfl, name, hn, hd, hu⟩
  refine ⟨_, (h.mem_grants hres _).mpr ⟨name, hn, uri, hd, hu, rfl⟩, mem_roots.mpr ⟨rfl, ?_, ?_⟩⟩
  · exact mem_singleton_self _
  · exact (h.comparable_dir (joinDescendant_startsWith hd)).1

lemma readDenied_returned (hc : Comparable c context path) :
    ReadDenied c g (approved.withGrants grants) context path ↔
      ¬ Uncovered c g policy context path := by
  rw [h.not_uncovered_iff hres hc]
  constructor
  · intro hd _
    rcases hd hc with ⟨denied, hr, hh⟩ | ⟨made, hm, pattern, hp, hma⟩
    · obtain ⟨hin, hn⟩ := mem_deniedRoots.mp hr
      rcases (h.mem_resolvedEntries_returned hres).mp hin with hin | ⟨hw, -⟩
      · refine .inl ⟨denied, mem_deniedRoots.mpr ⟨?_, hn⟩, hh⟩
        exact (resolvedEntries_materialized hres.retained h.materialized _).mpr hin
      · cases hw
    rcases mem_append.mp hm with hm | hg
    · exact .inr ⟨made, hm, pattern, hp, hma⟩
    obtain ⟨_, -, _, -, -, hm⟩ := (h.mem_grants hres made).mp hg
    rw [hm] at hp
    simp [denyPattern] at hp
  intro hd _
  rcases hd hc with ⟨denied, hr, hh⟩ | ⟨made, hm, hp⟩
  · obtain ⟨hin, hn⟩ := mem_deniedRoots.mp hr
    refine .inl ⟨denied, mem_deniedRoots.mpr ⟨(h.mem_resolvedEntries_returned hres).mpr (.inl ?_), hn⟩, hh⟩
    exact (resolvedEntries_materialized hres.retained h.materialized _).mp hin
  · exact .inr ⟨made, mem_append_left _ hm, hp⟩

lemma not_isFileSystemRoot (hc : c.Lawful) (hd : (denied, .deny) ∈ (retained c policy).resolvedEntries c context) :
    isFileSystemRoot c context denied = false := by
  rw [Bool.eq_false_iff]
  intro hr
  unfold isFileSystemRoot at hr
  rw [h.root_eq, any_some, Bool.and_eq_true] at hr
  obtain ⟨hb, ha⟩ := hr
  have hg := h.root_grants
  unfold Grants at hg
  rw [if_pos h.kind_eq] at hg
  obtain ⟨⟨-, hrd, -⟩, -, _, _, -, hde, hh, hm⟩ := hg
  obtain ⟨_, hrd⟩ := isSome_iff_exists.mp hrd
  obtain ⟨_, hdd⟩ := isSome_iff_exists.mp ((PathUri.lexicalDepth_of_startsWith hb).mpr (by simp [hrd]))
  have hin := (resolvedEntries_materialized hres.retained h.materialized _).mpr hd
  have hle := PathUri.depth_le_of_startsWith hc hh hrd hde
  have hle' := PathUri.depth_le_of_startsWith hc hb hdd hrd
  rcases hm _ hin ha _ hdd with _ | ⟨-, hw⟩
  · omega
  · exact absurd (FileSystemAccessMode.eq_deny_of_le hw) (by decide)

lemma opened_of_canRead (hre : ((approved.withGrants grants).resolveAccess c path context).canRead) :
    Comparable c context path ∧ Opened c g policy context path := by
  have hne := FileSystemAccessMode.canRead_iff.mp hre
  have hg := (resolveAccess_eq_iff hne).mp rfl
  unfold Grants at hg
  rw [if_pos h.kind_eq] at hg
  obtain ⟨hc, -, uri, _, hin, -, hh, -⟩ := hg
  refine ⟨hc, root, h.root_eq, ?_⟩
  rcases (h.mem_resolvedEntries_returned hres).mp hin with hin | ⟨-, name, hn, hd, hu⟩
  · left
    obtain ⟨_, he, hr⟩ := mem_resolvedEntries.mp hin
    obtain ⟨ha, hp, -⟩ := mem_roots.mp hr
    rcases mem_retained he with rfl | ⟨-, hden⟩
    · unfold rootWrite FileSystemPath.paths at hp
      rw [h.root_eq] at hp
      obtain rfl := mem_singleton.mp hp
      exact hh
    · exact absurd (ha.trans hden) hne
  · exact .inr ⟨name, hn, uri, hd, hu, hh⟩

lemma canRead_of_opened (hc : c.Lawful) (hco : Comparable c context path)
    (hu : Uncovered c g policy context path) (ho : Opened c g policy context path) :
    ((approved.withGrants grants).resolveAccess c path context).canRead := by
  set returned : FileSystemSandboxPolicy := approved.withGrants grants
  have hr : ∀ e ∈ returned.resolvedEntries c context, e.1.lexicalDepth c = none → e.1.isOpaque c := by
    rintro ⟨uri, _⟩ hin hn
    rcases (h.mem_resolvedEntries_returned hres).mp hin with hin | ⟨-, name, -, hdi, -⟩
    · have hg := h.root_grants
      unfold Grants at hg
      rw [if_pos h.kind_eq] at hg
      exact hg.2.1 _ ((resolvedEntries_materialized hres.retained h.materialized _).mpr hin) hn
    have hd := (h.comparable_dir (joinDescendant_startsWith hdi)).2.1
    rw [hn] at hd
    simp at hd
  -- Some root holds the path, so some entry decides; it is no denial, as none covers the path.
  obtain ⟨decided, hde⟩ : ∃ decided, Decides c (returned.resolvedEntries c context) path decided := by
    obtain ⟨known, hk, hb⟩ := ho
    obtain rfl := some.inj (hk.symm.trans h.root_eq)
    rcases hb with hb | ⟨name, hna, _, hdi, hf, hb⟩
    · obtain ⟨depth, hd⟩ := isSome_iff_exists.mp h.comparable.2.1
      have hin : (known, .write) ∈ (retained c policy).resolvedEntries c context := ?_
      · exact exists_decides ((h.mem_resolvedEntries_returned hres).mpr (.inl hin)) hd hb hr
      refine mem_resolvedEntries.mpr ⟨rootWrite, rootWrite_mem_retained, mem_roots.mpr ⟨rfl, ?_, h.comparable.1⟩⟩
      unfold rootWrite FileSystemPath.paths
      rw [hk]
      exact mem_singleton_self _
    obtain ⟨depth, hd⟩ := isSome_iff_exists.mp (h.comparable_dir (joinDescendant_startsWith hdi)).2.1
    exact exists_decides ((h.mem_resolvedEntries_returned hres).mpr (.inr ⟨rfl, name, hna, hdi, hf⟩)) hd hb hr
  have hne : decided ≠ .deny := by
    rintro rfl
    obtain ⟨uri, depth, hin, -, hh, -⟩ := hde
    rcases (h.mem_resolvedEntries_returned hres).mp hin with hin | ⟨hw, -⟩
    · obtain ⟨entry, he, hro⟩ := mem_resolvedEntries.mp hin
      exact hu entry he ⟨(mem_roots.mp hro).1.symm, .inl ⟨uri, hro, h.not_isFileSystemRoot hres hc hin, hh⟩⟩
    · cases hw
  rw [FileSystemAccessMode.canRead_iff]
  have hg : Grants c returned context path decided := by
    unfold Grants
    rw [if_pos h.kind_eq]
    exact ⟨hco, hr, hde⟩
  rw [(resolveAccess_eq_iff hne).mpr hg]
  exact hne

end Resolving

end Approves

/-! ## Denials that cannot be resolved -/

def Usable (c : UrlCrates) (context : FileSystemSandboxPolicyContext) (uri : PathUri) : Prop :=
  uri.inferPathConvention c = context.cwd.inferPathConvention c ∧ (uri.lexicalDepth c).isSome

/-- Why a denial is not carried over. -/
inductive Unresolved (c : UrlCrates) (g : Globset) (context : FileSystemSandboxPolicyContext)
    (entry : FileSystemSandboxEntry) : Prop where
  | withoutRoots {scope : WorkspaceScope} (hscope : entry.path.workspaceScope = some scope)
    (h : context.workspaceRoots = [])
  | homeRelative {scope : WorkspaceScope} (hscope : entry.path.workspaceScope = some scope)
    (h : isHomeRelativeDenial c context.workspaceRoots entry scope = true)
  | outside {scope : WorkspaceScope} (hscope : entry.path.workspaceScope = some scope) {root : PathUri}
    (hroot : root ∈ context.workspaceRoots) (h : materializedPath c scope root = none)
  | path {uri : PathUri} (hpath : entry.path = .path uri) (h : ¬ Usable c context uri)
  | tmpdir (hpath : entry.path = .special .tmpdir)
    (h : ∀ directories, context.temporaryDirectories = some directories → ∃ dir ∈ directories, ¬ Usable c context dir)
  | home {pattern : Text} (hpath : entry.path = .globPattern pattern) {convention : PathConvention}
    (hcwd : context.cwd.inferPathConvention c = some convention)
    (hpattern : (homeRelativePattern convention pattern).isSome)
    (h : ∀ home, context.userHomeDir = some home → ¬ Usable c context home)
  | pattern {pattern : Text} (hpattern : pattern ∈ concreteGlobs c context entry)
    (h : ∀ convention, context.cwd.inferPathConvention c = some convention →
      ∀ glob, denyReadGlob c context pattern = .ok glob → ∀ matcher, buildGlobMatcher g glob convention ≠ .ok matcher)

lemma isValidContextPath_iff (hc : context.cwd.inferPathConvention c = some convention) (uri : PathUri) :
    isValidContextPath c convention uri ↔ Usable c context uri := by
  unfold isValidContextPath Usable
  rw [hc, Bool.and_eq_true, decide_eq_true_iff]

lemma compileGlobs_returnError (h : compileGlobs g convention .returnError patterns = .ok compiled) :
    ∀ pattern ∈ patterns, ∃ matcher, buildGlobMatcher g pattern convention = .ok matcher := by
  induction patterns generalizing compiled with
  | nil => simp
  | cons first patterns ih => ?_
  unfold compileGlobs at h
  split at h
  · rename_i matcher hb
    obtain ⟨rest, hr, -⟩ := Result.bind_eq_ok.mp h
    intro pattern hp
    rcases mem_cons.mp hp with rfl | hin
    · exact ⟨matcher, hb⟩
    · exact ih hr pattern hin
  · simp at h

lemma pattern_of_prepared (hcw : context.cwd.inferPathConvention c = some convention)
    (h : policy.prepareDenyReadMatcher c g context .returnError = .ok prepared)
    (he : entry ∈ policy.entries) (hp : denyPattern entry = some pattern) :
    ∃ glob matcher, denyReadGlob c context pattern = .ok glob ∧ buildGlobMatcher g glob convention = .ok matcher := by
  unfold prepareDenyReadMatcher at h
  rw [hcw] at h
  simp only at h
  split at h
  · simp at h
  rename_i hg
  obtain ⟨compiled, hc, -⟩ := Result.bind_eq_ok.mp h
  obtain ⟨glob, hin, hgl⟩ := Result.ok_of_mapM_ok hg pattern (mem_filterMap.mpr ⟨entry, he, hp⟩)
  obtain ⟨matcher, hm⟩ := compileGlobs_returnError hc glob hin
  exact ⟨glob, matcher, hgl, hm⟩

lemma forM_eq_ok {α ε : Type} {f : α → Except ε Unit} {as : List α} (h : as.forM f = .ok ()) :
    ∀ a ∈ as, f a = .ok () := by
  induction as with
  | nil => simp
  | cons first as ih => ?_
  obtain ⟨_, hf, hr⟩ := Result.bind_eq_ok.mp h
  intro a ha
  rcases mem_cons.mp ha with rfl | hin
  · exact hf
  · exact ih hr a hin

namespace Approves

variable (h : Approves c g policy context approved root matcher grants)

include h

lemma mem_approved (he : entry ∈ (retained c policy).entries) (hs : entry.path.workspaceScope = none) :
    entry ∈ approved.entries := by
  refine (mem_materialized h.materialized entry).mpr ⟨entry, he, [entry], ?_, by simp⟩
  unfold materializeEntry
  rw [hs]

lemma validated (hd : approved.hasContextReadDenials c context) :
    ∃ convention, context.cwd.inferPathConvention c = some convention ∧
      (∀ entry ∈ approved.entries, validateEntryPath c context convention entry = .ok ()) ∧
      ∃ prepared, approved.prepareDenyReadMatcher c g context .returnError = .ok prepared := by
  have hm := h.matcher_eq
  unfold ReadDenyMatcher.tryNewWithContext at hm
  rw [if_neg (by simp [hd])] at hm
  obtain ⟨_, hp, hm⟩ := Result.bind_eq_ok.mp hm
  obtain ⟨prepared, hpr, -⟩ := Result.bind_eq_ok.mp hm
  have hp := Result.mapError_eq_ok.mp hp
  unfold validateContextPaths at hp
  split at hp
  · simp at hp
  rename_i convention hc
  split at hp
  · simp at hp
  · exact ⟨convention, hc, forM_eq_ok hp, prepared, hpr⟩

lemma denials_of_mem (he : entry ∈ approved.entries) (hden : entry.access = .deny)
    (hp : entry.path ≠ .special .slashTmp) :
    approved.hasContextReadDenials c context := by
  unfold hasContextReadDenials
  simp only [h.kind_eq, decide_true, Bool.true_and, List.any_eq_true, Bool.and_eq_true, decide_eq_true_eq]
  exact ⟨entry, he, hden, by simp [hp]⟩

variable (he : entry ∈ policy.entries) (hden : entry.access = .deny) {pattern : Text}

include he hden

lemma usable_path (hp : entry.path = .path uri) :
    Usable c context uri := by
  obtain ⟨kept, hk, heq⟩ := retained_contains (c := c) he hden
  obtain ⟨ha, -, hs⟩ := FileSystemSandboxEntry.eq_cases heq
  -- The spelling that is retained is as usable.
  obtain ⟨other, ho, hu⟩ : ∃ other, kept.path = .path other ∧
      (Usable c context other → Usable c context uri) := by
    rcases hs with hs | ⟨other, same, ho, hs, heq⟩
    · exact ⟨uri, hs.trans hp, id⟩
    obtain rfl : uri = same := FileSystemPath.path.inj (hp.symm.trans hs)
    refine ⟨other, ho, fun hu => ?_⟩
    rcases PathUri.eq_cases heq with rfl | ⟨-, hd, hw, hw', -⟩
    · exact hu
    · exact ⟨hw'.trans (hw.symm.trans hu.1), hd⟩
  have hin := h.mem_approved hk (by rw [ho]; rfl)
  obtain ⟨convention, hc, hv, -⟩ :=
    h.validated (h.denials_of_mem hin (ha.trans hden) (by simp [ho]))
  have hkv := hv kept hin
  unfold validateEntryPath at hkv
  rw [ho] at hkv
  simp only at hkv
  split at hkv
  · rename_i hok
    exact hu ((isValidContextPath_iff hc other).mp hok)
  · simp at hkv

lemma usable_tmpdirs (hp : entry.path = .special .tmpdir) :
    ∃ directories, context.temporaryDirectories = some directories ∧ ∀ dir ∈ directories, Usable c context dir := by
  have hin := h.mem_approved (mem_retained_of_deny he hden (by simp [hp])) (by rw [hp]; rfl)
  obtain ⟨convention, hc, hv, -⟩ := h.validated (h.denials_of_mem hin hden (by simp [hp]))
  have hv := hv entry hin
  unfold validateEntryPath at hv
  rw [hp] at hv
  simp only at hv
  split at hv
  · simp at hv
  rename_i directories hd
  split at hv
  · simp at hv
  rename_i ha
  refine ⟨directories, hd, fun dir hdi => (isValidContextPath_iff hc dir).mp ?_⟩
  by_contra hn
  exact ha (any_eq_true.mpr ⟨dir, hdi, by simpa using hn⟩)

omit h he hden in
lemma workspaceScope_of_home {convention : PathConvention}
    (h : (homeRelativePattern convention pattern).isSome) :
    (FileSystemPath.globPattern pattern).workspaceScope = none := by
  refine congrArg (Option.map fun text => WorkspaceScope.mk (some text) true) (stripPrefix_of_take ?_)
  unfold homeRelativePattern at h
  intro ht
  rcases pattern with _ | ⟨first, rest⟩
  · simp at ht
  obtain rfl : first = 'c' := by simpa using congrArg head? ht
  rw [stripPrefix_of_head (c := '~') rfl (by simp), stripPrefix_of_head (c := '~') rfl (by simp)] at h
  simp at h

lemma usable_home (hp : entry.path = .globPattern pattern) (hc : context.cwd.inferPathConvention c = some convention)
    (hpa : (homeRelativePattern convention pattern).isSome) :
    ∃ home, context.userHomeDir = some home ∧ Usable c context home := by
  have hin := h.mem_approved (mem_retained_of_deny he hden (by simp [hp]))
    (by rw [hp]; exact workspaceScope_of_home hpa)
  obtain ⟨known, hk, hv, -⟩ := h.validated (h.denials_of_mem hin hden (by simp [hp]))
  obtain rfl := some.inj (hk.symm.trans hc)
  have hv := hv entry hin
  unfold validateEntryPath at hv
  rw [hp] at hv
  simp only [hpa, Bool.true_and, Bool.not_eq_true'] at hv
  split at hv
  · simp at hv
  rename_i hok
  rw [Bool.not_eq_false] at hok
  rcases hh : context.userHomeDir with _ | home
  · simp [hh] at hok
  rw [hh, any_some] at hok
  exact ⟨home, rfl, (isValidContextPath_iff hc home).mp hok⟩

lemma compiled_pattern (hp : pattern ∈ concreteGlobs c context entry) :
    ∃ convention, context.cwd.inferPathConvention c = some convention ∧
      ∃ glob matcher, denyReadGlob c context pattern = .ok glob ∧ buildGlobMatcher g glob convention = .ok matcher := by
  have hk : entry ∈ (retained c policy).entries := by
    refine mem_retained_of_deny he hden fun uri hpa => ?_
    rcases mem_concreteGlobs hp with ⟨-, hg⟩ | ⟨_, hs, -⟩
    · exact absurd (hpa.symm.trans hg) (by simp)
    · rw [hpa] at hs
      simp [FileSystemPath.workspaceScope] at hs
  obtain ⟨_, hm, hd⟩ := (pattern_materialized h.materialized pattern).mpr ⟨entry, hk, hden, hp⟩
  obtain ⟨convention, hc, -, _, hpr⟩ :=
    h.validated (hasContextReadDenials_of_pattern h.kind_eq hm hd)
  exact ⟨convention, hc, pattern_of_prepared hc hpr hm hd⟩

lemma not_unresolved (hres : DenialsResolve c policy context) : ¬ Unresolved c g context entry := by
  have hsy : ∀ scope, entry.path.workspaceScope = some scope → entry ∈ (retained c policy).entries := by
    intro scope hs
    refine mem_retained_of_deny he hden fun uri hp => ?_
    rw [hp] at hs
    simp [FileSystemPath.workspaceScope] at hs
  intro hu
  cases hu with
  | withoutRoots hs hr =>
    have hk := h.known
    rw [hr, isEmpty_nil, Bool.true_and, List.any_eq_false] at hk
    exact hk entry (hsy _ hs) (by simp [hs])
  | homeRelative hs hh => ?_
  | outside hs hro hn =>
    have hso := hres entry he hden _ hs _ hro
    rw [hn] at hso
    simp at hso
  | path hp hb => exact hb (h.usable_path he hden hp)
  | tmpdir hp hb =>
    obtain ⟨directories, hd, ha⟩ := h.usable_tmpdirs he hden hp
    obtain ⟨dir, hdi, hno⟩ := hb directories hd
    exact hno (ha dir hdi)
  | home hp hc hpa hb =>
    obtain ⟨home, hh, hus⟩ := h.usable_home he hden hp hc hpa
    exact hb home hh hus
  | pattern hpa hb =>
    obtain ⟨convention, hc, glob, matcher, hg, hm⟩ := h.compiled_pattern he hden hpa
    exact hb convention hc glob hg matcher hm
  obtain ⟨_, hess, -⟩ := tryMaterialize_eq_some h.materialized
  obtain ⟨_, hes⟩ := exists_of_forall₂ hess (hsy _ hs)
  unfold materializeEntry at hes
  rw [hs] at hes
  simp only [if_pos hh] at hes
  simp at hes

end Approves

/-! ## Approval and denials -/

/-- The path cannot be read, or the matcher denies it. -/
def StillDenied (c : UrlCrates) (g : Globset) (context : FileSystemSandboxPolicyContext) (path : PathUri)
    (policy : FileSystemSandboxPolicy) : Prop :=
  (policy.resolveAccess c path context).canRead = false ∨
    ∃ matcher, ReadDenyMatcher.fromContext c g policy context = some matcher ∧
      matcher.isReadDeniedUri c path context = true

/-- Each denial that covers the path does so only in a spelling that is not retained. -/
def Lost (c : UrlCrates) (g : Globset) (policy : FileSystemSandboxPolicy)
    (context : FileSystemSandboxPolicyContext) (path : PathUri) : Prop :=
  (∃ entry ∈ policy.entries, Covers c g context path entry) ∧ Uncovered c g policy context path ∧
    Comparable c context path ∧ Opened c g policy context path

lemma stillDenied_of_root (hr : denied ∈ policy.deniedRoots c context)
    (hh : path.startsWith c denied) : StillDenied c g context path policy := by
  obtain ⟨entry, he, hro⟩ := mem_resolvedEntries.mp (mem_deniedRoots.mp hr).1
  refine .inr (fromContext_denies_iff.mpr ⟨⟨entry, he, (mem_roots.mp hro).1.symm⟩, fun _ => ?_⟩)
  exact .inl ⟨denied, hr, hh⟩

lemma stillDenied_of_pattern (he : entry ∈ policy.entries) (hp : denyPattern entry = some pattern)
    (hm : PatternDenies c g context path pattern) : StillDenied c g context path policy := by
  refine .inr (fromContext_denies_iff.mpr ⟨⟨entry, he, (denyPattern_eq_some.mp hp).1⟩, fun _ => ?_⟩)
  exact .inr ⟨entry, he, pattern, hp, hm⟩

lemma stillDenied_of_readDenied (hc : Comparable c context path)
    (h : ReadDenied c g policy context path) : StillDenied c g context path policy := by
  rcases h hc with ⟨_, hr, hh⟩ | ⟨_, he, _, hp, hm⟩
  · exact stillDenied_of_root hr hh
  · exact stillDenied_of_pattern he hp hm

lemma Covers.stillDenied (he : entry ∈ policy.entries) (h : Covers c g context path entry) :
    StillDenied c g context path policy ∨ (∃ subpath, entry.path.workspaceScope = some ⟨subpath, true⟩) ∧
      StillDenied c g context path (policy.materializeProjectRootsWithPathUris c context.workspaceRoots) := by
  obtain ⟨hden, ⟨_, hr, hn, hh⟩ | ⟨pattern, hp, hma⟩⟩ := h
  · refine .inl (stillDenied_of_root (mem_deniedRoots.mpr ⟨?_, hn⟩) hh)
    exact mem_resolvedEntries.mpr ⟨entry, he, hr⟩
  rcases mem_concreteGlobs hp with ⟨-, hpa⟩ | ⟨⟨subpath, _⟩, hs, rfl, -⟩
  · exact .inl (stillDenied_of_pattern he (denyPattern_eq_some.mpr ⟨hden, hpa⟩) hma)
  refine .inr ⟨⟨subpath, hs⟩, ?_⟩
  unfold materializeProjectRootsWithPathUris
  rcases hm : policy.tryMaterializeProjectRootsWithPathUris c context.workspaceRoots with _ | materialized
  · left
    rw [getD_none, resolveAccess_no_entries]
    rfl
  obtain ⟨_, hmad, hd⟩ :=
    (pattern_materialized hm pattern).mpr ⟨entry, he, hden, hp⟩
  exact stillDenied_of_pattern hmad hd hma

lemma Approves.returned_ne (h : Approves c g policy context approved root matcher grants)
    (he : entry ∈ policy.entries) (hden : entry.access = .deny)
    (hs : entry.path.workspaceScope = some scope) :
    (approved.withGrants grants) ≠ policy := by
  rintro rfl
  rcases mem_append.mp he with hin | hg
  · exact absurd ((workspaceScope_materialized h.materialized hin).symm.trans hs) (by simp)
  rw [mem_flatten_of_forall₂ (forall₂_of_mapM h.metadata)] at hg
  obtain ⟨_, -, _, hes, hm⟩ := hg
  unfold metadataGrant at hes
  split at hes
  · simp at hes
  cases hes
  split at hm
  · cases hm
  · obtain rfl := mem_singleton.mp hm
    simp at hden

/-- **Approval and denials.** An approved command keeps each denial in force, exactly when no denial leaves its
workspace root and none is lost to another spelling. -/
theorem approval_keeps_denials_iff (c : UrlCrates) (hc : c.Lawful) (g : Globset) (policy : FileSystemSandboxPolicy)
    (hkind : policy.kind = .restricted) (context : FileSystemSandboxPolicyContext) (path : PathUri) :
    let returned := policy.forApprovedCommand c g context
    ((∀ entry ∈ policy.entries, Covers c g context path entry →
        StillDenied c g context path returned ∨ (∃ subpath, entry.path.workspaceScope = some ⟨subpath, true⟩) ∧
          StillDenied c g context path (returned.materializeProjectRootsWithPathUris c context.workspaceRoots)) ∧
      ((∃ entry ∈ policy.entries, entry.access = .deny ∧ Unresolved c g context entry) → returned = policy)) ↔
    ((∃ approved root matcher grants, Approves c g policy context approved root matcher grants) →
      DenialsResolve c policy context ∧ ¬ Lost c g policy context path) := by
  have hca : _ ∨ _ ∧ policy.forApprovedCommand c g context = policy := forApprovedCommand_cases hkind
  rcases hca with ⟨approved, root, matcher, grants, ha, hr⟩ | ⟨hre, hr⟩
  · simp only [hr]
    constructor
    · rintro ⟨hcove, hunc⟩ -
      have hres : DenialsResolve c policy context := by
        intro entry he hden scope hs root hro
        by_contra hn
        have hou := Unresolved.outside (g := g) hs hro (by simpa using hn)
        exact ha.returned_ne he hden hs (hunc ⟨entry, he, hden, hou⟩)
      refine ⟨hres, ?_⟩
      rintro ⟨⟨entry, he, hcov⟩, hu, hco, ho⟩
      rcases hcove entry he hcov with (hunr | hd) | ⟨⟨subpath, hs⟩, -⟩
      · rw [ha.canRead_of_opened hres hc hco hu ho] at hunr
        simp at hunr
      · exact (ha.readDenied_returned hres hco).mp (fromContext_denies_iff.mp hd).2 hu
      -- A pattern is retained as it is.
      refine hu entry (mem_retained_of_deny he hcov.1 fun uri hp => ?_) hcov
      rw [hp] at hs
      simp [FileSystemPath.workspaceScope] at hs
    intro hcon
    obtain ⟨hres, hl⟩ := hcon ⟨approved, root, matcher, grants, ha⟩
    refine ⟨fun entry he hcov => .inl ?_, ?_⟩
    · by_cases hrea : ((approved.withGrants grants).resolveAccess c path context).canRead = true
      · obtain ⟨hco, ho⟩ := ha.opened_of_canRead hres hrea
        refine stillDenied_of_readDenied hco ((ha.readDenied_returned hres hco).mpr ?_)
        exact fun hu => hl ⟨⟨entry, he, hcov⟩, hu, hco, ho⟩
      · exact .inl (Bool.eq_false_iff.mpr hrea)
    · rintro ⟨entry, he, hden, hun⟩
      exact absurd hun (ha.not_unresolved he hden hres)
  simp only [hr]
  exact iff_of_true ⟨fun entry he hcov => hcov.stillDenied he, fun _ => trivial⟩ fun ha => absurd ha hre

theorem outside_denial_replaced : let returned := outsideDenied.forApprovedCommand .plain .plain repoContext
    (∃ entry ∈ outsideDenied.entries, Covers .plain .plain repoContext (plainUri "/work/secret/key") entry) ∧
      ¬ StillDenied .plain .plain repoContext (plainUri "/work/secret/key") returned ∧ returned ≠ outsideDenied := by
  refine ⟨⟨{ path := .special (.projectRoots (some "../secret".toList)), access := .deny }, by decide, rfl,
    .inl ⟨plainUri "/work/secret", by decide⟩⟩, ?_, by decide⟩
  rintro (hu | ⟨matcher, hm, hd⟩)
  · cases hu
  have hn : ((ReadDenyMatcher.fromContext .plain .plain
      (outsideDenied.forApprovedCommand .plain .plain repoContext) repoContext).any
      fun matcher => matcher.isReadDeniedUri .plain (plainUri "/work/secret/key") repoContext) = false := by decide
  rw [hm, any_some, hd] at hn
  simp at hn

theorem inside_denial_retained : StillDenied .plain .plain repoContext (plainUri "/work/repo/secret/key")
      (insideDenied.forApprovedCommand .plain .plain repoContext) := by
  set entry : FileSystemSandboxEntry := { path := .special (.projectRoots (some "secret".toList)), access := .deny }
  have he : entry ∈ insideDenied.entries := by decide
  have hc : Covers .plain .plain repoContext (plainUri "/work/repo/secret/key") entry :=
    ⟨rfl, .inl ⟨plainUri "/work/repo/secret", by decide⟩⟩
  have hi := approval_keeps_denials_iff .plain UrlCrates.plain_lawful .plain insideDenied rfl repoContext
    (plainUri "/work/repo/secret/key")
  refine ((hi.mpr fun _ => ⟨?_, ?_⟩).1 entry he hc).resolve_right ?_
  · exact fun denial hd _ => insideDenied_resolves hd
  · rintro ⟨-, hu, -⟩
    exact hu entry (mem_retained_of_deny he rfl (by simp [entry])) hc
  · rintro ⟨⟨_, hs⟩, -⟩
    simp [entry, FileSystemPath.workspaceScope] at hs

end FileSystemSandboxPolicy

end Codex.Permissions
