import Codex.Permissions.LocalAliases

/-! # The write rule of Seatbelt: `build_seatbelt_access_policy` of `sandboxing/src/seatbelt.rs` -/

namespace Codex.Sandbox

open Codex.Text Codex.Permissions AbsolutePathBuf List FileSystemSandboxPolicy

inductive SeatbeltFilter where
  | literal (path : AbsolutePathBuf)
  | subpath (path : AbsolutePathBuf)
  | requireNotLiteral (path : AbsolutePathBuf)
  | requireNotSubpath (path : AbsolutePathBuf)
  | requireNotRegex (root : AbsolutePathBuf) (name : Text)
deriving DecidableEq

open SeatbeltFilter

/-- The regex of a metadata name is `^root/name(/.*)?$`, with the root and the name escaped. -/
def matchesProtectedMetadataName (root : AbsolutePathBuf) (name : Text) (path : AbsolutePathBuf) : Bool :=
  (root.names ++ [name]).isPrefixOf path.names

def SeatbeltFilter.satisfied (path : AbsolutePathBuf) : SeatbeltFilter → Bool
  | literal root => path = root
  | subpath root => path.startsWith root
  | requireNotLiteral excluded => path ≠ excluded
  | requireNotSubpath excluded => !path.startsWith excluded
  | requireNotRegex root name => !matchesProtectedMetadataName root name path

/-- The components of the rule, each of which requires all of its filters. -/
abbrev SeatbeltRule := List (List SeatbeltFilter)

def SeatbeltRule.admits (rule : SeatbeltRule) (path : AbsolutePathBuf) : Bool :=
  rule.any fun component => component.all (·.satisfied path)

structure SeatbeltAccessRoot where
  root : AbsolutePathBuf
  excludedSubpaths : List AbsolutePathBuf
  protectedMetadataNames : List Text

/-- A root below a file cannot be inspected, which is not the same as a missing one. -/
def normalizeWritableRootForSandbox (system : LocalSystem) (root : AbsolutePathBuf) : Except Unit SeatbeltFilter :=
  if system.passesFile root then .error ()
  else .ok (if system.isFile root then .literal root else .subpath root)

def accessComponent (system : LocalSystem) (accessRoot : SeatbeltAccessRoot) : Except Unit (List SeatbeltFilter) := do
  let rootFilter ← normalizeWritableRootForSandbox system accessRoot.root
  return rootFilter ::
    ((accessRoot.excludedSubpaths.flatMap fun excluded => [.requireNotLiteral excluded, .requireNotSubpath excluded]) ++
      accessRoot.protectedMetadataNames.map (.requireNotRegex accessRoot.root))

def buildSeatbeltAccessPolicy (system : LocalSystem) (roots : List SeatbeltAccessRoot) : Except Unit SeatbeltRule :=
  roots.mapM (accessComponent system)

section

variable (c : FileUrlCrates) (system : MacSystem) (policy : FileSystemSandboxPolicy) (cwd : AbsolutePathBuf)

def protectedMetadataNamesForWritableRoot (writableRoot : WritableRoot) : List Text :=
  writableRoot.protectedMetadataNames ++ protectedMetadataPathNames.filter fun name =>
    !writableRoot.protectedMetadataNames.contains name &&
      !policy.canWriteLocalPathWithCwd c system cwd (writableRoot.root.join system.host name)

/-- The `file_write_policy` of a policy without the whole disk. -/
def fileWritePolicy : Except Unit SeatbeltRule :=
  buildSeatbeltAccessPolicy system.toLocalSystem
    ((policy.getWritableRootsWithCwdPreservingMutablePaths c system cwd).map fun root =>
      { root := root.root
        excludedSubpaths := root.readOnlySubpaths
        protectedMetadataNames := protectedMetadataNamesForWritableRoot c system policy cwd root })

end

/-! ## What a root admits -/

section Admits

variable {c : FileUrlCrates} {system : MacSystem} {policy : FileSystemSandboxPolicy}
  {cwd root path : AbsolutePathBuf} {rule : SeatbeltRule}

/-- What the rule of a writable root leaves out. -/
def CarvedOut (c : FileUrlCrates) (system : MacSystem) (policy : FileSystemSandboxPolicy)
    (cwd root path : AbsolutePathBuf) : Prop :=
  (∃ excluded, ReadOnly system.toLocalSystem (policy.canWriteLocalPathWithCwd c system cwd)
      (policy.resolvedEntriesWithCwd c system.toLocalSystem cwd) cwd root excluded ∧
      excluded.names <+: path.names) ∨
    ∃ name ∈ protectedMetadataPathNames,
      policy.canWriteLocalPathWithCwd c system cwd (root.join system.host name) = false ∧
        root.names ++ [name] <+: path.names

lemma CarvedOut.below (h : CarvedOut c system policy cwd root path)
    (hp : path.names <+: deeper.names) : CarvedOut c system policy cwd root deeper := by
  rcases h with ⟨excluded, he, hb⟩ | ⟨name, hn, hca, hb⟩
  · exact .inl ⟨excluded, he, hb.trans hp⟩
  · exact .inr ⟨name, hn, hca, hb.trans hp⟩

lemma mem_protectedMetadataNames_iff :
    name ∈ protectedMetadataNamesForWritableRoot c system policy cwd (writableRoot system.toLocalSystem
        (policy.canWriteLocalPathWithCwd c system cwd) (policy.resolvedEntriesWithCwd c system.toLocalSystem cwd)
        cwd root) ↔
      name ∈ protectedMetadataPathNames ∧
        policy.canWriteLocalPathWithCwd c system cwd (root.join system.host name) = false := by
  unfold protectedMetadataNamesForWritableRoot
  rw [mem_append, mem_filter, Bool.and_eq_true, Bool.not_eq_true']
  show name ∈ Permissions.protectedMetadataNamesForWritableRoot _ _ _ ∨ _ ↔ _
  rw [mem_protectedMetadataNames]
  constructor
  · rintro (h | ⟨hn, -, hca⟩)
    · exact h
    · exact ⟨hn, (Bool.not_eq_true' _).mp hca⟩
  · exact .inl

lemma component_admits (h : accessComponent system.toLocalSystem
      { root
        excludedSubpaths := (writableRoot system.toLocalSystem (policy.canWriteLocalPathWithCwd c system cwd)
          (policy.resolvedEntriesWithCwd c system.toLocalSystem cwd) cwd root).readOnlySubpaths
        protectedMetadataNames := protectedMetadataNamesForWritableRoot c system policy cwd
          (writableRoot system.toLocalSystem (policy.canWriteLocalPathWithCwd c system cwd)
            (policy.resolvedEntriesWithCwd c system.toLocalSystem cwd) cwd root) } = .ok component) :
    component.all (·.satisfied path) ↔
      root.names <+: path.names ∧ (system.isFile root → path = root) ∧
        ¬ CarvedOut c system policy cwd root path := by
  unfold accessComponent normalizeWritableRootForSandbox at h
  obtain ⟨rootFilter, hf, heq⟩ := Result.bind_eq_ok.mp h
  cases heq
  have hr : rootFilter.satisfied path ↔
      root.names <+: path.names ∧ (system.isFile root → path = root) := by
    split at hf
    · simp at hf
    cases hf
    cases hfi : system.isFile root with
    | true => ?_
    | false => simp [satisfied, startsWith_iff]
    simp only [if_true, satisfied, decide_eq_true_eq, true_imp_iff]
    refine ⟨?_, fun h => h.2⟩
    rintro rfl
    exact ⟨prefix_rfl, rfl⟩
  rw [all_cons, Bool.and_eq_true, hr, and_assoc]
  refine and_congr_right fun _ => and_congr_right fun _ => ?_
  rw [all_append, Bool.and_eq_true]
  unfold CarvedOut
  rw [not_or]
  refine and_congr ?_ ?_
  · simp only [all_eq_true, mem_flatMap, mem_cons, not_mem_nil, or_false, mem_readOnlySubpaths]
    constructor
    · rintro ha ⟨excluded, he, hb⟩
      have := ha _ ⟨excluded, he, .inr rfl⟩
      simp only [satisfied, Bool.not_eq_true', Bool.eq_false_iff, ne_eq, startsWith_iff] at this
      exact this hb
    rintro hn filter ⟨excluded, he, rfl | rfl⟩
    · simp only [satisfied, decide_eq_true_eq]
      rintro rfl
      exact hn ⟨path, he, prefix_rfl⟩
    · simp only [satisfied, Bool.not_eq_true', Bool.eq_false_iff, ne_eq, startsWith_iff]
      exact fun hb => hn ⟨excluded, he, hb⟩
  simp only [all_eq_true, mem_map, mem_protectedMetadataNames_iff]
  constructor
  · rintro ha ⟨name, hna, hca, hb⟩
    have := ha _ ⟨name, ⟨hna, hca⟩, rfl⟩
    simp only [satisfied, matchesProtectedMetadataName, Bool.not_eq_true', Bool.eq_false_iff, ne_eq,
      isPrefixOf_iff_prefix] at this
    exact this hb
  rintro hn filter ⟨name, ⟨hna, hca⟩, rfl⟩
  simp only [satisfied, matchesProtectedMetadataName, Bool.not_eq_true', Bool.eq_false_iff, ne_eq,
    isPrefixOf_iff_prefix]
  exact fun hb => hn ⟨name, hna, hca, hb⟩

lemma admits_iff (hd : policy.hasFullDiskWriteAccess c = false)
    (hr : fileWritePolicy c system policy cwd = .ok rule) : rule.admits path ↔
      ∃ entry ∈ policy.resolvedEntriesWithCwd c system.toLocalSystem cwd, entry.access = .write ∧
        policy.canWriteLocalPathWithCwd c system cwd entry.path ∧ entry.path.names <+: path.names ∧
        (system.isFile entry.path → path = entry.path) ∧ ¬ CarvedOut c system policy cwd entry.path path := by
  unfold fileWritePolicy buildSeatbeltAccessPolicy at hr
  have hro : policy.getWritableRootsWithCwdPreservingMutablePaths c system cwd =
      writableRoots system.toLocalSystem (policy.canWriteLocalPathWithCwd c system cwd)
        (policy.resolvedEntriesWithCwd c system.toLocalSystem cwd) cwd .separate := by
    unfold getWritableRootsWithCwdPreservingMutablePaths
    rw [hd, if_neg (by simp)]
  rw [hro] at hr
  unfold SeatbeltRule.admits
  rw [any_eq_true]
  constructor
  · rintro ⟨component, hco, hal⟩
    obtain ⟨_, hin, hok⟩ := (Result.mem_of_mapM_ok hr component).mp hco
    obtain ⟨w, hw, rfl⟩ := mem_map.mp hin
    obtain ⟨entry, he, rfl⟩ := mem_writableRoots.mp hw
    obtain ⟨hin, hwr, hca⟩ := mem_writableEntries_separate.mp he
    exact ⟨entry, hin, hwr, hca, (component_admits hok).mp hal⟩
  rintro ⟨entry, hin, hwr, hca, ha⟩
  have hw : writableRoot system.toLocalSystem (policy.canWriteLocalPathWithCwd c system cwd)
      (policy.resolvedEntriesWithCwd c system.toLocalSystem cwd) cwd entry.path ∈
      writableRoots system.toLocalSystem (policy.canWriteLocalPathWithCwd c system cwd)
        (policy.resolvedEntriesWithCwd c system.toLocalSystem cwd) cwd .separate :=
    mem_writableRoots.mpr ⟨entry, mem_writableEntries_separate.mpr ⟨hin, hwr, hca⟩, rfl⟩
  obtain ⟨component, hco, hok⟩ := Result.ok_of_mapM_ok hr _ (mem_map_of_mem hw)
  exact ⟨component, hco, (component_admits hok).mpr ha⟩

end Admits

/-! ## Where grants end -/

section Edges

variable {c : FileUrlCrates} {system : MacSystem} {policy matching : FileSystemSandboxPolicy}
  {cwd path : AbsolutePathBuf} {rule : SeatbeltRule}

section

variable (c : FileUrlCrates) (system : MacSystem) (matching : FileSystemSandboxPolicy)
  (cwd path : AbsolutePathBuf)

def CaseAlias : Prop :=
  ∃ e ∈ matching.resolvedEntries c.toUrlCrates (localPolicyContext c system.toLocalSystem cwd),
    ∃ root, e.2 = .write ∧ e.1.toAbsPath c system.host = some root ∧
      normalizeMetadataCaseAlias system path root ≠ .ok none ∧
      (normalizeMetadataCaseAlias system path root ≠ .ok (some path) ∨
        matching.entries.mapM (normalizeEntry c system root) ≠ .ok matching.entries)

/-- A place where the policy can stop granting. -/
def Edge : Prop :=
  Rooted.Boundary metadataKeys .write (localEntries c.toUrlCrates (matching.resolvedEntries c.toUrlCrates
      (localPolicyContext c system.toLocalSystem cwd))) path.key ∨
    (∃ name, path.names = [name] ∧ isDriveName name = true) ∨ CaseAlias c system matching cwd path

end

section Refused

variable (hc : c.Lawful)
  (hma : policy.prepareLocalMatching c system (localPolicyContext c system.toLocalSystem cwd) = .ok matching)
  (hnot : policy.canWriteLocalPathWithCwd c system cwd path = false)

include hc hma hnot

lemma caseAlias_of_refused (hp : path.Normal) (hu : path.hasUri)
    (hca : matching.canWritePath c.toUrlCrates (.fromAbsPath c path) (localPolicyContext c system.toLocalSystem cwd))
    (ha : AliasesAllowed c system matching (localPolicyContext c system.toLocalSystem cwd) root) :
    CaseAlias c system matching cwd path := by
  have hr : ¬ AliasesAllowed c system matching (localPolicyContext c system.toLocalSystem cwd) path := by
    intro hall
    rw [canWriteLocalPath_eq hc hp hu hma hca hall] at hnot
    simp at hnot
  obtain ⟨hd, hr⟩ := Classical.not_imp.mp hr
  rw [allowsAliases_eq_ok] at hr
  obtain ⟨e, he, hr⟩ := by simpa only [not_forall] using hr
  have hro := allowsAliases_eq_ok.mp (ha hd) e he
  unfold allowsAlias at hro hr
  split at hr
  · cases hr rfl
  rename_i hw
  rw [if_neg hw] at hro
  have hm : e.2 = .write := by
    simp only [Bool.or_eq_true, Bool.not_eq_true', not_or, Bool.not_eq_false] at hw
    exact FileSystemAccessMode.canWrite_iff.mp hw.1
  split at hr
  · rename_i hn
    rw [hn] at hro
    simp at hro
  rename_i literal hl
  refine ⟨e, he, literal, hm, hl, ?_, ?_⟩
  · intro hal
    rw [hal] at hr
    exact hr rfl
  by_contra hs
  rw [not_or, not_not, not_not] at hs
  rw [hs.1] at hr
  simp only [hs.2] at hr
  exact hr (congrArg Except.ok hca)

lemma exists_edge (hk : policy.kind = .restricted) (hcw : cwd.Normal)
    (hr : policy.canWriteLocalPathWithCwd c system cwd root)
    (hp : path.OfSystem) (hb : root.names <+: path.names) :
    ∃ edge, edge.OfSystem ∧ root.names <+: edge.names ∧ edge.names <+: path.names ∧
      policy.canWriteLocalPathWithCwd c system cwd edge = false ∧ Edge c system matching cwd edge := by
  have hrs := hp.above hb
  obtain ⟨hcu, hru, matching', hm', hca, ha⟩ :=
    canWriteLocalPath_cases hc hk hcw hrs.1 hr
  obtain rfl := Except.ok.inj (hm'.symm.trans hma)
  have hl := prepared_local hc hcw hcu hma hk
  rcases hur : path.hasUri with _ | _
  · -- The path starts with a drive, which no root does that may be written.
    have hd : path.names.head?.any isDriveName := by
      have := hp.2
      unfold hasUri at hur
      rw [this, Bool.and_true] at hur
      simpa using hur
    rcases hna : path.names with _ | ⟨drive, rest⟩
    · rw [hna] at hd
      simp at hd
    have hn : isDriveName drive := by simpa [hna] using hd
    have hem : root.names = [] := by
      rcases hrn : root.names with _ | ⟨first, names⟩
      · rfl
      rw [hrn, hna, cons_prefix_cons] at hb
      unfold hasUri at hru
      simp [hrn, hb.1, hn] at hru
    have he : (AbsolutePathBuf.mk [drive]).names <+: path.names := by simp [hna]
    refine ⟨⟨[drive]⟩, hp.above he, by simp [hem], by simp, ?_, .inr (.inl ⟨drive, rfl, hn⟩)⟩
    rw [Bool.eq_false_iff]
    intro hw
    obtain ⟨-, heu, -⟩ :=
      canWriteLocalPath_cases hc hk hcw (hp.above he).1 hw
    unfold hasUri at heu
    simp [hn] at heu
  by_cases hpc : matching'.canWritePath c.toUrlCrates (.fromAbsPath c path)
      (localPolicyContext c system.toLocalSystem cwd)
  · exact ⟨path, hp, hb, prefix_rfl, hnot,
      .inr (.inr (caseAlias_of_refused hc hma hnot hp.1 hur hpc ha))⟩
  have hke : ∀ path : AbsolutePathBuf, path.Normal → path.hasUri →
      (PathUri.fromAbsPath c path).localNames c.toUrlCrates = some path.key := by
    intro path hno hur
    rw [PathUri.localNames_fromAbsPath hc hno, if_pos hur]
  rw [canWritePath_iff_granted hl (hke root hrs.1 hru)] at hca
  rw [canWritePath_iff_granted hl (hke path hp.1 hur)] at hpc
  obtain ⟨edgeKey, hu, hlo, hbo, he⟩ :=
    Rooted.exists_boundary_below hca (key_prefix_iff.mpr hb) hpc
  have hek : (path.upTo edgeKey.length).key = edgeKey := key_upTo hlo
  have hpr := path.upTo_prefix edgeKey.length
  have hs := hp.above hpr
  refine ⟨path.upTo edgeKey.length, hs, ?_, hpr, ?_, .inl ?_⟩
  · rw [← key_prefix_iff, hek]
    exact hu
  · rw [Bool.eq_false_iff]
    intro hw
    obtain ⟨-, heu, _, ho, hec, -⟩ :=
      canWriteLocalPath_cases hc hk hcw hs.1 hw
    obtain rfl := Except.ok.inj (ho.symm.trans hma)
    rw [canWritePath_iff_granted hl (hke _ hs.1 heu), hek] at hec
    exact he hec
  · rw [hek]
    rcases hbo with hen | ⟨granting, name, hg, hn, heq⟩
    · exact .inl hen
    refine .inr ⟨granting, name, hg, ?_, heq⟩
    split at hn
    · simp at hn
    · exact hn

end Refused

/-- **The write rule admits only what the policy lets be written** exactly when every edge below a writable root
is carved out of it or may be written itself. -/
theorem write_rule_within_policy_iff (c : FileUrlCrates) (hc : c.Lawful) (system : MacSystem)
    (policy : FileSystemSandboxPolicy) (hkind : policy.kind = .restricted)
    (hdisk : policy.hasFullDiskWriteAccess c = false) (cwd : AbsolutePathBuf) (hcwd : cwd.Normal)
    (rule : SeatbeltRule) (hrule : fileWritePolicy c system policy cwd = .ok rule) :
    (∀ path, path.OfSystem → rule.admits path = true → policy.canWriteLocalPathWithCwd c system cwd path = true) ↔
      ∀ matching, policy.prepareLocalMatching c system (localPolicyContext c system.toLocalSystem cwd) = .ok matching →
        ∀ root, ⟨root, .write⟩ ∈ policy.resolvedEntriesWithCwd c system.toLocalSystem cwd →
          policy.canWriteLocalPathWithCwd c system cwd root = true → system.isFile root = false →
          ∀ edge, edge.OfSystem → root.names <+: edge.names → Edge c system matching cwd edge →
            policy.canWriteLocalPathWithCwd c system cwd edge = true ∨ CarvedOut c system policy cwd root edge := by
  constructor
  · intro hal matching _ root hin hr hf edge he hb _
    by_cases hca : CarvedOut c system policy cwd root edge
    · exact .inr hca
    refine .inl (hal edge he ((admits_iff hdisk hrule).mpr ⟨_, hin, rfl, hr, hb, ?_, hca⟩))
    intro hf'
    rw [hf] at hf'
    simp at hf'
  intro hed path hp ha
  obtain ⟨entry, hin, hw, hr, hb, hf, hnc⟩ := (admits_iff hdisk hrule).mp ha
  obtain ⟨root, access⟩ := entry
  obtain rfl : access = .write := hw
  by_contra hnot
  rw [Bool.not_eq_true] at hnot
  obtain ⟨-, -, matching, hma, -, -⟩ :=
    canWriteLocalPath_cases hc hkind hcwd (hp.above hb).1 hr
  have hn : system.isFile root = false := by
    rw [Bool.eq_false_iff]
    intro hi
    rw [hf hi, hr] at hnot
    simp at hnot
  obtain ⟨edge, he, hu, hl, hcan, his⟩ := exists_edge hc hma hnot hkind hcwd hr hp hb
  rcases hed matching hma root hin hr hn edge he hu his with hw | hca
  · rw [hcan] at hw
    simp at hw
  · exact hnc (hca.below hl)

/-! ### Nested roots -/

def bareMac : MacSystem where
  host := { homeDirectory := none, currentDir := none }
  tmpdir := none
  files := .node [("w".toList, .node [])]
  pathconf _ := .sensitive

set_option maxRecDepth 4000 in
theorem nested_metadata_admitted :
    nestedPolicy.kind = .restricted ∧ nestedPolicy.hasFullDiskWriteAccess .plain = false ∧
    (normalize "/w").Normal ∧ (normalize "/w/a/.git/config").OfSystem ∧
    (fileWritePolicy .plain bareMac nestedPolicy (normalize "/w")).toOption.any
      (·.admits (normalize "/w/a/.git/config")) = true ∧
    nestedPolicy.canWriteLocalPathWithCwd .plain bareMac (normalize "/w") (normalize "/w/a/.git/config") = false :=
  ⟨by decide, by decide, normalize_normal _, ⟨normalize_normal _, by decide⟩, by decide, by decide⟩

lemma isCaseInsensitive_bareMac (path : AbsolutePathBuf) : isCaseInsensitiveFilesystem bareMac path = .ok false := by
  have hi : ∃ first rest, path.names.inits.reverse = first :: rest := by
    apply exists_cons_of_ne_nil
    intro hn
    have := congrArg List.length hn
    simp at this
  obtain ⟨first, rest, heq⟩ := hi
  unfold isCaseInsensitiveFilesystem
  rw [heq]
  rfl

lemma metadata_of_alias (hb : root.names <+: path.names) (h : normalizeMetadataCaseAlias bareMac path root ≠ .ok none) :
    ∃ name ∈ protectedMetadataPathNames, root.names ++ [name] <+: path.names := by
  obtain ⟨rest, hr⟩ := hb
  unfold normalizeMetadataCaseAlias at h
  rw [← hr, drop_left] at h
  rcases rest with _ | ⟨name, relative⟩
  · cases h rfl
  rcases hf : protectedMetadataPathNames.find? (name.eqIgnoreAsciiCase ·) with _ | metadataName
  · simp only [hf] at h
    cases h rfl
  by_cases hn : name = metadataName
  · subst hn
    refine ⟨name, mem_of_find?_eq_some hf, ?_⟩
    rw [← hr]
    exact ⟨relative, by simp⟩
  · simp only [hf, hn, ne_eq, isCaseInsensitive_bareMac, spellsRoot_self] at h
    cases h rfl

set_option maxRecDepth 4000 in
lemma single_metadata_refused : ∀ name ∈ protectedMetadataPathNames,
    singlePolicy.canWriteLocalPathWithCwd .plain bareMac (normalize "/w")
      ((normalize "/w").join bareMac.host name) = false := by decide

theorem single_root_admits_writable : (fileWritePolicy .plain bareMac singlePolicy (normalize "/w")).toOption.any
      (·.admits (normalize "/w/src/main.rs")) = true ∧
    singlePolicy.canWriteLocalPathWithCwd .plain bareMac (normalize "/w") (normalize "/w/src/main.rs") = true := by
  have ha : (fileWritePolicy .plain bareMac singlePolicy (normalize "/w")).toOption.any
      (·.admits (normalize "/w/src/main.rs")) = true := by decide
  refine ⟨ha, ?_⟩
  rcases hr : fileWritePolicy .plain bareMac singlePolicy (normalize "/w") with _ | rule
  · exact absurd (hr ▸ ha) (by simp [Except.toOption])
  rw [hr] at ha
  refine (write_rule_within_policy_iff .plain FileUrlCrates.plain_lawful bareMac singlePolicy rfl (by decide)
    (normalize "/w") (normalize_normal _) rule hr).mpr ?_ _ ⟨normalize_normal _, by decide⟩ ha
  intro matching hma root hro _ _ edge _ hb hed
  obtain rfl : root = normalize "/w" := by
    have hen : singlePolicy.resolvedEntriesWithCwd .plain bareMac.toLocalSystem (normalize "/w") =
        [⟨normalize "/w", .write⟩] := by decide
    rw [hen] at hro
    simpa using hro
  obtain rfl : matching = singlePolicy := by
    have hs : singlePolicy.prepareLocalMatching .plain bareMac
        (localPolicyContext .plain bareMac.toLocalSystem (normalize "/w")) =
        .ok singlePolicy := by rfl
    exact Except.ok.inj (hma.symm.trans hs)
  suffices hm : ∃ name ∈ protectedMetadataPathNames, (normalize "/w").names ++ [name] <+: edge.names by
    obtain ⟨name, hn, hp⟩ := hm
    exact .inr (.inr ⟨name, hn, single_metadata_refused name hn, hp⟩)
  rcases hed with hbo | ⟨name, hna, hd⟩ | ⟨e, he, _, -, hl, hal, -⟩
  · rcases hbo with ⟨_, hmo, hin⟩ | ⟨_, name, hin, hn, hk⟩
    · exact absurd (Prod.mk.inj (mem_singleton.mp hin)).2 hmo
    obtain ⟨metadataName, hm, rfl⟩ := mem_map.mp hn
    obtain ⟨rfl, -⟩ := Prod.mk.inj (mem_singleton.mp hin)
    refine ⟨metadataName, hm, ?_⟩
    have hch : (AbsolutePathBuf.mk ((normalize "/w").names ++ [metadataName])).key <+: edge.key := by
      rw [hk]
      unfold key
      exact prefix_rfl
    exact key_prefix_iff.mp hch
  · rw [hna] at hb
    obtain rfl : "w".toList = name := (cons_prefix_cons.mp hb).1
    cases hd
  obtain rfl := mem_singleton.mp he
  cases hl
  exact metadata_of_alias hb hal

end Edges

end Codex.Sandbox
