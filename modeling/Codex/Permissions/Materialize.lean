import Codex.PathUri.Laws
import Codex.Permissions.ReadDeny

/-!
# Workspace roots made concrete

`try_materialize_project_roots_with_path_uris` of `protocol/src/permissions.rs`.
-/

namespace Codex.Permissions

open Codex.Text List Option PathUri

def projectRootsGlobPatternPrefix : Text := "codex-project-roots://"

def resolveScopedWorkspacePath (c : UrlCrates) (root : PathUri) (subpath : Text) : Option PathUri := do
  let convention ← root.inferPathConvention c
  let segments := convention.pathSegments subpath
  if subpath.head? = some '/' ∨ (convention = .windows ∧ subpath.head? = some '\\') ∨ segments.any isDots ∨
      (convention = .windows ∧ segments.any (·.contains ':')) then none
  else (root.join c subpath).toOption.filter fun path => path.startsWith c root

/-- What an entry names in the workspace roots: a path below them, and whether as a glob. -/
structure WorkspaceScope where
  subpath : Option Text
  isGlob : Bool
deriving DecidableEq

def FileSystemPath.workspaceScope : FileSystemPath → Option WorkspaceScope
  | .special (.projectRoots subpath) => some ⟨subpath, false⟩
  | .globPattern pattern => (stripPrefix projectRootsGlobPatternPrefix pattern).map (⟨some ·, true⟩)
  | _ => none

namespace FileSystemSandboxPolicy

section

variable (c : UrlCrates)

def materializedPath (scope : WorkspaceScope) (root : PathUri) : Option PathUri :=
  if scope.isGlob && (root.inferPathConvention c).all fun convention =>
      (root.validateGlobDirectory c convention).toOption.isNone then none
  else match scope.subpath with
    | none => some root
    | some subpath => resolveScopedWorkspacePath c root subpath

/-- A rule that cannot be resolved denies its root, unless it grants writing. -/
def materializedEntry (entry : FileSystemSandboxEntry) (scope : WorkspaceScope) (root : PathUri) :
    Option FileSystemSandboxEntry :=
  match materializedPath c scope root with
  | some path => some { entry with
      path := if scope.isGlob then .globPattern (path.inferredNativePathString c) else .path path }
  | none => if entry.access.canWrite then none else some { entry with path := .path root, access := .deny }

/-- A denial below a workspace root that once was one below the home directory. -/
def isHomeRelativeDenial (workspaceRoots : List PathUri) (entry : FileSystemSandboxEntry)
    (scope : WorkspaceScope) : Bool :=
  entry.access = .deny && scope.subpath.any fun subpath => workspaceRoots.any fun root =>
    (root.inferPathConvention c).any fun convention => (convention.homeRelativeSuffix subpath).isSome

def materializeEntry (workspaceRoots : List PathUri) (entry : FileSystemSandboxEntry) :
    Option (List FileSystemSandboxEntry) :=
  match entry.path.workspaceScope with
  | none => some [entry]
  | some scope =>
    if isHomeRelativeDenial c workspaceRoots entry scope then none
    else some (workspaceRoots.filterMap (materializedEntry c entry scope))

def tryMaterializeProjectRootsWithPathUris (policy : FileSystemSandboxPolicy)
    (workspaceRoots : List PathUri) : Option FileSystemSandboxPolicy :=
  (policy.entries.mapM (materializeEntry c workspaceRoots)).map fun entries =>
    { policy with entries := entries.flatten }

def materializeProjectRootsWithPathUris (policy : FileSystemSandboxPolicy)
    (workspaceRoots : List PathUri) : FileSystemSandboxPolicy :=
  (policy.tryMaterializeProjectRootsWithPathUris c workspaceRoots).getD (restricted [])

end

variable {c : UrlCrates} {g : Globset} {policy materialized : FileSystemSandboxPolicy}
  {context : FileSystemSandboxPolicyContext} {path : PathUri} {entry : FileSystemSandboxEntry}

/-! ## Entries inside their roots -/

/-- The entry has a path below every workspace root. -/
def Resolves (c : UrlCrates) (workspaceRoots : List PathUri) (entry : FileSystemSandboxEntry) : Prop :=
  ∀ scope, entry.path.workspaceScope = some scope → ∀ root ∈ workspaceRoots, (materializedPath c scope root).isSome

/-- All entries but globs resolve. -/
def Scoped (c : UrlCrates) (policy : FileSystemSandboxPolicy) (workspaceRoots : List PathUri) : Prop :=
  ∀ entry ∈ policy.entries, (∀ pattern, entry.path ≠ .globPattern pattern) → Resolves c workspaceRoots entry

variable {scope : WorkspaceScope} {root resolved : PathUri} {α β : Type} {as : List α}

variable {f : α → Option β} {bs : List β} {pattern : Text} {uri : PathUri} {made : FileSystemSandboxEntry}

lemma forall₂_of_mapM (h : as.mapM f = some bs) : List.Forall₂ (fun a b => f a = some b) as bs := by
  induction as generalizing bs with
  | nil =>
    cases h
    exact .nil
  | cons a as ih => ?_
  rw [mapM_cons] at h
  obtain ⟨b, hb, hr⟩ := bind_eq_some_iff.mp h
  obtain ⟨_, hm, hc⟩ := bind_eq_some_iff.mp hr
  cases hc
  exact .cons hb (ih hm)

lemma tryMaterialize_eq_some (h : policy.tryMaterializeProjectRootsWithPathUris c context.workspaceRoots =
      some materialized) :
    ∃ entries, List.Forall₂ (fun entry es => materializeEntry c context.workspaceRoots entry = some es)
      policy.entries entries ∧ materialized = { policy with entries := entries.flatten } := by
  obtain ⟨entries, he, hp⟩ := map_eq_some_iff.mp h
  exact ⟨entries, forall₂_of_mapM he, hp.symm⟩

lemma materializedPath_eq_some (h : materializedPath c scope root = some resolved) :
    resolved = root ∧ scope.subpath = none ∨
      ∃ subpath, scope.subpath = some subpath ∧ root.join c subpath = .ok resolved := by
  unfold materializedPath at h
  split at h
  · simp at h
  split at h
  · rename_i hn
    exact .inl ⟨(some.inj h).symm, hn⟩
  rename_i subpath hs
  refine .inr ⟨subpath, hs, ?_⟩
  unfold resolveScopedWorkspacePath at h
  obtain ⟨convention, -, h⟩ := bind_eq_some_iff.mp h
  simp only at h
  split at h
  · simp at h
  obtain ⟨hj, -⟩ := filter_eq_some_iff.mp h
  rcases hr : root.join c subpath with e | uri
  · simp [hr, Except.toOption] at hj
  rw [hr] at hj
  rw [some.inj hj]

lemma projectRoots_paths_cons (h : resolved = root ∧ subpath = none ∨
      ∃ text, subpath = some text ∧ root.join c text = .ok resolved) :
    (FileSystemPath.special (.projectRoots subpath)).paths c { context with workspaceRoots := root :: roots } =
      resolved ::
        (FileSystemPath.special (.projectRoots subpath)).paths c { context with workspaceRoots := roots } := by
  unfold FileSystemPath.paths
  rcases h with ⟨rfl, rfl⟩ | ⟨text, rfl, hok⟩
  · rfl
  · simp only [filterMap_cons, hok, Except.toOption]

lemma roots_materialized (hs : entry.path.workspaceScope = some scope)
    (hres : ∀ root ∈ context.workspaceRoots, (materializedPath c scope root).isSome) :
    (context.workspaceRoots.filterMap (materializedEntry c entry scope)).flatMap (·.roots c context) =
      entry.roots c context := by
  -- One root at a time; a glob has no roots before and after.
  suffices hro : ∀ roots : List PathUri, (∀ root ∈ roots, (materializedPath c scope root).isSome) →
      (roots.filterMap (materializedEntry c entry scope)).flatMap (·.roots c context) =
        entry.roots c { context with workspaceRoots := roots } from hro _ hres
  intro roots hro
  induction roots with
  | nil =>
    unfold FileSystemSandboxEntry.roots
    cases hp : entry.path with
    | path uri => simp [hp, FileSystemPath.workspaceScope] at hs
    | globPattern pattern => rfl
    | special value => cases value <;> simp [hp, FileSystemPath.workspaceScope] at hs; rfl
  | cons root roots ih => ?_
  obtain ⟨resolved, hre⟩ := isSome_iff_exists.mp (hro root (by simp))
  have hen : materializedEntry c entry scope root = some { entry with
      path := if scope.isGlob then .globPattern (resolved.inferredNativePathString c) else .path resolved } := by
    unfold materializedEntry
    rw [hre]
  rw [filterMap_cons_some hen, flatMap_cons, ih fun r hr => hro r (by simp [hr])]
  unfold FileSystemSandboxEntry.roots
  cases hp : entry.path with
  | path uri => simp [hp, FileSystemPath.workspaceScope] at hs
  | globPattern pattern =>
    obtain ⟨subpath, -, rfl⟩ := map_eq_some_iff.mp (hp ▸ hs)
    rfl
  | special value => ?_
  cases value with
  | projectRoots subpath => ?_
  | _ => simp [hp, FileSystemPath.workspaceScope] at hs
  obtain rfl : WorkspaceScope.mk subpath false = scope := by
    simpa [hp, FileSystemPath.workspaceScope] using hs
  rw [projectRoots_paths_cons (materializedPath_eq_some hre)]
  simp only [FileSystemPath.paths, Bool.false_eq_true, if_false, filter_cons]
  split <;> rfl

lemma roots_materialized_glob (hpa : entry.path = .globPattern pattern)
    {made : List FileSystemSandboxEntry} (h : materializeEntry c context.workspaceRoots entry = some made) :
    ∀ e ∈ made.flatMap (·.roots c context), e.2 = .deny := by
  rintro ⟨root, access⟩ hin
  obtain ⟨e, he, hr⟩ := mem_flatMap.mp hin
  obtain ⟨rfl, hp, -⟩ := mem_roots.mp hr
  unfold materializeEntry at h
  rw [hpa] at h
  split at h
  · cases h
    obtain rfl := mem_singleton.mp he
    rw [hpa] at hp
    cases hp
  rename_i hs
  obtain ⟨subpath, -, rfl⟩ := map_eq_some_iff.mp hs
  split at h
  · simp at h
  cases h
  obtain ⟨workspaceRoot, -, hm⟩ := mem_filterMap.mp he
  unfold materializedEntry at hm
  split at hm
  · cases hm
    cases hp
  split at hm
  · simp at hm
  · cases hm
    rfl

lemma onlyDenies_materialized {entries : List FileSystemSandboxEntry}
    (h : List.Forall₂ (fun entry es => materializeEntry c context.workspaceRoots entry = some es) entries ess)
    (hs : ∀ entry ∈ entries, (∀ pattern, entry.path ≠ .globPattern pattern) → Resolves c context.workspaceRoots entry) :
    OnlyDenies (ess.flatten.flatMap (·.roots c context)) (entries.flatMap (·.roots c context)) := by
  induction h with
  | nil => exact .refl _
  | @cons entry es rest ess hen _ ih => ?_
  rw [flatten_cons, flatMap_append, flatMap_cons]
  refine OnlyDenies.append ?_ (ih fun e he => hs e (by simp [he]))
  by_cases hg : ∃ pattern, entry.path = .globPattern pattern
  · obtain ⟨pattern, hp⟩ := hg
    have hn : entry.roots c context = [] := by
      unfold FileSystemSandboxEntry.roots
      rw [hp]
      rfl
    rw [hn]
    exact .of_deny (roots_materialized_glob hp hen)
  have hr := hs entry (by simp) (not_exists.mp hg)
  unfold materializeEntry at hen
  split at hen
  · cases hen
    rw [flatMap_cons, flatMap_nil, append_nil]
    exact .refl _
  rename_i scope hsc
  split at hen
  · simp at hen
  cases hen
  rw [roots_materialized hsc (hr scope hsc)]
  exact .refl _

lemma Scoped.onlyDenies (hs : Scoped c policy context.workspaceRoots)
    (h : policy.tryMaterializeProjectRootsWithPathUris c context.workspaceRoots = some materialized) :
    OnlyDenies (materialized.resolvedEntries c context) (policy.resolvedEntries c context) := by
  obtain ⟨_, he, rfl⟩ := tryMaterialize_eq_some h
  exact onlyDenies_materialized he hs

lemma kind_materialized (h : policy.tryMaterializeProjectRootsWithPathUris c context.workspaceRoots =
      some materialized) : materialized.kind = policy.kind := by
  obtain ⟨_, -, rfl⟩ := tryMaterialize_eq_some h
  rfl

lemma mem_flatten_of_forall₂ {f : α → Option (List β)} (h : List.Forall₂ (fun a bs => f a = some bs) as bss)
    (b : β) :
    b ∈ bss.flatten ↔ ∃ a ∈ as, ∃ bs, f a = some bs ∧ b ∈ bs := by
  induction h with
  | nil => simp
  | cons hf _ ih =>
    rw [flatten_cons, mem_append, exists_mem_cons_iff, ih, hf]
    simp

lemma exists_of_forall₂ (h : List.Forall₂ (fun a b => f a = some b) as bs) (ha : a ∈ as) :
    ∃ b, f a = some b := by
  induction h with
  | nil => cases ha
  | cons hf _ ih => ?_
  rcases mem_cons.mp ha with rfl | hr
  · exact ⟨_, hf⟩
  · exact ih hr

lemma mem_materialized (h : policy.tryMaterializeProjectRootsWithPathUris c context.workspaceRoots =
      some materialized) (made : FileSystemSandboxEntry) :
    made ∈ materialized.entries ↔
      ∃ entry ∈ policy.entries, ∃ es, materializeEntry c context.workspaceRoots entry = some es ∧ made ∈ es := by
  obtain ⟨_, he, rfl⟩ := tryMaterialize_eq_some h
  exact mem_flatten_of_forall₂ he made

lemma resolvedEntries_materialized (hre : ∀ entry ∈ policy.entries, Resolves c context.workspaceRoots entry)
    (h : policy.tryMaterializeProjectRootsWithPathUris c context.workspaceRoots = some materialized)
    (e : PathUri × FileSystemAccessMode) :
    e ∈ materialized.resolvedEntries c context ↔ e ∈ policy.resolvedEntries c context := by
  have hen : ∀ entry ∈ policy.entries, ∀ es, materializeEntry c context.workspaceRoots entry = some es →
      es.flatMap (·.roots c context) = entry.roots c context := by
    intro entry hin es hes
    unfold materializeEntry at hes
    split at hes
    · cases hes
      simp
    rename_i scope hs
    split at hes
    · simp at hes
    · cases hes
      exact roots_materialized hs (hre entry hin scope hs)
  rw [mem_resolvedEntries, mem_resolvedEntries]
  constructor
  · rintro ⟨made, hm, hr⟩
    obtain ⟨entry, hin, es, hes, hme⟩ := (mem_materialized h made).mp hm
    exact ⟨entry, hin, hen entry hin es hes ▸ mem_flatMap.mpr ⟨made, hme, hr⟩⟩
  rintro ⟨entry, hin, hr⟩
  obtain ⟨ess, he, -⟩ := tryMaterialize_eq_some h
  obtain ⟨es, hes⟩ := exists_of_forall₂ he hin
  rw [← hen entry hin es hes] at hr
  obtain ⟨made, hme, hr⟩ := mem_flatMap.mp hr
  exact ⟨made, (mem_materialized h made).mpr ⟨entry, hin, es, hes, hme⟩, hr⟩

/-! ## No symbol is left -/

lemma stripPrefix_of_take (h : text.take 2 ≠ "co".toList) :
    stripPrefix projectRootsGlobPatternPrefix text = none := by
  rw [eq_none_iff_forall_ne_some]
  intro rest hr
  obtain rfl := stripPrefix_eq_some.mp hr
  exact h rfl

lemma stripPrefix_native (h : (uri.lexicalDepth c).isSome) :
    stripPrefix projectRootsGlobPatternPrefix (uri.inferredNativePathString c) = none := by
  obtain ⟨_, hd⟩ := isSome_iff_exists.mp h
  obtain ⟨hp, convention, hc, -⟩ := lexicalDepth_eq_some_iff.mp hd
  have hb : uri.opaqueFallbackBytes c = none := by
    unfold isOpaque at hp
    simpa using hp
  unfold PathUri.inferredNativePathString toNativeText
  rw [hc, hb]
  apply stripPrefix_of_take
  have hu : uri.toText.take 2 = "fi".toList := rfl
  cases convention with
  | posix =>
    simp only [bind_some]
    unfold renderPosixPath
    split
    · simp [hu]
    · cases uri.url.segments <;> simp
  | windows => ?_
  simp only [bind_some]
  unfold renderWindowsPath
  split
  · simp [hu]
  split
  · split <;> simp [hu]
  split
  · split
    · unfold closeDriveRoot
      simp only [getD_some]
      split <;> simp_all
    · simp [hu]
  · simp [hu]

lemma validateGlobDirectory_depth (h : uri.validateGlobDirectory c convention = .ok ()) :
    (uri.lexicalDepth c).isSome := by
  unfold validateGlobDirectory at h
  obtain ⟨_, hp, -⟩ := Result.bind_eq_ok.mp h
  unfold validateConfigPath at hp
  split at hp
  · simp at hp
  split at hp
  · simp at hp
  rename_i hv
  simp only [Bool.or_eq_true, not_or, isNone_iff_eq_none, ← isSome_iff_ne_none] at hv
  exact hv.1.1

lemma materializedPath_startsWith (h : materializedPath c scope root = some resolved) :
    resolved.startsWith c root := by
  unfold materializedPath at h
  split at h
  · simp at h
  split at h
  · cases h
    exact startsWith_refl root
  unfold resolveScopedWorkspacePath at h
  obtain ⟨_, -, h⟩ := bind_eq_some_iff.mp h
  simp only at h
  split at h
  · simp at h
  · exact (filter_eq_some_iff.mp h).2

lemma materializedPath_glob_depth (hg : scope.isGlob)
    (h : materializedPath c scope root = some resolved) : (resolved.lexicalDepth c).isSome := by
  rw [lexicalDepth_of_startsWith (materializedPath_startsWith h)]
  unfold materializedPath at h
  split at h
  · simp at h
  rename_i hv
  rw [hg, Bool.true_and] at hv
  rcases hc : root.inferPathConvention c with _ | convention
  · simp [hc] at hv
  cases hok : root.validateGlobDirectory c convention with
  | error e => simp [hc, hok, Except.toOption] at hv
  | ok => exact validateGlobDirectory_depth hok

lemma workspaceScope_materialized
    (h : policy.tryMaterializeProjectRootsWithPathUris c context.workspaceRoots = some materialized)
    (hm : made ∈ materialized.entries) : made.path.workspaceScope = none := by
  obtain ⟨entry, -, es, hes, hme⟩ := (mem_materialized h made).mp hm
  unfold materializeEntry at hes
  split at hes
  · rename_i hs
    cases hes
    obtain rfl := mem_singleton.mp hme
    exact hs
  split at hes
  · simp at hes
  cases hes
  obtain ⟨root, -, hr⟩ := mem_filterMap.mp hme
  unfold materializedEntry at hr
  split at hr
  · rename_i hre
    cases hr
    split
    · rename_i hg
      exact congrArg (Option.map fun text => WorkspaceScope.mk (some text) true)
        (stripPrefix_native (materializedPath_glob_depth hg hre))
    · rfl
  split at hr
  · simp at hr
  · cases hr
    rfl

/-! ## Denials -/

def globTexts (c : UrlCrates) (context : FileSystemSandboxPolicyContext) (entry : FileSystemSandboxEntry) : List Text :=
  match entry.path with
  | .globPattern pattern => match stripPrefix projectRootsGlobPatternPrefix pattern with
    | none => [pattern]
    | some subpath => context.workspaceRoots.filterMap fun root =>
      (root.join c subpath).toOption.map (·.inferredNativePathString c)
  | _ => []

/-- The entry denies the path, by root or by pattern. -/
def EntryDenies (c : UrlCrates) (g : Globset) (context : FileSystemSandboxPolicyContext) (path : PathUri)
    (entry : FileSystemSandboxEntry) : Prop :=
  entry.access = .deny ∧
    ((∃ root, (root, .deny) ∈ entry.roots c context ∧ path.startsWith c root = true) ∨
      ∃ pattern ∈ globTexts c context entry, PatternDenies c g context path pattern)

/-- A denial that names no workspace root. -/
def DeniesConcretely (c : UrlCrates) (g : Globset) (policy : FileSystemSandboxPolicy)
    (context : FileSystemSandboxPolicyContext) (path : PathUri) : Prop :=
  (∃ root, (root, .deny) ∈ policy.resolvedEntries c context ∧ path.startsWith c root = true) ∨
    ∃ entry ∈ policy.entries, ∃ pattern, denyPattern entry = some pattern ∧ PatternDenies c g context path pattern

lemma mem_globTexts (h : pattern ∈ globTexts c context entry) :
    entry.path = .globPattern pattern ∧ entry.path.workspaceScope = none ∨
      ∃ subpath, entry.path.workspaceScope = some ⟨some subpath, true⟩ ∧ ∃ root ∈ context.workspaceRoots,
        ∃ uri, root.join c subpath = .ok uri ∧ pattern = uri.inferredNativePathString c := by
  unfold globTexts at h
  split at h
  · rename_i ht
    split at h
    · rename_i hno
      obtain rfl := mem_singleton.mp h
      refine .inl ⟨ht, ?_⟩
      unfold FileSystemPath.workspaceScope
      rw [ht]
      simp only [hno, map_none]
    rename_i subpath hs
    obtain ⟨root, hr, hp⟩ := mem_filterMap.mp h
    obtain ⟨uri, hu, hn⟩ := map_eq_some_iff.mp hp
    refine .inr ⟨subpath, ?_, root, hr, uri, ?_, hn.symm⟩
    · unfold FileSystemPath.workspaceScope
      rw [ht]
      simp only [hs, map_some]
    rcases hj : root.join c subpath with e | joined
    · simp [hj, Except.toOption] at hu
    rw [hj] at hu
    rw [some.inj hu]
  · cases h

section Materialized

variable (h : policy.tryMaterializeProjectRootsWithPathUris c context.workspaceRoots = some materialized)
  (hen : entry ∈ policy.entries)

include h hen

lemma materializeEntry_of_some (hs : entry.path.workspaceScope = some scope)
    (hr : root ∈ context.workspaceRoots) (hm : materializedEntry c entry scope root = some made) :
    made ∈ materialized.entries := by
  obtain ⟨_, he, -⟩ := tryMaterialize_eq_some h
  obtain ⟨es, hes⟩ := exists_of_forall₂ he hen
  refine (mem_materialized h made).mpr ⟨entry, hen, es, hes, ?_⟩
  unfold materializeEntry at hes
  rw [hs] at hes
  simp only at hes
  split at hes
  · simp at hes
  · cases hes
    exact mem_filterMap.mpr ⟨root, hr, hm⟩

lemma deniesConcretely_materialized (hsc : Scoped c policy context.workspaceRoots)
    (hre : Resolves c context.workspaceRoots entry) (hde : EntryDenies c g context path entry) :
    DeniesConcretely c g materialized context path := by
  obtain ⟨hd, ⟨root, hro, hh⟩ | ⟨pattern, hp, hm⟩⟩ := hde
  · exact .inl ⟨root, (hsc.onlyDenies h).subset (mem_resolvedEntries.mpr ⟨entry, hen, hro⟩), hh⟩
  right
  rcases mem_globTexts hp with ⟨hpa, hs⟩ | ⟨subpath, hs, root, hro, uri, hj, rfl⟩
  · refine ⟨entry, (mem_materialized h entry).mpr ⟨entry, hen, [entry], ?_, by simp⟩, pattern, ?_, hm⟩
    · unfold materializeEntry
      rw [hs]
    · unfold denyPattern
      rw [hd, hpa]
  obtain ⟨resolved, hr⟩ := isSome_iff_exists.mp (hre _ hs root hro)
  have hu : resolved = uri := by
    rcases materializedPath_eq_some hr with ⟨-, hn⟩ | ⟨text, ht, hok⟩
    · simp at hn
    · obtain rfl : subpath = text := some.inj ht
      exact Except.ok.inj (hok.symm.trans hj)
  subst hu
  refine ⟨{ entry with path := .globPattern (resolved.inferredNativePathString c) }, ?_, _, ?_, hm⟩
  · refine materializeEntry_of_some h hen hs hro ?_
    unfold materializedEntry
    rw [hr]
    rfl
  · unfold denyPattern
    rw [hd]

end Materialized

/-- What names a place of the workspace roots does not become an entry for the whole disk. -/
lemma hasRootAccess_materialized (h : policy.tryMaterializeProjectRootsWithPathUris c context.workspaceRoots =
    some materialized) (hr : materialized.hasRootAccess access = true) : policy.hasRootAccess access = true := by
  unfold hasRootAccess at hr ⊢
  rw [kind_materialized h, Bool.and_eq_true, List.any_eq_true] at hr
  rw [Bool.and_eq_true, List.any_eq_true]
  obtain ⟨hk, made, hm, hp⟩ := hr
  obtain ⟨entry, hen, es, hes, hin⟩ := (mem_materialized h made).mp hm
  unfold materializeEntry at hes
  rcases hs : entry.path.workspaceScope with _ | scope
  · simp only [hs, some.injEq] at hes
    subst hes
    exact ⟨hk, entry, hen, mem_singleton.mp hin ▸ hp⟩
  simp only [hs, ite_none_left_eq_some, some.injEq] at hes
  obtain ⟨-, rfl⟩ := hes
  obtain ⟨root, -, hro⟩ := mem_filterMap.mp hin
  unfold materializedEntry at hro
  split at hro
  · cases hro
    split at hp <;> simp at hp
  · obtain ⟨-, heq⟩ := ite_none_left_eq_some.mp hro
    cases heq
    simp at hp

/-! ## Access -/

lemma resolveAccess_no_entries : (restricted []).resolveAccess c path context = .deny := by
  by_contra hne
  have hg := (resolveAccess_eq_iff hne).mp rfl
  unfold Grants at hg
  obtain ⟨-, -, _, _, hin, -⟩ := hg
  cases hin

/-- **Concrete workspace roots never widen access** when the paths below the workspace roots resolve inside them,
except that what narrows a grant of the whole disk may be gone. -/
theorem materialized_at_most (c : UrlCrates) (g : Globset) (policy : FileSystemSandboxPolicy)
    (context : FileSystemSandboxPolicyContext) (path : PathUri)
    (hscoped : Scoped c policy context.workspaceRoots) :
    let materialized := policy.materializeProjectRootsWithPathUris c context.workspaceRoots
    ((materialized.resolveAccess c path context).canRead = true →
      (policy.resolveAccess c path context).canRead = true) ∧
    ((policy.hasRootAccess FileSystemAccessMode.canWrite = true →
        materialized.hasFullDiskWriteAccessWithContext c context = true →
        policy.hasFullDiskWriteAccessWithContext c context = true) →
      materialized.canWritePath c path context = true → policy.canWritePath c path context = true) ∧
    ((∃ entry ∈ policy.entries, Resolves c context.workspaceRoots entry ∧ EntryDenies c g context path entry) →
      (materialized.resolveAccess c path context).canRead = false ∨
        DeniesConcretely c g materialized context path) := by
  unfold materializeProjectRootsWithPathUris
  rcases h : policy.tryMaterializeProjectRootsWithPathUris c context.workspaceRoots with _ | materialized
  · -- Without a home directory all grants are gone.
    have hd : (restricted []).resolveAccess c path context = .deny := resolveAccess_no_entries
    simp only [getD_none]
    refine ⟨fun hre => ?_, fun _ hw => ?_, fun _ => .inl (by rw [hd]; rfl)⟩
    · rw [hd] at hre
      cases hre
    have hg := (canWritePath_iff.mp hw).1
    rw [← resolveAccess_eq_iff (by decide), hd] at hg
    cases hg
  have ho := hscoped.onlyDenies h
  refine ⟨ho.canRead (kind_materialized h), fun hf => ho.canWritePath (kind_materialized h) fun hw => ?_, ?_⟩
  · by_cases hr : materialized.hasRootAccess FileSystemAccessMode.canWrite = true
    · exact hf (hasRootAccess_materialized h hr) hw
    unfold hasFullDiskWriteAccessWithContext hasFullDiskWriteAccessForConvention at hw ⊢
    rw [kind_materialized h] at hw
    cases hk : policy.kind <;> simp_all
  rintro ⟨entry, hen, hr, hde⟩
  exact .inr (deniesConcretely_materialized h hen hscoped hr hde)

example : let policy := restricted [{ path := .special .root, access := .write },
      { path := .special (.projectRoots none), access := .read }]
    let context : FileSystemSandboxPolicyContext := ⟨plainUri "/work", [], none, none⟩
    policy.canWritePath .plain (plainUri "/.git") context = false ∧
      (policy.materializeProjectRootsWithPathUris .plain []).canWritePath .plain (plainUri "/.git") context = true := by
  decide

def repoContext : FileSystemSandboxPolicyContext :=
  ⟨plainUri "/work/repo", [plainUri "/work/repo"], none, none⟩

def outsideDenied : FileSystemSandboxPolicy := restricted
  [{ path := .special .root, access := .read },
    { path := .special (.projectRoots (some "../secret".toList)), access := .deny }]

theorem outside_denial_lifted : outsideDenied.resolveAccess .plain (plainUri "/work/secret/key") repoContext = .deny ∧
    (outsideDenied.materializeProjectRootsWithPathUris .plain repoContext.workspaceRoots).resolveAccess .plain
      (plainUri "/work/secret/key") repoContext = .read := by
  decide

def insideDenied : FileSystemSandboxPolicy := restricted
  [{ path := .special .root, access := .read },
    { path := .special (.projectRoots (some "secret".toList)), access := .deny }]

lemma insideDenied_resolves (hen : entry ∈ insideDenied.entries) :
    Resolves .plain repoContext.workspaceRoots entry := by
  intro scope hs root hr
  obtain rfl := mem_singleton.mp hr
  rcases mem_pair.mp hen with rfl | rfl
  · simp [FileSystemPath.workspaceScope] at hs
  · cases hs
    decide

theorem inside_denial_kept :
    let materialized := insideDenied.materializeProjectRootsWithPathUris .plain repoContext.workspaceRoots
    (materialized.resolveAccess .plain (plainUri "/work/repo/secret/key") repoContext).canRead = false ∨
      DeniesConcretely .plain .plain materialized repoContext (plainUri "/work/repo/secret/key") := by
  have hen : { path := .special (.projectRoots (some "secret".toList)), access := .deny } ∈ insideDenied.entries := by
    decide
  refine (materialized_at_most .plain .plain insideDenied repoContext (plainUri "/work/repo/secret/key")
    fun entry hin _ => insideDenied_resolves hin).2.2 ⟨_, hen, insideDenied_resolves hen, rfl, .inl ?_⟩
  exact ⟨plainUri "/work/repo/secret", by decide⟩

end FileSystemSandboxPolicy

end Codex.Permissions
