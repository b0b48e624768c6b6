import Codex.Result
import Codex.PathUri.ConfigPath
import Codex.Permissions.Metadata

/-! # Denied reads: `ReadDenyMatcher` of `protocol/src/permissions.rs`, over the `globset` crate -/

namespace Codex.Permissions

open Codex.Text List Result

structure GlobBuilder where
  literalSeparator : Bool
  allowUnclosedClass : Bool
  backslashEscape : Bool
  caseInsensitive : Bool
deriving DecidableEq

/-- `build` and `compile_matcher` of the crate: an error text, or which paths match. -/
structure Globset where
  build : GlobBuilder → Text → Except Text (List UInt8 → Bool)

def Globset.plain : Globset := ⟨fun _ pattern => .ok fun path => path = pattern.asBytes⟩

def withSlashes (path : Text) : Text := path.map fun c => if c = '\\' then '/' else c

def buildGlobMatcher (g : Globset) (pattern : Text) (convention : PathConvention) : Except Text (List UInt8 → Bool) :=
  let pattern := if convention = .windows then withSlashes pattern else pattern
  g.build ⟨true, true, convention = .posix, convention = .windows⟩ pattern

inductive InvalidDenyReadGlobBehavior where
  | failClosed
  | returnError
deriving DecidableEq

/-- The error texts of matchers, by what they say. -/
inductive DenyReadError where
  | withoutExecutorHome (pattern : Text)
  | globDirectory (error : ConfigPathError)
  | unresolved (pattern : Text)
  | invalidPattern (pattern error : Text)
  | contextPath (message : Text)
deriving DecidableEq

structure PreparedReadDenyMatcher where
  deniedRoots : List PathUri
  denyReadMatchers : List (List UInt8 → Bool)
  invalidPattern : Bool

namespace FileSystemSandboxPolicy

/-! ## Globs -/

def homeRelativePattern (convention : PathConvention) (pattern : Text) : Option Text :=
  (stripPrefix "~/" pattern).or (if convention = .windows then stripPrefix "~\\" pattern else none)

section

variable (c : UrlCrates)

def denyReadGlob (context : FileSystemSandboxPolicyContext) (pattern : Text) :
    Except DenyReadError Text := do
  let convention := if context.cwd.inferPathConvention c = some .windows then .windows else .posix
  let (root, pattern) ← match homeRelativePattern convention pattern with
    | some suffix => match context.userHomeDir with
      | some home => .ok (home, suffix.dropWhile convention.isSeparator)
      | none => .error (.withoutExecutorHome pattern)
    | none => .ok (context.cwd, pattern)
  if (PathUri.fromAbsoluteNativePath c pattern convention).isNone then
    (root.validateGlobDirectory c convention).mapError .globDirectory
  match root.join c pattern with
  | .ok path => .ok (path.inferredNativePathString c)
  | .error _ => .error (.unresolved pattern)

def denyPattern (entry : FileSystemSandboxEntry) : Option Text :=
  match entry.access, entry.path with
  | .deny, .globPattern pattern => some pattern
  | _, _ => none

section

variable (policy : FileSystemSandboxPolicy) (context : FileSystemSandboxPolicyContext)

def denyReadGlobs : Except DenyReadError (List Text) :=
  (policy.entries.filterMap denyPattern).mapM (denyReadGlob c context)

/-! ## The matcher -/

def isFileSystemRoot (context : FileSystemSandboxPolicyContext) (root : PathUri) : Bool :=
  (fileSystemRoot c context).any fun fileSystemRoot =>
    root.startsWith c fileSystemRoot && fileSystemRoot.startsWith c root

def deniedRoots : List PathUri :=
  ((policy.resolvedEntries c context).filter fun (root, access) =>
    access = .deny && !isFileSystemRoot c context root).map (·.1)

end

def compileGlobs (g : Globset) (convention : PathConvention) (behavior : InvalidDenyReadGlobBehavior) :
    List Text → Except DenyReadError (List (List UInt8 → Bool) × Bool)
  | [] => .ok ([], false)
  | pattern :: patterns =>
    match buildGlobMatcher g pattern convention with
    | .ok matcher => do
      let (matchers, invalid) ← compileGlobs g convention behavior patterns
      return (matcher :: matchers, invalid)
    | .error err => match behavior with
      | .failClosed => do
        let (matchers, _) ← compileGlobs g convention behavior patterns
        return (matchers, true)
      | .returnError => .error (.invalidPattern pattern err)

def prepareDenyReadMatcher (g : Globset) (policy : FileSystemSandboxPolicy)
    (context : FileSystemSandboxPolicyContext) (behavior : InvalidDenyReadGlobBehavior) :
    Except DenyReadError PreparedReadDenyMatcher :=
  let deniedRoots := policy.deniedRoots c context
  match context.cwd.inferPathConvention c with
  | none => .ok ⟨deniedRoots, [], true⟩
  | some convention =>
    match policy.denyReadGlobs c context with
    | .error err => match behavior with
      | .failClosed => .ok ⟨deniedRoots, [], true⟩
      | .returnError => .error err
    | .ok patterns => do
      let (matchers, invalid) ← compileGlobs g convention behavior patterns
      return ⟨deniedRoots, matchers, invalid⟩

def globCandidate (path : PathUri) : PathConvention → List UInt8
  | .posix => path.decodedPathBytes c
  | .windows => (withSlashes (path.inferredNativePathString c)).asBytes

def matchesPreparedReadDeny (path : PathUri) (context : FileSystemSandboxPolicyContext)
    (prepared : PreparedReadDenyMatcher) : Bool :=
  match context.cwd.inferPathConvention c with
  | none => true
  | some convention =>
    path.inferPathConvention c ≠ some convention || (path.lexicalDepth c).isNone ||
      (context.cwd.lexicalDepth c).isNone || prepared.invalidPattern ||
      prepared.deniedRoots.any (fun root => path.startsWith c root) ||
      prepared.denyReadMatchers.any fun matcher => matcher (globCandidate c path convention)

end

end FileSystemSandboxPolicy

/-- A matcher for the paths of the executor; those of the host are not modelled. -/
structure ReadDenyMatcher where
  prepared : PreparedReadDenyMatcher

namespace ReadDenyMatcher

def fromContext (c : UrlCrates) (g : Globset) (policy : FileSystemSandboxPolicy)
    (context : FileSystemSandboxPolicyContext) : Option ReadDenyMatcher :=
  if policy.entries.any (·.access = .deny) then
    (policy.prepareDenyReadMatcher c g context .failClosed).toOption.map ReadDenyMatcher.mk
  else none

def isReadDeniedUri (c : UrlCrates) (matcher : ReadDenyMatcher) (path : PathUri)
    (context : FileSystemSandboxPolicyContext) : Bool :=
  FileSystemSandboxPolicy.matchesPreparedReadDeny c path context matcher.prepared

end ReadDenyMatcher

/-! ## What is denied -/

namespace FileSystemSandboxPolicy

variable {c : UrlCrates} {g : Globset} {policy : FileSystemSandboxPolicy}
  {context : FileSystemSandboxPolicyContext} {path : PathUri}

def Comparable (c : UrlCrates) (context : FileSystemSandboxPolicyContext) (path : PathUri) : Prop :=
  path.inferPathConvention c = context.cwd.inferPathConvention c ∧ (path.lexicalDepth c).isSome ∧
    (context.cwd.lexicalDepth c).isSome

/-- The pattern matches the path, if it compiles. -/
def PatternDenies (c : UrlCrates) (g : Globset) (context : FileSystemSandboxPolicyContext) (path : PathUri)
    (pattern : Text) : Prop :=
  ∀ convention, context.cwd.inferPathConvention c = some convention →
    ∀ glob, denyReadGlob c context pattern = .ok glob → ∀ matcher, buildGlobMatcher g glob convention = .ok matcher →
      matcher (globCandidate c path convention) = true

def ReadDenied (c : UrlCrates) (g : Globset) (policy : FileSystemSandboxPolicy)
    (context : FileSystemSandboxPolicyContext) (path : PathUri) : Prop :=
  Comparable c context path →
    (∃ root ∈ policy.deniedRoots c context, path.startsWith c root = true) ∨
      ∃ entry ∈ policy.entries, ∃ pattern, denyPattern entry = some pattern ∧ PatternDenies c g context path pattern

lemma compileGlobs_failClosed (convention : PathConvention) (patterns : List Text) :
    ∃ compiled, compileGlobs g convention .failClosed patterns = .ok compiled := by
  induction patterns with
  | nil => exact ⟨_, rfl⟩
  | cons pattern patterns ih => ?_
  obtain ⟨compiled, hc⟩ := ih
  unfold compileGlobs
  rw [hc]
  split <;> exact ⟨_, rfl⟩

variable {behavior : InvalidDenyReadGlobBehavior} {prepared : PreparedReadDenyMatcher} {root : PathUri}
  {access : FileSystemAccessMode}

variable {convention : PathConvention} {f : FileSystemSandboxEntry → Bool}

lemma compileGlobs_denies_iff (candidate : List UInt8)
    (h : compileGlobs g convention behavior patterns = .ok compiled) :
    (compiled.2 ∨ ∃ matcher ∈ compiled.1, matcher candidate) ↔
      ∃ pattern ∈ patterns, ∀ matcher, buildGlobMatcher g pattern convention = .ok matcher →
        matcher candidate := by
  induction patterns generalizing compiled with
  | nil =>
    cases h
    simp
  | cons pattern patterns ih => ?_
  unfold compileGlobs at h
  split at h
  · rename_i hb
    obtain ⟨rest, hr, hc⟩ := bind_eq_ok.mp h
    cases hc
    rw [exists_mem_cons_iff, exists_mem_cons_iff, ← ih hr, or_left_comm]
    simp only [hb, Except.ok.injEq, forall_eq']
  rename_i hb
  split at h
  · obtain ⟨rest, hr, hc⟩ := bind_eq_ok.mp h
    cases hc
    simp [hb]
  · simp at h

lemma lexicalDepth_of_no_convention {uri : PathUri} (h : uri.inferPathConvention c = none) :
    uri.lexicalDepth c = none := by
  unfold PathUri.lexicalDepth
  rw [h]
  split <;> rfl

lemma denyPattern_eq_some :
    denyPattern entry = some pattern ↔ entry.access = .deny ∧ entry.path = .globPattern pattern := by
  obtain ⟨path, access, _⟩ := entry
  unfold denyPattern
  cases access <;> cases path <;> simp

lemma exists_pattern_iff {p : Text → Prop} : (∃ pattern ∈ policy.entries.filterMap denyPattern, p pattern) ↔
    ∃ entry ∈ policy.entries, ∃ pattern, denyPattern entry = some pattern ∧ p pattern := by
  simp only [mem_filterMap]
  constructor
  · rintro ⟨pattern, ⟨entry, hin, hpa⟩, hp⟩
    exact ⟨entry, hin, pattern, hpa, hp⟩
  · rintro ⟨entry, hin, pattern, hpa, hp⟩
    exact ⟨pattern, ⟨entry, hin, hpa⟩, hp⟩

section Prepared

variable (h : policy.prepareDenyReadMatcher c g context behavior = .ok prepared)

include h

lemma prepared_denies_iff (hcw : context.cwd.inferPathConvention c = some convention) :
    (prepared.invalidPattern ∨ ∃ matcher ∈ prepared.denyReadMatchers, matcher (globCandidate c path convention)) ↔
      ∃ entry ∈ policy.entries, ∃ pattern, denyPattern entry = some pattern ∧
        PatternDenies c g context path pattern := by
  rw [← exists_pattern_iff]
  unfold PatternDenies
  unfold prepareDenyReadMatcher at h
  rw [hcw] at h ⊢
  simp only [Option.some.injEq, forall_eq'] at h ⊢
  split at h
  · rename_i he
    split at h
    · cases h
      obtain ⟨pattern, hin, hp⟩ := exists_error_of_mapM he
      simp only [true_or, true_iff]
      exact ⟨pattern, hin, fun glob hg => absurd (hp.symm.trans hg) (by simp)⟩
    · simp at h
  rename_i hpa
  obtain ⟨compiled, hc, hpr⟩ := bind_eq_ok.mp h
  cases hpr
  rw [compileGlobs_denies_iff _ hc]
  constructor
  · rintro ⟨glob, hin, hm⟩
    obtain ⟨pattern, hp, hg⟩ := (mem_of_mapM_ok hpa glob).mp hin
    refine ⟨pattern, hp, fun glob' hg' => ?_⟩
    obtain rfl := Except.ok.inj (hg.symm.trans hg')
    exact hm
  rintro ⟨pattern, hp, hm⟩
  cases hg : denyReadGlob c context pattern with
  | ok glob => exact ⟨glob, (mem_of_mapM_ok hpa glob).mpr ⟨pattern, hp, hg⟩, hm glob hg⟩
  | error err =>
    obtain ⟨glob, -, hok⟩ := ok_of_mapM_ok hpa pattern hp
    exact absurd (hg.symm.trans hok) (by simp)

lemma deniedRoots_prepared : prepared.deniedRoots = policy.deniedRoots c context := by
  unfold prepareDenyReadMatcher at h
  split at h
  · rw [← Except.ok.inj h]
  split at h
  · split at h
    · rw [← Except.ok.inj h]
    · simp at h
  · obtain ⟨_, -, hp⟩ := bind_eq_ok.mp h
    rw [← Except.ok.inj hp]

lemma matchesPreparedReadDeny_iff :
    matchesPreparedReadDeny c path context prepared ↔ ReadDenied c g policy context path := by
  unfold matchesPreparedReadDeny ReadDenied Comparable
  split
  · rename_i hc
    simp [lexicalDepth_of_no_convention hc]
  rename_i hc
  rw [← prepared_denies_iff h hc, ← deniedRoots_prepared h, hc]
  simp only [Bool.or_eq_true, decide_eq_true_eq, any_eq_true, Option.isNone_iff_eq_none,
    Option.isSome_iff_ne_none, imp_iff_not_or, not_and_or, not_not, or_assoc]
  rw [or_left_comm (a := prepared.invalidPattern)]

end Prepared

lemma prepareDenyReadMatcher_failClosed :
    ∃ prepared, policy.prepareDenyReadMatcher c g context .failClosed = .ok prepared := by
  unfold prepareDenyReadMatcher
  split
  · exact ⟨_, rfl⟩
  rename_i convention hcw
  split
  · exact ⟨_, rfl⟩
  rename_i patterns hp
  obtain ⟨compiled, hc⟩ := compileGlobs_failClosed (g := g) convention patterns
  rw [hc]
  exact ⟨_, rfl⟩

lemma fromContext_denies_iff : (∃ matcher, ReadDenyMatcher.fromContext c g policy context = some matcher ∧
        matcher.isReadDeniedUri c path context) ↔
      (∃ entry ∈ policy.entries, entry.access = .deny) ∧ ReadDenied c g policy context path := by
  obtain ⟨prepared, hp⟩ : ∃ prepared, policy.prepareDenyReadMatcher c g context .failClosed = .ok prepared :=
    prepareDenyReadMatcher_failClosed
  have ha : policy.entries.any (·.access = .deny) ↔ ∃ entry ∈ policy.entries, entry.access = .deny := by
    simp
  unfold ReadDenyMatcher.fromContext ReadDenyMatcher.isReadDeniedUri
  rw [hp, ← ha, ← matchesPreparedReadDeny_iff hp]
  by_cases hd : policy.entries.any (·.access = .deny)
  · simp [Except.toOption]
  · simp [hd]

/-! ## One denial more -/

lemma mem_roots {entry : FileSystemSandboxEntry} :
    (root, access) ∈ entry.roots c context ↔ access = entry.access ∧ root ∈ entry.path.paths c context ∧
      root.inferPathConvention c = context.cwd.inferPathConvention c := by
  unfold FileSystemSandboxEntry.roots
  simp only [mem_map, mem_filter, decide_eq_true_eq, Prod.mk.injEq]
  constructor
  · rintro ⟨_, ⟨hin, hc⟩, rfl, rfl⟩
    exact ⟨rfl, hin, hc⟩
  · rintro ⟨rfl, hin, hc⟩
    exact ⟨root, ⟨hin, hc⟩, rfl, rfl⟩

lemma mem_resolvedEntries : (root, access) ∈ policy.resolvedEntries c context ↔
      ∃ entry ∈ policy.entries, (root, access) ∈ entry.roots c context :=
  mem_flatMap

lemma mem_deniedRoots : root ∈ policy.deniedRoots c context ↔
    (root, .deny) ∈ policy.resolvedEntries c context ∧ isFileSystemRoot c context root = false := by
  unfold deniedRoots
  rw [mem_map]
  constructor
  · rintro ⟨⟨_, _⟩, hin, rfl⟩
    simp only [mem_filter, Bool.and_eq_true, decide_eq_true_eq, Bool.not_eq_true'] at hin
    obtain ⟨hin, rfl, hr⟩ := hin
    exact ⟨hin, hr⟩
  · rintro ⟨hin, hr⟩
    exact ⟨(root, .deny), mem_filter.mpr ⟨hin, by simp [hr]⟩, rfl⟩

structure OnlyDenies (roots' roots : List (PathUri × FileSystemAccessMode)) : Prop where
  subset : roots ⊆ roots'
  of_ne : ∀ {root access}, access ≠ .deny → (root, access) ∈ roots' → (root, access) ∈ roots
  writable : roots'.filter (·.2.canWrite) = roots.filter (·.2.canWrite)

lemma OnlyDenies.refl (roots : List (PathUri × FileSystemAccessMode)) : OnlyDenies roots roots :=
  ⟨fun _ => id, fun _ => id, rfl⟩

lemma OnlyDenies.append (h₁ : OnlyDenies roots₁' roots₁) (h₂ : OnlyDenies roots₂' roots₂) :
    OnlyDenies (roots₁' ++ roots₂') (roots₁ ++ roots₂) where
  subset := by
    rw [append_subset]
    exact ⟨fun _ h => mem_append_left _ (h₁.subset h), fun _ h => mem_append_right _ (h₂.subset h)⟩
  of_ne hne hin := by
    rcases mem_append.mp hin with hin | hin
    · exact mem_append_left _ (h₁.of_ne hne hin)
    · exact mem_append_right _ (h₂.of_ne hne hin)
  writable := by rw [filter_append, filter_append, h₁.writable, h₂.writable]

lemma OnlyDenies.of_deny (h : ∀ e ∈ roots, e.2 = .deny) : OnlyDenies roots [] where
  subset := by simp
  of_ne hne hin := absurd (h _ hin) hne
  writable := by
    rw [filter_nil, filter_eq_nil_iff]
    intro e he
    rw [h e he]
    decide

variable {added : FileSystemSandboxPolicy}

section Denying

variable (h : OnlyDenies (added.resolvedEntries c context) (policy.resolvedEntries c context))
  (hk : added.kind = policy.kind)

include h hk

lemma OnlyDenies.grants (hne : access ≠ .deny) (hg : Grants c added context path access) :
    Grants c policy context path access := by
  unfold Grants at hg ⊢
  rw [hk] at hg
  by_cases hr : policy.kind = .restricted
  · rw [if_pos hr] at hg ⊢
    obtain ⟨hc, hro, root, depth, hin, hd, hh, hm⟩ := hg
    refine ⟨hc, fun e he => hro e (h.subset he), root, depth, h.of_ne hne hin, hd, hh, ?_⟩
    exact fun e he => hm e (h.subset he)
  · rw [if_neg hr] at hg ⊢
    exact hg

lemma OnlyDenies.canRead (hr : (added.resolveAccess c path context).canRead) :
    (policy.resolveAccess c path context).canRead := by
  have hne : added.resolveAccess c path context ≠ .deny := by simpa [FileSystemAccessMode.canRead] using hr
  rw [(resolveAccess_eq_iff hne).mpr (h.grants hk hne ((resolveAccess_eq_iff hne).mp rfl))]
  exact hr

lemma OnlyDenies.canWritePath (hd : added.hasFullDiskWriteAccessWithContext c context →
      policy.hasFullDiskWriteAccessWithContext c context)
    (hw : added.canWritePath c path context) : policy.canWritePath c path context := by
  obtain ⟨hg, hdi⟩ := canWritePath_iff.mp hw
  refine canWritePath_iff.mpr ⟨h.grants hk (by decide) hg, fun hn dir hdir => ?_⟩
  have hn' : added.hasFullDiskWriteAccessWithContext c context = false := by
    rw [Bool.eq_false_iff] at hn ⊢
    exact fun hf => hn (hd hf)
  have hdir' : dir ∈ added.firstDir c path context := by
    unfold firstDir dirOf at hdir ⊢
    rw [h.writable]
    exact hdir
  obtain ⟨root, hin, hh, hb⟩ := hdi hn' dir hdir'
  exact ⟨root, h.of_ne (by decide) hin, hh, hb⟩

end Denying

/-- One entry more, anywhere. -/
def Adds (policy : FileSystemSandboxPolicy) (entry : FileSystemSandboxEntry) (added : FileSystemSandboxPolicy) : Prop :=
  ∃ before after, policy.entries = before ++ after ∧ added = { policy with entries := before ++ entry :: after }

variable {entry : FileSystemSandboxEntry}

section Added

variable (h : Adds policy entry added)

include h

lemma Adds.mem_iff (e : FileSystemSandboxEntry) :
    e ∈ added.entries ↔ e = entry ∨ e ∈ policy.entries := by
  obtain ⟨_, _, he, rfl⟩ := h
  rw [he]
  simp only [mem_append, mem_cons]
  rw [or_left_comm]

lemma Adds.kind_eq : added.kind = policy.kind := by
  obtain ⟨_, _, -, rfl⟩ := h
  rfl

lemma Adds.onlyDenies (hd : entry.access = .deny) :
    OnlyDenies (added.resolvedEntries c context) (policy.resolvedEntries c context) := by
  obtain ⟨_, _, he, rfl⟩ := h
  unfold resolvedEntries
  rw [he, flatMap_append, flatMap_append, flatMap_cons]
  refine (OnlyDenies.refl _).append ?_
  refine OnlyDenies.append (.of_deny ?_) (.refl _)
  rintro ⟨_, access⟩ hin
  exact (mem_roots.mp hin).1.trans hd

lemma Adds.any_of_imp (hi : ∀ e, f e → f' e) (ha : policy.entries.any f) :
    added.entries.any f' := by
  obtain ⟨e, he, hf⟩ := any_eq_true.mp ha
  exact any_eq_true.mpr ⟨e, (h.mem_iff e).mpr (.inr he), hi e hf⟩

lemma Adds.any_eq (hen : f entry = false) :
    added.entries.any f = policy.entries.any f := by
  rw [Bool.eq_iff_iff, any_eq_true, any_eq_true]
  constructor
  · rintro ⟨e, he, hf⟩
    rcases (h.mem_iff e).mp he with rfl | hin
    · exact absurd (hen.symm.trans hf) (by simp)
    · exact ⟨e, hin, hf⟩
  · rintro ⟨e, he, hf⟩
    exact ⟨e, (h.mem_iff e).mpr (.inr he), hf⟩

lemma Adds.hasRootAccess_eq (he : predicate entry.access = false) :
    added.hasRootAccess predicate = policy.hasRootAccess predicate := by
  unfold hasRootAccess
  rw [h.kind_eq, h.any_eq]
  rw [he, Bool.and_false]

lemma Adds.fullDiskRead (hde : entry.access = .deny)
    (convention : Option PathConvention) (hf : added.hasFullDiskReadAccessForConvention convention) :
    policy.hasFullDiskReadAccessForConvention convention := by
  unfold hasFullDiskReadAccessForConvention at hf ⊢
  rw [h.kind_eq] at hf
  cases hk : policy.kind with
  | unrestricted | externalSandbox => rfl
  | restricted => ?_
  rw [hk] at hf
  simp only [Bool.and_eq_true, Bool.not_eq_true'] at hf ⊢
  refine ⟨?_, ?_⟩
  · rw [← h.hasRootAccess_eq (by rw [hde]; rfl)]
    exact hf.1
  rw [Bool.eq_false_iff]
  intro hd
  unfold hasDeniedReadRestrictionsForConvention at hf hd
  rw [h.kind_eq, hk] at hf
  rw [hk] at hd
  rw [h.any_of_imp (fun _ => id) hd] at hf
  exact absurd hf.2 (by simp)

lemma Adds.narrowsWrite_eq (hd : entry.access = .deny) :
    added.narrowsWrite c = policy.narrowsWrite c := by
  funext convention e
  have ho : added.hasSameTargetWriteOverride c e convention =
      policy.hasSameTargetWriteOverride c e convention := by
    unfold hasSameTargetWriteOverride
    rw [h.any_eq]
    rw [hd]
    rfl
  unfold narrowsWrite
  rw [ho]

lemma Adds.fullDiskWrite (hd : entry.access = .deny)
    (convention : Option PathConvention) (hf : added.hasFullDiskWriteAccessForConvention c convention) :
    policy.hasFullDiskWriteAccessForConvention c convention := by
  unfold hasFullDiskWriteAccessForConvention at hf ⊢
  rw [h.kind_eq] at hf
  cases hk : policy.kind with
  | unrestricted | externalSandbox => rfl
  | restricted => ?_
  rw [hk] at hf
  rcases convention with _ | known
  · exact hf
  simp only [Option.any_some, Bool.and_eq_true, Bool.not_eq_true'] at hf ⊢
  refine ⟨?_, ?_⟩
  · rw [← h.hasRootAccess_eq (by rw [hd]; rfl)]
    exact hf.1
  rw [Bool.eq_false_iff]
  intro hn
  unfold hasWriteNarrowingEntries at hf hn
  rw [h.kind_eq, h.narrowsWrite_eq hd, hk] at hf
  rw [hk] at hn
  rw [h.any_of_imp (fun _ => id) hn] at hf
  exact absurd hf.2 (by simp)

lemma Adds.readDenied (hen : entry.access = .deny) (hd : ReadDenied c g policy context path) :
    ReadDenied c g added context path := by
  intro hc
  rcases hd hc with ⟨_, hr, hh⟩ | ⟨e, he, hp⟩
  · left
    unfold deniedRoots at hr ⊢
    obtain ⟨resolved, hin, rfl⟩ := mem_map.mp hr
    obtain ⟨hm, hde⟩ := mem_filter.mp hin
    exact ⟨resolved.1, mem_map_of_mem (mem_filter.mpr ⟨(h.onlyDenies hen).subset hm, hde⟩), hh⟩
  · exact .inr ⟨e, (h.mem_iff e).mpr (.inr he), hp⟩

end Added

/-- **A denial only takes away**: no path becomes readable or writable, and what was denied stays denied. -/
theorem deny_only_takes_away (c : UrlCrates) (g : Globset) (policy : FileSystemSandboxPolicy)
    (context : FileSystemSandboxPolicyContext) (entry : FileSystemSandboxEntry)
    (hdeny : entry.access = .deny) (added : FileSystemSandboxPolicy) (h : Adds policy entry added)
    (path : PathUri) :
    ((added.resolveAccess c path context).canRead = true → (policy.resolveAccess c path context).canRead = true) ∧
    (added.canWritePath c path context = true → policy.canWritePath c path context = true) ∧
    (∀ convention, (added.hasFullDiskReadAccessForConvention convention = true →
        policy.hasFullDiskReadAccessForConvention convention = true) ∧
      (added.hasFullDiskWriteAccessForConvention c convention = true →
        policy.hasFullDiskWriteAccessForConvention c convention = true)) ∧
    ((∃ matcher, ReadDenyMatcher.fromContext c g policy context = some matcher ∧
        matcher.isReadDeniedUri c path context = true) →
      ∃ matcher, ReadDenyMatcher.fromContext c g added context = some matcher ∧
        matcher.isReadDeniedUri c path context = true) := by
  have ho : OnlyDenies (added.resolvedEntries c context) (policy.resolvedEntries c context) := h.onlyDenies hdeny
  refine ⟨ho.canRead h.kind_eq, ho.canWritePath h.kind_eq (h.fullDiskWrite hdeny _),
    fun convention => ⟨h.fullDiskRead hdeny _, h.fullDiskWrite hdeny _⟩, ?_⟩
  rw [fromContext_denies_iff, fromContext_denies_iff]
  rintro ⟨⟨e, he, hd⟩, hde⟩
  exact ⟨⟨e, (h.mem_iff e).mpr (.inr he), hd⟩, h.readDenied hdeny hde⟩

theorem worktree_with_denied_home :
    let entry : FileSystemSandboxEntry := { path := .path (plainUri "/home"), access := .deny }
    let added : FileSystemSandboxPolicy := { worktreePolicy with entries := entry :: worktreePolicy.entries }
    Adds worktreePolicy entry added ∧
      (added.canWritePath .plain worktreeGitConfig homeContext = true →
        worktreePolicy.canWritePath .plain worktreeGitConfig homeContext = true) :=
  ⟨⟨[], _, rfl, rfl⟩,
    (deny_only_takes_away .plain .plain worktreePolicy homeContext _ rfl _ ⟨[], _, rfl, rfl⟩ worktreeGitConfig).2.1⟩

end FileSystemSandboxPolicy

end Codex.Permissions
