import Codex.Permissions.Target

/-! # Managed denials: `DenyReadValidator` of `protocol/src/permissions/deny_read_validator.rs` -/

namespace Codex.Permissions

open Codex.Text List PathUri

structure DenyReadValidator where
  requiredEntries : List FileSystemSandboxEntry
  matcher : Option PreparedReadDenyMatcher

inductive DenyReadViolation where
  | missingRequiredDeny
  | readablePath (path : PathUri)
deriving DecidableEq

namespace DenyReadValidator

def new (c : UrlCrates) (g : Globset) (required : FileSystemSandboxPolicy)
    (context : FileSystemSandboxPolicyContext) : Except DenyReadError DenyReadValidator := do
  let matcher ← (if required.hasContextReadDenials c context then
      (required.prepareDenyReadMatcher c g context .returnError).map some
    else .ok none)
  return ⟨required.entries, matcher⟩

def violatingPath (c : UrlCrates) (validator : DenyReadValidator) (context : FileSystemSandboxPolicyContext)
    (entry : FileSystemSandboxEntry) : Option PathUri :=
  match entry.access.canRead, entry.path with
  | true, .path path =>
    if path.inferPathConvention c = context.cwd.inferPathConvention c ∧
        validator.matcher.any (FileSystemSandboxPolicy.matchesPreparedReadDeny c path context) then some path
    else none
  | _, _ => none

def validate (c : UrlCrates) (validator : DenyReadValidator) (selected : FileSystemSandboxPolicy)
    (context : FileSystemSandboxPolicyContext) : Except DenyReadViolation Unit :=
  let missingRequiredDeny := validator.requiredEntries.any fun entry => !selected.entries.any (·.eq c entry)
  -- A path in conflict is reported before a missing entry.
  match selected.entries.findSome? (validator.violatingPath c context) with
  | some path => .error (.readablePath path)
  | none => if missingRequiredDeny then .error .missingRequiredDeny else .ok ()

end DenyReadValidator

inductive ManagedDenyReadError where
  | unprepared (error : DenyReadError)
  | shadowed
deriving DecidableEq

namespace FileSystemSandboxPolicy

def validateManagedDenyRead (c : UrlCrates) (g : Globset) (selected required : FileSystemSandboxPolicy)
    (context : FileSystemSandboxPolicyContext) : Except ManagedDenyReadError Unit := do
  let validator ← (DenyReadValidator.new c g required context).mapError .unprepared
  (validator.validate c selected context).mapError fun _ => .shadowed

variable {c : UrlCrates} {g : Globset} {required selected : FileSystemSandboxPolicy}
  {context : FileSystemSandboxPolicyContext} {path : PathUri}

/-! ## What is accepted -/

section Accepted

variable (h : selected.validateManagedDenyRead c g required context = .ok ())

include h

lemma validator_of_ok : ∃ validator, DenyReadValidator.new c g required context = .ok validator ∧
      validator.validate c selected context = .ok () := by
  obtain ⟨validator, hn, hv⟩ := Result.bind_eq_ok.mp h
  exact ⟨validator, Result.mapError_eq_ok.mp hn, Result.mapError_eq_ok.mp hv⟩

variable {entry : FileSystemSandboxEntry}

lemma selected_contains
    (he : entry ∈ required.entries) : ∃ kept ∈ selected.entries, kept.eq c entry := by
  obtain ⟨validator, hnew, hv⟩ := validator_of_ok h
  unfold DenyReadValidator.new at hnew
  obtain ⟨matcher, -, hva⟩ := Result.bind_eq_ok.mp hnew
  cases hva
  unfold DenyReadValidator.validate at hv
  simp only at hv
  split at hv
  · simp at hv
  split at hv
  · simp at hv
  rename_i hp
  by_contra hn
  apply hp
  rw [any_eq_true]
  refine ⟨entry, he, ?_⟩
  rw [Bool.not_eq_true', any_eq_false]
  exact fun kept hk heq => hn ⟨kept, hk, heq⟩

lemma selected_grants_nothing (hd : required.hasContextReadDenials c context) (he : entry ∈ selected.entries)
    (hr : entry.access.canRead) (hpa : entry.path = .path granted)
    (hc : granted.inferPathConvention c = context.cwd.inferPathConvention c) :
    ¬ ReadDenied c g required context granted := by
  obtain ⟨validator, hnew, hv⟩ := validator_of_ok h
  unfold DenyReadValidator.new at hnew
  obtain ⟨matcher, hm, hva⟩ := Result.bind_eq_ok.mp hnew
  cases hva
  rw [if_pos hd] at hm
  obtain ⟨prepared, hp, hs⟩ : ∃ prepared, required.prepareDenyReadMatcher c g context .returnError =
      .ok prepared ∧ matcher = some prepared := by
    rcases hre : required.prepareDenyReadMatcher c g context .returnError with e | prepared
    · simp [hre, Except.map] at hm
    rw [hre] at hm
    exact ⟨prepared, rfl, (Except.ok.inj hm).symm⟩
  subst hs
  rw [← matchesPreparedReadDeny_iff hp]
  intro hma
  unfold DenyReadValidator.validate at hv
  split at hv
  · simp at hv
  rename_i hn
  have := findSome?_eq_none_iff.mp hn entry he
  unfold DenyReadValidator.violatingPath at this
  rw [hr, hpa] at this
  simp [hc, hma] at this

/-! ## What stays denied -/

/-- The paths of the entries decode to text. -/
def Utf8Denials (c : UrlCrates) (policy : FileSystemSandboxPolicy) : Prop :=
  ∀ entry ∈ policy.entries, ∀ uri, entry.path = .path uri → uri.Utf8Names c

lemma selected_denies_root (hc : c.Lawful) (hcw : context.cwd.inferPathConvention c = some convention)
    (hut8 : convention = .windows → Utf8Denials c required)
    (hro : (root, .deny) ∈ required.resolvedEntries c context) (hs : PathUri.At c convention path path)
    (hat : PathUri.At c convention path root) :
    ∃ kept, (kept, .deny) ∈ selected.resolvedEntries c context ∧ path.startsWith c kept ∧
      kept.lexicalDepth c = some root.url.names.length := by
  obtain ⟨entry, he, hin⟩ := mem_resolvedEntries.mp hro
  obtain ⟨hd, hp, hco⟩ := mem_roots.mp hin
  obtain ⟨keptEntry, hk, heq⟩ := selected_contains h he
  obtain ⟨ha, -, hpa⟩ := FileSystemSandboxEntry.eq_cases heq
  rcases hpa with hpa | ⟨kept, other, hkp, ho, hu⟩
  · refine ⟨root, mem_resolvedEntries.mpr ⟨keptEntry, hk, ?_⟩, hs.startsWith hc hat, hat.lexicalDepth⟩
    exact mem_roots.mpr ⟨hd.trans ha.symm, hpa ▸ hp, hco⟩
  obtain rfl : root = other := by
    rw [ho] at hp
    exact mem_singleton.mp hp
  have hr : kept.inferPathConvention c = context.cwd.inferPathConvention c →
      (kept, .deny) ∈ selected.resolvedEntries c context := by
    intro hsa
    refine mem_resolvedEntries.mpr ⟨keptEntry, hk, mem_roots.mpr ⟨hd.trans ha.symm, ?_, hsa⟩⟩
    rw [hkp]
    exact mem_singleton_self _
  rcases PathUri.eq_cases hu with rfl | ⟨-, -, hw, hw', hpl, -, hh, hse, hse', hb⟩
  · exact ⟨kept, hr hco, hs.startsWith hc hat, hat.lexicalDepth⟩
  -- Another spelling of a Windows path, with the same names.
  obtain rfl : convention = .windows := Option.some.inj (hat.convention_eq.symm.trans hw')
  have hke := keys_of_lowered hc (hut8 rfl entry he root ho) (lowered_names hc hse' hse hb.symm)
  have hka : PathUri.At c .windows path kept :=
    ⟨hw, hpl, hat.host_eq.trans hh.symm, hasEncodedSeparator_names hse, hke ▸ hat.names⟩
  refine ⟨kept, hr (hw.trans hcw.symm), hs.startsWith hc hka, ?_⟩
  rw [eq_lexicalDepth hc hu, hat.lexicalDepth]

/-- No symbolic grant is below a required denial. -/
def GrantsNoneBySymbol (c : UrlCrates) (selected required : FileSystemSandboxPolicy)
    (context : FileSystemSandboxPolicyContext) : Prop :=
  ∀ entry ∈ selected.entries, entry.access.canRead = true → ∀ special, entry.path = .special special →
    ∀ root ∈ entry.path.paths c context, ∀ denied ∈ required.deniedRoots c context, root.startsWith c denied = false

lemma not_readable_of_accepted (hc : c.Lawful) (hre : required.kind = .restricted)
    (hs : selected.kind = .restricted) (hsy : GrantsNoneBySymbol c selected required context)
    (hcw : context.cwd.inferPathConvention c = some convention)
    (hco : path.inferPathConvention c = some convention) (hde : (path.lexicalDepth c).isSome)
    (hu8 : convention = .windows → path.Utf8Names c ∧ Utf8Denials c required)
    (hd : denied ∈ required.deniedRoots c context) (hh : path.startsWith c denied) :
    (selected.resolveAccess c path context).canRead = false := by
  by_contra hrea
  have hne : selected.resolveAccess c path context ≠ .deny := by
    simpa [FileSystemAccessMode.canRead] using hrea
  have hg := (resolveAccess_eq_iff hne).mp rfl
  unfold Grants at hg
  rw [if_pos hs] at hg
  obtain ⟨-, -, root, depth, hin, hrd, hrh, hm⟩ := hg
  have hse := at_self hco hde
  have hro := at_of_startsWith hc hco (fun hw => (hu8 hw).1) hde hrh
  have hat := at_of_startsWith hc hco (fun hw => (hu8 hw).1) hde hh
  obtain ⟨hr, -⟩ := mem_deniedRoots.mp hd
  obtain ⟨_, hk, hkh, hkd⟩ :=
    selected_denies_root h hc hcw (fun hw => (hu8 hw).2) hr hse hat
  -- The entry that decides is deeper than the denial, so it is below it.
  have hdee : denied.url.names.length < depth := by
    rcases hm _ hk hkh _ hkd with hlt | ⟨-, hle⟩
    · exact hlt
    · exact absurd (FileSystemAccessMode.eq_deny_of_le hle) hne
  obtain rfl := Option.some.inj (hro.lexicalDepth.symm.trans hrd)
  have hb := startsWith_of_both hc hat hro hdee.le
  obtain ⟨entry, he, hroo⟩ := mem_resolvedEntries.mp hin
  obtain ⟨ha, hp, hsa⟩ := mem_roots.mp hroo
  have hcr : entry.access.canRead := by
    rw [← ha]
    simpa [FileSystemAccessMode.canRead] using hne
  cases hpa : entry.path with
  | path uri => ?_
  | globPattern pattern =>
    rw [hpa] at hp
    simp [FileSystemPath.paths] at hp
  | special special =>
    simp [hsy entry he hcr special hpa root hp denied hd] at hb
  rw [hpa] at hp
  obtain rfl := mem_singleton.mp hp
  exact selected_grants_nothing h (hasContextReadDenials_of_root hre hr) he hcr hpa hsa fun _ => .inl ⟨denied, hd, hb⟩

lemma matcher_of_accepted (he : entry ∈ required.entries) (hpa : denyPattern entry = some pattern)
    (hm : PatternDenies c g context path pattern) :
    ∃ matcher, ReadDenyMatcher.fromContext c g selected context = some matcher ∧
      matcher.isReadDeniedUri c path context := by
  obtain ⟨kept, hk, heq⟩ := selected_contains h he
  obtain ⟨ha, -, hp⟩ := FileSystemSandboxEntry.eq_cases heq
  obtain ⟨hd, hg⟩ := denyPattern_eq_some.mp hpa
  have hkp : kept.path = .globPattern pattern := by
    rcases hp with hp | ⟨_, _, -, ho, -⟩
    · exact hp.trans hg
    · exact absurd (hg.symm.trans ho) (by simp)
  refine fromContext_denies_iff.mpr ⟨⟨kept, hk, ha.trans hd⟩, fun _ => .inr ⟨kept, hk, pattern, ?_, hm⟩⟩
  exact denyPattern_eq_some.mpr ⟨ha.trans hd, hkp⟩

end Accepted

/-- **Accepted profiles keep managed denials**, by path provided no symbol reopens it, and by pattern. -/
theorem accepted_keeps_denials (c : UrlCrates) (hc : c.Lawful) (g : Globset)
    (required selected : FileSystemSandboxPolicy) (context : FileSystemSandboxPolicyContext) (path : PathUri)
    (hrequired : required.kind = .restricted) (hselected : selected.kind = .restricted)
    (hsymbols : GrantsNoneBySymbol c selected required context)
    (hconvention : path.inferPathConvention c = context.cwd.inferPathConvention c)
    (hdepth : (path.lexicalDepth c).isSome)
    (hutf8 : context.cwd.inferPathConvention c = some .windows → path.Utf8Names c ∧ Utf8Denials c required)
    (h : selected.validateManagedDenyRead c g required context = .ok ()) :
    (∀ denied ∈ required.deniedRoots c context, path.startsWith c denied = true →
      (selected.resolveAccess c path context).canRead = false) ∧
    ∀ entry ∈ required.entries, ∀ pattern, denyPattern entry = some pattern → PatternDenies c g context path pattern →
      ∃ matcher, ReadDenyMatcher.fromContext c g selected context = some matcher ∧
        matcher.isReadDeniedUri c path context = true := by
  refine ⟨?_, fun entry he pattern hp => matcher_of_accepted h he hp⟩
  intro denied hd hh
  rcases hcw : context.cwd.inferPathConvention c with _ | convention
  · rw [lexicalDepth_of_no_convention (hconvention.trans hcw)] at hdepth
    simp at hdepth
  refine not_readable_of_accepted h hc hrequired hselected hsymbols hcw (hconvention.trans hcw) hdepth ?_ hd hh
  rintro rfl
  exact hutf8 hcw

def workDenied : FileSystemSandboxPolicy := restricted [{ path := .path (plainUri "/work"), access := .deny }]

theorem symbol_reopens :
    let selected := restricted (workDenied.entries ++ [{ path := .special (.projectRoots none), access := .read }])
    selected.validateManagedDenyRead .plain .plain workDenied repoContext = .ok () ∧
      plainUri "/work" ∈ workDenied.deniedRoots .plain repoContext ∧
      (plainUri "/work/repo/x").startsWith .plain (plainUri "/work") = true ∧
      (selected.resolveAccess .plain (plainUri "/work/repo/x") repoContext).canRead = true := by
  decide

theorem root_stays_denied :
    let selected := restricted ({ path := .special .root, access := .read } :: workDenied.entries)
    selected.validateManagedDenyRead .plain .plain workDenied repoContext = .ok () ∧
      (selected.resolveAccess .plain (plainUri "/work/secret") repoContext).canRead = false := by
  refine ⟨by decide, ?_⟩
  refine (accepted_keeps_denials .plain UrlCrates.plain_lawful .plain workDenied _ repoContext
    (plainUri "/work/secret") rfl rfl ?_ (by decide) (by decide) (fun hw => absurd hw (by decide)) (by decide)).1
    (plainUri "/work") (by decide) (by decide)
  intro entry he hre special hp root hr denied hd
  rcases mem_pair.mp he with rfl | rfl
  · exact (show ∀ root ∈ (FileSystemPath.special .root).paths .plain repoContext,
      ∀ denied ∈ workDenied.deniedRoots .plain repoContext, root.startsWith .plain denied = false by decide)
      root hr denied hd
  · simp at hp

end FileSystemSandboxPolicy

end Codex.Permissions
