import Codex.Network.Constraints

/-! # An accepted allowlist lies within the managed one, where constraints and matching read the patterns alike -/

namespace Codex.Network

open Codex.Text Codex.Wildcard DomainPatternSet List

/-! ## What constraints take a pattern to mean -/

namespace DomainPattern

def domain : DomainPattern → Text
  | apexAndSubdomains domain => domain
  | subdomainsOnly domain => domain
  | exact domain => domain

def Hosts : DomainPattern → List UInt8 → Prop
  | exact domain, bytes => Glob (normalizeDomain domain) bytes
  | subdomainsOnly domain, bytes => Glob ("?*." ++ normalizeDomain domain) bytes
  | apexAndSubdomains domain, bytes =>
    Glob (normalizeDomain domain) bytes ∨ Glob ("?*." ++ normalizeDomain domain) bytes

end DomainPattern

open DomainPattern

lemma glob_below_iff :
    Glob ("?*." ++ parent) bytes ↔ ∃ x y, bytes = x ++ 46 :: y ∧ x ≠ [] ∧ Glob parent y := by
  have hs : ("?*." ++ parent : Text) = "?*" ++ ("." ++ parent) := rfl
  rw [hs, glob_append_iff]
  simp only [glob_append_iff, glob_dot_iff, glob_some_iff]
  constructor
  · rintro ⟨x, _, rfl, hx, _, y, rfl, rfl, hy⟩
    exact ⟨x, y, rfl, hx, hy⟩
  · rintro ⟨x, y, rfl, hx, hy⟩
    exact ⟨x, 46 :: y, rfl, hx, [46], y, rfl, rfl, hy⟩

variable {s x p : Text} {candidate : DomainPattern} {c : Char}

lemma glob_child {parent : Text} (h : Glob (x ++ '.' :: parent) bytes) :
    ∃ u y, bytes = u ++ 46 :: y ∧ Glob x u ∧ Glob parent y := by
  have hs : x ++ '.' :: parent = x ++ ("." ++ parent) := rfl
  rw [hs, glob_append_iff] at h
  obtain ⟨u, _, rfl, hu, hr⟩ := h
  obtain ⟨_, y, rfl, hd, hy⟩ := glob_append_iff.mp hr
  obtain rfl := glob_dot_iff.mp hd
  exact ⟨u, y, rfl, hu, hy⟩

lemma glob_below_of_child {parent : Text} (hx : ∃ c ∈ x, c ≠ '*')
    (h : Glob (x ++ '.' :: parent) bytes) : Glob ("?*." ++ parent) bytes := by
  obtain ⟨u, y, rfl, hu, hy⟩ := glob_child h
  refine glob_below_iff.mpr ⟨u, y, rfl, ?_, hy⟩
  rintro rfl
  obtain ⟨c, hc, hne⟩ := hx
  exact hne (star_of_glob_nil hu c hc)

lemma glob_below_of_below {parent : Text} (h : Glob ("?*." ++ (x ++ '.' :: parent)) bytes) :
    Glob ("?*." ++ parent) bytes := by
  obtain ⟨u, v, rfl, _, hv⟩ := glob_below_iff.mp h
  obtain ⟨w, y, rfl, -, hy⟩ := glob_child hv
  exact glob_below_iff.mpr ⟨u ++ 46 :: w, y, by simp, by simp, hy⟩

lemma isSubdomainOrEqual_iff : isSubdomainOrEqual child parent ↔
    normalizeDomain child = normalizeDomain parent ∨ ∃ x, normalizeDomain child = x ++ '.' ::
      normalizeDomain parent := by
  unfold isSubdomainOrEqual
  rw [Bool.or_eq_true, beq_iff_eq, isSuffixOf_iff_suffix]
  exact or_congr_right ⟨fun ⟨x, hx⟩ => ⟨x, hx.symm⟩, fun ⟨x, hx⟩ => ⟨x, hx.symm⟩⟩

lemma below_of_isStrictSubdomain (h : isStrictSubdomain child parent) :
    ∃ x, normalizeDomain child = x ++ '.' :: normalizeDomain parent := by
  unfold isStrictSubdomain at h
  rw [Bool.and_eq_true, isSuffixOf_iff_suffix] at h
  obtain ⟨-, x, hx⟩ := h
  exact ⟨x, hx.symm⟩

section

variable {child parent : Text} {bytes : List UInt8}

lemma below_of_strict (hc : ∀ x, normalizeDomain child = x ++ '.' :: normalizeDomain parent → ∃ c ∈ x, c ≠ '*')
    (h : isStrictSubdomain child parent) (hg : Glob (normalizeDomain child) bytes) :
    Glob ("?*." ++ normalizeDomain parent) bytes := by
  obtain ⟨x, hx⟩ := below_of_isStrictSubdomain h
  exact glob_below_of_child (hc x hx) (hx ▸ hg)

lemma below_of_within (h : isSubdomainOrEqual child parent)
    (hg : Glob ("?*." ++ normalizeDomain child) bytes) : Glob ("?*." ++ normalizeDomain parent) bytes := by
  rcases isSubdomainOrEqual_iff.mp h with heq | ⟨x, hx⟩
  · exact heq ▸ hg
  · exact glob_below_of_below (hx ▸ hg)

lemma apex_of_within (hc : ∀ x, normalizeDomain child = x ++ '.' :: normalizeDomain parent → ∃ c ∈ x, c ≠ '*')
    (h : isSubdomainOrEqual child parent) (hg : Glob (normalizeDomain child) bytes) :
    Glob (normalizeDomain parent) bytes ∨ Glob ("?*." ++ normalizeDomain parent) bytes := by
  rcases isSubdomainOrEqual_iff.mp h with heq | ⟨x, hx⟩
  · exact .inl (heq ▸ hg)
  · exact .inr (glob_below_of_child (hc x hx) (hx ▸ hg))

end

lemma DomainPattern.hosts_of_allows {managed : DomainPattern} (h : managed.allows candidate)
    (hh : (∀ domain, candidate ≠ subdomainsOnly domain) → ∀ x,
      normalizeDomain candidate.domain = x ++ '.' :: normalizeDomain managed.domain → ∃ c ∈ x, c ≠ '*')
    (hb : candidate.Hosts bytes) : managed.Hosts bytes := by
  cases managed with
  | exact domain =>
    cases candidate with
    | exact child =>
      have heq : normalizeDomain child = normalizeDomain domain := by simpa [allows, domainEq] using h
      simpa only [Hosts, heq] using hb
    | subdomainsOnly | apexAndSubdomains => simp [allows] at h
  | subdomainsOnly domain => ?_
  | apexAndSubdomains domain =>
    cases candidate with
    | exact child => exact apex_of_within (hh (by simp)) h hb
    | subdomainsOnly child => exact .inr (below_of_within h hb)
    | apexAndSubdomains child => ?_
    rcases hb with hb | hb
    · exact apex_of_within (hh (by simp)) h hb
    · exact .inr (below_of_within h hb)
  cases candidate with
  | exact child => exact below_of_strict (hh (by simp)) h hb
  | subdomainsOnly child => exact below_of_within h hb
  | apexAndSubdomains child => ?_
  rcases hb with hb | hb
  · exact below_of_strict (hh (by simp)) h hb
  · obtain ⟨x, hx⟩ := below_of_isStrictSubdomain h
    exact below_of_within (isSubdomainOrEqual_iff.mpr (.inr ⟨x, hx⟩)) hb

/-! ## The two readings of a pattern -/

def patternHost (pattern : Text) : Text := (splitStars (trim pattern)).2

/-- The stars and the domain of which the compiled patterns are made. -/
def compiledReading (pattern : Text) : Text × Text :=
  let pattern := trim (normalizePattern pattern)
  if (splitStars pattern).1.isEmpty then ([], pattern) else ((splitStars pattern).1, trim (splitStars pattern).2)

/-- The stars and the domain that constraints compare. -/
def comparedReading (urlHost : Text → Option Text) (pattern : Text) : Text × Text :=
  ((splitStars (trim pattern)).1, normalizeDomain (parseDomainForConstraints urlHost (patternHost pattern)))

def DomainPattern.ofStars (stars domain : Text) : DomainPattern :=
  if stars = "**.".toList then apexAndSubdomains domain
  else if stars = "*.".toList then subdomainsOnly domain
  else exact domain

lemma parseForConstraints_eq (h : trim pattern ≠ []) :
    parseForConstraints urlHost pattern =
      .ofStars (splitStars (trim pattern)).1 (parseDomainForConstraints urlHost (patternHost pattern)) := by
  simp only [parseForConstraints, patternHost, splitStars, List.isEmpty_iff, h]
  cases ha : stripPrefix "**." (trim pattern) with
  | some domain => rfl
  | none =>
    cases hs : stripPrefix "*." (trim pattern) <;> rfl

lemma domain_ofStars (stars domain : Text) : (ofStars stars domain).domain = domain := by
  unfold ofStars
  split
  · rfl
  · split <;> rfl

lemma splitStars_fst (s : Text) :
    (splitStars s).1 = "**.".toList ∨ (splitStars s).1 = "*.".toList ∨ (splitStars s).1 = [] := by
  unfold splitStars
  split
  · exact .inl rfl
  split
  · exact .inr (.inl rfl)
  · exact .inr (.inr rfl)

lemma startsWith_stars (s : Text) : startsWith "**." s ↔ (splitStars s).1 = "**.".toList := by
  rw [startsWith_eq_isSome, splitStars]
  cases h : stripPrefix "**." s with
  | some domain => simp only [Option.isSome_some]
  | none => cases hs : stripPrefix "*." s <;> simp

lemma expandDomainPattern_eq (pattern : Text) (hn : [] ∉ expandDomainPattern (normalizePattern pattern)) :
    expandDomainPattern (normalizePattern pattern) =
      if (compiledReading pattern).1 = "**.".toList then
        [(compiledReading pattern).2, "?*." ++ (compiledReading pattern).2]
      else if (compiledReading pattern).1 = "*.".toList then ["?*." ++ (compiledReading pattern).2]
      else [(compiledReading pattern).2] := by
  unfold expandDomainPattern compiledReading at *
  dsimp only at *
  rcases splitStars_fst (trim (normalizePattern pattern)) with hs | hs | hs <;>
    simp only [hs, startsWith_stars] at hn ⊢
  · rw [if_neg (by decide)] at hn ⊢
    split at hn
    · exact absurd mem_cons_self hn
    · rename_i hd
      simp [hd]
  · rw [if_neg (by decide)] at hn ⊢
    split at hn
    · exact absurd mem_cons_self hn
    · rename_i hd
      simp [hd]
  · rfl

lemma trim_ne_nil (h : [] ∉ expandDomainPattern (normalizePattern pattern)) : trim pattern ≠ [] := by
  intro hn
  apply h
  simp only [normalizePattern, hn]
  decide +kernel

/-- A pattern that both read alike matches the hosts that constraints take it for. -/
lemma candidates_iff_hosts (hn : [] ∉ expandDomainPattern (normalizePattern pattern))
    (h : compiledReading pattern = comparedReading urlHost pattern) :
    (∃ candidate ∈ expandDomainPattern (normalizePattern pattern), Glob candidate bytes) ↔
      (parseForConstraints urlHost pattern).Hosts bytes := by
  rw [expandDomainPattern_eq pattern hn, parseForConstraints_eq (trim_ne_nil hn), h]
  unfold comparedReading ofStars
  split
  · simp [DomainPattern.Hosts]
  split <;> simp [DomainPattern.Hosts]

/-- The entry and the managed pattern are read alike, and what the entry has before the managed name is not made of
stars only. -/
structure ReadAlike (urlHost : Text → Option Text) (entry pattern : Text) : Prop where
  ofEntry : compiledReading entry = comparedReading urlHost entry
  ofPattern : compiledReading pattern = comparedReading urlHost pattern
  front : (compiledReading entry).1 ≠ "*.".toList →
    ∀ x, (compiledReading entry).2 = x ++ '.' :: (compiledReading pattern).2 → ∃ c ∈ x, c ≠ '*'

/-! ## The accepted list -/

section

variable {urlHost : Text → Option Text} {hooks : NetworkProxyConfig → Except Text Unit}
variable {config : NetworkProxyConfig} {constraints : NetworkProxyConstraints} {managed : List Text}
variable {allowSet managedSet : DomainPatternSet}

/-- Every host that an accepted list matches, the managed list matches, when each entry compiles like a managed one or
is read alike with the managed pattern that lets it in. -/
theorem accepted_allowlist_within_managed (hmanaged : constraints.allowedDomains = some managed)
    (hexpansion : constraints.allowlistExpansionEnabled = none)
    (haccepted : validatePolicyAgainstConstraints urlHost hooks config constraints = .ok ())
    (hallow : compileAllowlist (config.allowedDomains.getD []) = .ok allowSet)
    (hmanagedSet : compileAllowlist managed = .ok managedSet)
    (hreadings : ∀ entry ∈ config.allowedDomains.getD [],
      (∃ pattern ∈ managed, normalizePattern pattern = normalizePattern entry) ∨
        ∀ pattern, managed.find? (fun pattern => (parseForConstraints urlHost pattern).allows
          (parseForConstraints urlHost entry)) = some pattern → ReadAlike urlHost entry pattern)
    (host : Text) (hmatch : allowSet.isMatch (normalizeHost host) = true) :
    managedSet.isMatch (normalizeHost host) = true := by
  obtain ⟨-, hn, hai⟩ := new_ok hallow
  obtain ⟨-, hnm, hmi⟩ := new_ok hmanagedSet
  obtain ⟨entry, he, candidate, hca, hg⟩ := (hai _).mp hmatch
  rw [hmi]
  rcases hreadings entry he with ⟨pattern, hp, hsame⟩ | hread
  · exact ⟨pattern, hp, candidate, hsame ▸ hca, hg⟩
  obtain ⟨pattern, hf⟩ := Option.isSome_iff_exists.mp
    (find?_isSome.mpr (allows_of_validate hmanaged hexpansion haccepted entry he))
  have hp := mem_of_find?_eq_some hf
  have ha : (parseForConstraints urlHost pattern).allows (parseForConstraints urlHost entry) := by
    simpa using find?_some hf
  have hr := hread pattern hf
  have hdomain : ∀ {p}, [] ∉ expandDomainPattern (normalizePattern p) → compiledReading p = comparedReading urlHost p →
      normalizeDomain (parseForConstraints urlHost p).domain = (compiledReading p).2 := by
    intro p hne heq
    rw [parseForConstraints_eq (trim_ne_nil hne), domain_ofStars, heq, comparedReading]
  have hosts := (candidates_iff_hosts (hn entry he) hr.ofEntry).mp ⟨candidate, hca, hg⟩
  have hfront : (∀ domain, parseForConstraints urlHost entry ≠ .subdomainsOnly domain) → ∀ x,
      normalizeDomain (parseForConstraints urlHost entry).domain =
        x ++ '.' :: normalizeDomain (parseForConstraints urlHost pattern).domain → ∃ c ∈ x, c ≠ '*' := by
    intro hstars x hx
    rw [hdomain (hn entry he) hr.ofEntry, hdomain (hnm pattern hp) hr.ofPattern] at hx
    refine hr.front (fun hs => ?_) x hx
    -- an entry of the form `*.domain` is one for subdomains only
    rw [hr.ofEntry, comparedReading] at hs
    dsimp only at hs
    apply hstars (parseDomainForConstraints urlHost (patternHost entry))
    rw [parseForConstraints_eq (trim_ne_nil (hn entry he)), hs]
    rfl
  obtain ⟨other, ho, hgo⟩ :=
    (candidates_iff_hosts (hnm pattern hp) hr.ofPattern).mpr (hosts_of_allows ha hfront hosts)
  exact ⟨pattern, hp, other, ho, hgo⟩

end

/-- The `url` crate on names of letters, digits, hyphens and dots; it rejects everything else. -/
def plainUrlHost (host : Text) : Option Text :=
  if host.all (fun c => c.isAlphanum || c == '-' || c == '.') && !host.isEmpty then some (toLower host) else none

def configAllowing (patterns : List Text) : NetworkProxyConfig where
  enabled := true
  mode := .full
  allowUpstreamProxy := true
  dangerouslyAllowNonLoopbackProxy := false
  dangerouslyAllowAllUnixSockets := none
  domains := some (patterns.map fun pattern => ⟨pattern, .allow⟩)
  reviewDomains := []
  unixSockets := none
  allowLocalBinding := none

def managedDomains (patterns : List Text) : NetworkProxyConstraints where
  enabled := none
  mode := none
  allowUpstreamProxy := none
  dangerouslyAllowNonLoopbackProxy := none
  dangerouslyAllowAllUnixSockets := none
  allowedDomains := some patterns
  allowlistExpansionEnabled := none
  deniedDomains := none
  denylistExpansionEnabled := none
  allowUnixSockets := none
  allowLocalBinding := none

theorem api_subdomains_within_managed : ∃ allowSet managedSet,
    compileAllowlist ["*.api.example.com".toList] = .ok allowSet ∧
    compileAllowlist ["**.example.com".toList] = .ok managedSet ∧
    allowSet.isMatch (normalizeHost "V1.api.example.com.") = true ∧
    managedSet.isMatch (normalizeHost "V1.api.example.com.") = true := by
  refine ⟨⟨[asBytes "?*.api.example.com"]⟩, ⟨[asBytes "example.com", asBytes "?*.example.com"]⟩,
    rfl, rfl, by decide +kernel, ?_⟩
  refine @accepted_allowlist_within_managed plainUrlHost (fun _ => .ok ())
    (configAllowing ["*.api.example.com".toList]) (managedDomains ["**.example.com".toList]) ["**.example.com".toList]
    ⟨[asBytes "?*.api.example.com"]⟩ _ rfl rfl rfl rfl rfl ?_ _ (by decide +kernel)
  intro entry he
  obtain rfl : entry = "*.api.example.com".toList := mem_singleton.mp he
  refine .inr fun pattern hf => ?_
  obtain rfl : pattern = "**.example.com".toList := mem_singleton.mp (mem_of_find?_eq_some hf)
  exact ⟨by decide +kernel, by decide +kernel, fun hs => absurd (by decide +kernel) hs⟩

theorem port_pattern_escapes_managed : validatePolicyAgainstConstraints plainUrlHost (fun _ => .ok ())
      (configAllowing ["*:.example.com".toList]) (managedDomains ["*.example.com".toList]) = .ok () ∧
    ∃ allowSet managedSet, compileAllowlist ((configAllowing ["*:.example.com".toList]).allowedDomains.getD []) =
        .ok allowSet ∧
      compileAllowlist ["*.example.com".toList] = .ok managedSet ∧
      allowSet.isMatch (normalizeHost "evil.com") = true ∧ managedSet.isMatch (normalizeHost "evil.com") = false :=
  ⟨rfl, ⟨[asBytes "*"]⟩, ⟨[asBytes "?*.example.com"]⟩, rfl, rfl, by decide +kernel, by decide +kernel⟩

end Codex.Network
