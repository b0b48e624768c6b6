import Codex.Network.Policy

/-!
# Managed constraints on a proxy configuration

`validate_policy_against_constraints` of `network-proxy/src/state.rs`. Validity of hooks is a parameter.
-/

namespace Codex.Network

open Codex.Text Codex.Result

structure NetworkProxyConstraints where
  enabled : Option Bool
  mode : Option NetworkMode
  allowUpstreamProxy : Option Bool
  dangerouslyAllowNonLoopbackProxy : Option Bool
  dangerouslyAllowAllUnixSockets : Option Bool
  allowedDomains : Option (List Text)
  allowlistExpansionEnabled : Option Bool
  deniedDomains : Option (List Text)
  denylistExpansionEnabled : Option Bool
  allowUnixSockets : Option (List Text)
  allowLocalBinding : Option Bool

structure InvalidValue where
  fieldName : Text
  candidate : List Text
  allowed : List Text

def validateFlag (fieldName : Text) (candidate allowed : Bool) : Except InvalidValue Unit :=
  if candidate && !allowed then .error ⟨fieldName, ["true".toList], ["false (disabled by managed config)".toList]⟩
  else .ok ()

def NetworkMode.rank : NetworkMode → Nat
  | .limited => 0
  | .full => 1

def NetworkMode.debug : NetworkMode → Text
  | .limited => "Limited"
  | .full => "Full"

def validateMode (candidate : NetworkMode) (maxMode : Option NetworkMode) : Except InvalidValue Unit :=
  match maxMode with
  | none => .ok ()
  | some maxMode =>
    if maxMode.rank < candidate.rank then
      .error ⟨"network.mode", [candidate.debug], [maxMode.debug ++ " or more restrictive".toList]⟩
    else .ok ()

def validateNonGlobalWildcardDomainPatterns (fieldName : Text) (patterns : List Text) : Except InvalidValue Unit :=
  match patterns.find? isGlobalWildcardDomainPattern with
  | some pattern => .error ⟨fieldName, [trim pattern],
      ["exact hosts or scoped wildcards like *.example.com or **.example.com".toList]⟩
  | none => .ok ()

def sameEntries (left right : List Text) : Bool := left.all right.contains && right.all left.contains

section

variable (urlHost : Text → Option Text)

section

variable (config : NetworkProxyConfig) (constraints : NetworkProxyConstraints)

def validateAllowedDomains : Except InvalidValue Unit :=
  match constraints.allowedDomains with
  | none => .ok ()
  | some allowedDomains => do
    validateNonGlobalWildcardDomainPatterns "network.allowed_domains" allowedDomains
    let candidates := config.allowedDomains.getD []
    let denied := (config.deniedDomains.getD []).map toLower
    let required := allowedDomains.map toLower
    match constraints.allowlistExpansionEnabled with
    | some true =>
      let missing := required.filter fun entry =>
        !(candidates.map toLower).contains entry && !denied.contains entry
      if missing.isEmpty then .ok ()
      else .error ⟨"network.allowed_domains", ["missing managed allowed_domains entries".toList], missing⟩
    | some false =>
      if sameEntries (candidates.map toLower) (required.filter fun entry => !denied.contains entry) then .ok ()
      else .error ⟨"network.allowed_domains", candidates, ["must match managed allowed_domains".toList]⟩
    | none =>
      let managed := allowedDomains.map (DomainPattern.parseForConstraints urlHost)
      let invalid := candidates.filter fun entry =>
        !managed.any fun pattern => pattern.allows (DomainPattern.parseForConstraints urlHost entry)
      if invalid.isEmpty then .ok ()
      else .error ⟨"network.allowed_domains", invalid, ["subset of managed allowed_domains".toList]⟩

def validateDeniedDomains : Except InvalidValue Unit :=
  match constraints.deniedDomains with
  | none => .ok ()
  | some deniedDomains => do
    validateNonGlobalWildcardDomainPatterns "network.denied_domains" deniedDomains
    let candidates := config.deniedDomains.getD []
    let required := deniedDomains.map toLower
    if constraints.denylistExpansionEnabled = some false then
      if sameEntries (candidates.map toLower) required then .ok ()
      else .error ⟨"network.denied_domains", candidates, ["must match managed denied_domains".toList]⟩
    else
      let missing := required.filter fun entry => !(candidates.map toLower).contains entry
      if missing.isEmpty then .ok ()
      else .error ⟨"network.denied_domains", ["missing managed denied_domains entries".toList], missing⟩

def validateUnixSockets : Except InvalidValue Unit :=
  match constraints.allowUnixSockets with
  | none => .ok ()
  | some allowed =>
    let invalid := config.allowUnixSockets.filter fun entry => !allowed.contains entry
    if invalid.isEmpty then .ok ()
    else .error ⟨"network.allow_unix_sockets", invalid, ["subset of managed allow_unix_sockets".toList]⟩

end

variable (validateMitmHookConfig : NetworkProxyConfig → Except Text Unit)

def validatePolicyAgainstConstraints (config : NetworkProxyConfig) (constraints : NetworkProxyConstraints) :
    Except InvalidValue Unit := do
  (validateMitmHookConfig config).mapError fun error =>
    ⟨"network.mitm_hooks", [error], ["valid MITM hook configuration".toList]⟩
  validateNonGlobalWildcardDomainPatterns "network.denied_domains" (config.deniedDomains.getD [])
  validateFlag "network.enabled" config.enabled (constraints.enabled.getD true)
  validateMode config.mode constraints.mode
  validateFlag "network.allow_upstream_proxy" config.allowUpstreamProxy (constraints.allowUpstreamProxy.getD true)
  validateFlag "network.dangerously_allow_non_loopback_proxy" config.dangerouslyAllowNonLoopbackProxy
    (constraints.dangerouslyAllowNonLoopbackProxy.getD true)
  validateFlag "network.dangerously_allow_all_unix_sockets" (config.dangerouslyAllowAllUnixSockets.getD false)
    (constraints.dangerouslyAllowAllUnixSockets.getD constraints.allowUnixSockets.isNone)
  validateFlag "network.allow_local_binding" (config.allowLocalBinding.getD false)
    (constraints.allowLocalBinding.getD true)
  validateAllowedDomains urlHost config constraints
  validateDeniedDomains config constraints
  validateUnixSockets config constraints

end

lemma allows_of_validate (hm : constraints.allowedDomains = some managed)
    (he : constraints.allowlistExpansionEnabled = none)
    (h : validatePolicyAgainstConstraints urlHost hooks config constraints = .ok ()) :
    ∀ entry ∈ config.allowedDomains.getD [], ∃ pattern ∈ managed,
      (DomainPattern.parseForConstraints urlHost pattern).allows
        (DomainPattern.parseForConstraints urlHost entry) := by
  simp only [validatePolicyAgainstConstraints, bind_eq_ok] at h
  obtain ⟨_, -, _, -, _, -, _, -, _, -, _, -, _, -, _, -, _, ha, -⟩ := h
  simp only [validateAllowedDomains, hm, he, bind_eq_ok] at ha
  obtain ⟨_, -, hi⟩ := ha
  intro entry hen
  split at hi
  · rename_i hem
    have hn := List.filter_eq_nil_iff.mp (List.isEmpty_iff.mp hem) entry hen
    simpa using hn
  · simp at hi

end Codex.Network
