import Codex.Network.Policy
import Codex.Run

/-!
# Host checks, and the requests they decide

`host_blocked_with_lookup` of `network-proxy/src/runtime.rs` and `evaluate_host_policy` of `network_policy.rs`. The
configuration may be replaced between steps; the answers of DNS and of the decider are events.
-/

namespace Codex.Network

open Codex.Text Codex.Run List Option

/-! ## One host check -/

inductive LocalBindingPolicy where
  | defaultFalse | requireTrue
  deriving DecidableEq

def LocalBindingPolicy.resolve (policy : LocalBindingPolicy) (config : NetworkProxyConfig) : Bool :=
  config.allowLocalBinding.getD (config.enabled && policy == .requireTrue)

structure ConfigState where
  config : NetworkProxyConfig
  denySet : DomainPatternSet
  reviewSet : DomainPatternSet
  allowSet : DomainPatternSet

inductive HostBlockReason where
  | denied | notAllowed | notAllowedLocal
  deriving DecidableEq

def HostBlockReason.asStr : HostBlockReason → Text
  | denied => "denied"
  | notAllowed => "not_allowed"
  | notAllowedLocal => "not_allowed_local"

inductive HostBlockDecision where
  | allowed
  | blocked (reason : HostBlockReason)
  deriving DecidableEq

inductive HostAuthorization where
  | requireAllowlist | approved
  deriving DecidableEq

def domainsMatchHostOrUnscoped (set : DomainPatternSet) (host : Text) : Bool :=
  set.isMatch host || ((unscopedIpLiteral host).map set.isMatch).getD false

def isExplicitLocalAllowlisted (allowedDomains : List Text) (host : Host) : Bool :=
  allowedDomains.any fun pattern =>
    let pattern := trim pattern
    if pattern = "*".toList ∨ startsWith "*." pattern ∨ startsWith "**." pattern then false
    else if pattern.contains '*' || pattern.contains '?' then false
    else normalizeHost pattern == host.text || unscopedIpLiteral host.text == some (normalizeHost pattern)

/-- A failed lookup, or one that timed out, has no answer. -/
def hostResolvesToNonPublicIp (host : Text) (answer : Option (List IpAddr)) : Bool :=
  match IpAddr.parse host with
  | some ip => isNonPublicIp ip
  | none => (answer.map (·.any isNonPublicIp)).getD true

def isLocalLiteral (host : Host) : Bool :=
  isLoopbackHost host || ((IpAddr.parse ((unscopedIpLiteral host.text).getD host.text)).map isNonPublicIp).getD false

def effectiveLocalBinding (policy : LocalBindingPolicy) (allowLocalBinding : Option Bool)
    (config : NetworkProxyConfig) : Bool :=
  allowLocalBinding.getD (policy.resolve config) && config.allowLocalBinding != some false

def isAuthorized (state : ConfigState) (host : Host) (authorization : HostAuthorization) : Bool :=
  authorization == .approved || (!domainsMatchHostOrUnscoped state.reviewSet host.text &&
    domainsMatchHostOrUnscoped state.allowSet host.text)

def hostDecision (policy : LocalBindingPolicy) (allowLocalBinding : Option Bool) (state : ConfigState) (host : Host)
    (authorization : HostAuthorization) (answer : Option (List IpAddr)) : HostBlockDecision :=
  if domainsMatchHostOrUnscoped state.denySet host.text then .blocked .denied
  else if !effectiveLocalBinding policy allowLocalBinding state.config && isLocalLiteral host &&
      !isExplicitLocalAllowlisted (state.config.allowedDomains.getD []) host then .blocked .notAllowedLocal
  else if !effectiveLocalBinding policy allowLocalBinding state.config && !isLocalLiteral host &&
      isAuthorized state host authorization && hostResolvesToNonPublicIp host.text answer then
    .blocked .notAllowedLocal
  else if !isAuthorized state host authorization then .blocked .notAllowed
  else .allowed

/-! ## A request -/

inductive NetworkPolicyDecision where
  | deny | ask
  deriving DecidableEq

inductive NetworkDecisionSource where
  | baselinePolicy | modeGuard | proxyState | decider
  deriving DecidableEq

inductive NetworkDecision where
  | allow
  | deny (reason : Text) (source : NetworkDecisionSource) (decision : NetworkPolicyDecision)
  deriving DecidableEq

namespace NetworkDecision

def denyWithSource (reason : Text) (source : NetworkDecisionSource) : NetworkDecision :=
  deny (if reason.isEmpty then "policy_denied".toList else reason) source .deny

def mapDeciderDecision : NetworkDecision → NetworkDecision
  | allow => allow
  | deny reason _ decision => deny reason .decider decision

end NetworkDecision

/-- Where a request stands. The configuration a check read stays with it until the answer of DNS. -/
inductive Progress where
  | checking (authorization : HostAuthorization)
  | reading (authorization : HostAuthorization)
  | resolving (authorization : HostAuthorization) (host : Host) (read : ConfigState)
  | deciding
  | failed
  | denied (decision : NetworkDecision)
  | allowed (host : Host) (read : ConfigState) (answer : Option (List IpAddr)) (policyOverride : Bool)

structure Request where
  shared : ConfigState
  progress : Progress

inductive RequestEvent where
  | replace (state : ConfigState)
  | reload (result : Except Text (Option ConfigState))
  | read
  | answer (addresses : Option (List IpAddr))
  | decided (decision : NetworkDecision)

section

variable (policy : LocalBindingPolicy) (hasDecider : Bool) (requestHost : Text)

/-- What follows a check that blocks: only a host that is not allowed goes to the decider, and only once. -/
def afterBlocked (authorization : HostAuthorization) (reason : HostBlockReason) : Progress :=
  if authorization = .requireAllowlist ∧ reason = .notAllowed ∧ hasDecider = true then .deciding
  else .denied (.denyWithSource reason.asStr .baselinePolicy)

def requestStep (r : Request) : RequestEvent → Option Request
  | .replace state => some { r with shared := state }
  | .reload result =>
    match r.progress with
    | .checking authorization =>
      match result with
      | .error _ => some { r with progress := .failed }
      | .ok state => some { shared := state.getD r.shared, progress := .reading authorization }
    | _ => none
  | .read =>
    match r.progress with
    | .reading authorization =>
      match Host.parse requestHost with
      | none => some { r with progress := afterBlocked hasDecider authorization .notAllowed }
      | some host => some { r with progress := .resolving authorization host r.shared }
    | _ => none
  | .answer addresses =>
    match r.progress with
    | .resolving authorization host read =>
      match hostDecision policy none read host authorization addresses with
      | .allowed => some { r with progress := .allowed host read addresses (authorization == .approved) }
      | .blocked reason => some { r with progress := afterBlocked hasDecider authorization reason }
    | _ => none
  | .decided decision =>
    match r.progress with
    | .deciding =>
      match decision.mapDeciderDecision with
      | .allow => some { r with progress := .checking .approved }
      | denial => some { r with progress := .denied denial }
    | _ => none

end

def Request.start (state : ConfigState) : Request := ⟨state, .checking .requireAllowlist⟩

/-! ## What an allowed request is known to be -/

/-- `lookup_host`: an address is its own answer, and a name has the answer of DNS. -/
def lookupHost (host : Text) (answer : Option (List IpAddr)) : Option (List IpAddr) :=
  (IpAddr.parse host).elim answer fun ip => some [ip]

def SpelledOut (config : NetworkProxyConfig) (host : Host) : Prop :=
  ∃ pattern ∈ config.allowedDomains.getD [], '*' ∉ trim pattern ∧ '?' ∉ trim pattern ∧
    (normalizeHost (trim pattern) = host.text ∨ unscopedIpLiteral host.text = some (normalizeHost (trim pattern)))

/-- Not denied, and not local unless local binding is allowed or the local host is spelled out. -/
structure Permitted (policy : LocalBindingPolicy) (read : ConfigState) (host : Host)
    (answer : Option (List IpAddr)) : Prop where
  notDenied : domainsMatchHostOrUnscoped read.denySet host.text = false
  reach : effectiveLocalBinding policy none read.config = true ∨
    (isLocalLiteral host = true ∧ SpelledOut read.config host) ∨
    (isLocalLiteral host = false ∧
      ∃ addresses, lookupHost host.text answer = some addresses ∧ ∀ ip ∈ addresses, isNonPublicIp ip = false)

variable {host : Host} {answer : Option (List IpAddr)}

lemma spelledOut_of_explicit (h : isExplicitLocalAllowlisted (config.allowedDomains.getD []) host) :
    SpelledOut config host := by
  obtain ⟨pattern, hp, he⟩ := any_eq_true.mp h
  dsimp only at he
  split at he
  · simp at he
  split at he
  · simp at he
  rename_i hw
  simp only [Bool.or_eq_true, contains_iff_mem, not_or] at hw
  refine ⟨pattern, hp, hw.1, hw.2, ?_⟩
  simpa using he

lemma public_of_resolves {host : Text} (h : hostResolvesToNonPublicIp host answer = false) :
    ∃ addresses, lookupHost host answer = some addresses ∧ ∀ ip ∈ addresses, isNonPublicIp ip = false := by
  unfold hostResolvesToNonPublicIp at h
  unfold lookupHost
  cases hp : IpAddr.parse host with
  | some ip =>
    rw [hp] at h
    exact ⟨[ip], rfl, fun other ho => mem_singleton.mp ho ▸ h⟩
  | none => ?_
  rw [hp] at h
  rcases answer with _ | addresses
  · simp at h
  refine ⟨addresses, rfl, fun ip hip => ?_⟩
  exact Bool.eq_false_iff.mpr (List.any_eq_false.mp h ip hip)

lemma permitted_of_allowed {read : ConfigState}
    (h : hostDecision policy none read host authorization answer = .allowed) :
    Permitted policy read host answer ∧ isAuthorized read host authorization := by
  unfold hostDecision at h
  split at h
  · simp at h
  rename_i hd
  split at h
  · simp at h
  rename_i hli
  split at h
  · simp at h
  rename_i hr
  split at h
  · simp at h
  rename_i ha
  have hau : isAuthorized read host authorization := by simpa using ha
  refine ⟨⟨Bool.eq_false_iff.mpr hd, ?_⟩, hau⟩
  cases hb : effectiveLocalBinding policy none read.config with
  | true => exact .inl rfl
  | false => ?_
  right
  cases hl : isLocalLiteral host with
  | true => ?_
  | false =>
    right
    have hp : hostResolvesToNonPublicIp host.text answer = false := by
      simpa [hb, hl, hau] using hr
    exact ⟨rfl, public_of_resolves hp⟩
  left
  have he : isExplicitLocalAllowlisted (read.config.allowedDomains.getD []) host := by
    simpa [hb, hl] using hli
  exact ⟨rfl, spelledOut_of_explicit he⟩

section

variable {policy : LocalBindingPolicy} {hasDecider : Bool} {requestHost : Text} {start : ConfigState}
variable {events : List RequestEvent} {event : RequestEvent} {r r' : Request} {read : ConfigState}

/-- The configuration that was read last. -/
def LastRead (policy : LocalBindingPolicy) (hasDecider : Bool) (requestHost : Text) (start : ConfigState)
    (events : List RequestEvent) (read : ConfigState) : Prop :=
  ∃ before after middle, events = before ++ .read :: after ∧ .read ∉ after ∧
    run (requestStep policy hasDecider requestHost) (.start start) before = some middle ∧ middle.shared = read

lemma LastRead.concat (h : LastRead policy hasDecider requestHost start events read) (he : event ≠ .read) :
    LastRead policy hasDecider requestHost start (events ++ [event]) read := by
  obtain ⟨before, after, middle, rfl, ha, hr⟩ := h
  refine ⟨before, after ++ [event], middle, by simp, ?_, hr⟩
  rw [mem_append, mem_singleton, not_or]
  exact ⟨ha, he.symm⟩

def Known (policy : LocalBindingPolicy) (hasDecider : Bool) (requestHost : Text) (start : ConfigState)
    (events : List RequestEvent) : Progress → Prop
  | .checking authorization | .reading authorization => authorization = .approved → hasDecider = true
  | .resolving authorization host read => (authorization = .approved → hasDecider = true) ∧
    host.text = normalizeHost requestHost ∧ LastRead policy hasDecider requestHost start events read
  | .deciding => hasDecider = true
  | .failed | .denied _ => True
  | .allowed host read answer _ => host.text = normalizeHost requestHost ∧
    LastRead policy hasDecider requestHost start events read ∧ Permitted policy read host answer ∧
    (hasDecider = false → domainsMatchHostOrUnscoped read.allowSet host.text = true ∧
      domainsMatchHostOrUnscoped read.reviewSet host.text = false)

lemma known_afterBlocked (authorization : HostAuthorization) (reason : HostBlockReason) :
    Known policy hasDecider requestHost start events (afterBlocked hasDecider authorization reason) := by
  unfold afterBlocked
  split
  · rename_i h
    exact h.2.2
  · trivial

lemma Known.concat {progress : Progress} (h : Known policy hasDecider requestHost start events progress)
    (he : event ≠ .read) : Known policy hasDecider requestHost start (events ++ [event]) progress := by
  cases progress with
  | checking | reading | deciding => exact h
  | resolving => exact ⟨h.1, h.2.1, h.2.2.concat he⟩
  | failed | denied => trivial
  | allowed => exact ⟨h.1, h.2.1.concat he, h.2.2⟩

lemma text_of_parse (h : Host.parse input = some host) :
    host.text = normalizeHost input := by
  unfold Host.parse at h
  split at h
  · exact congrArg Host.text (some.inj h).symm
  · simp at h

lemma known_step (hru : run (requestStep policy hasDecider requestHost) (.start start) events = some r)
    (h : Known policy hasDecider requestHost start events r.progress)
    (hs : requestStep policy hasDecider requestHost r event = some r') :
    Known policy hasDecider requestHost start (events ++ [event]) r'.progress := by
  cases event with
  | replace state =>
    cases hs
    exact h.concat (by simp)
  | reload result =>
    cases hp : r.progress with
    | checking authorization => ?_
    | _ => simp [requestStep, hp] at hs
    rw [hp] at h
    rcases result with _ | state
    · simp only [requestStep, hp, some.injEq] at hs
      obtain rfl := hs
      trivial
    simp only [requestStep, hp, some.injEq] at hs
    obtain rfl := hs
    exact h
  | read =>
    cases hp : r.progress with
    | reading authorization => ?_
    | _ => simp [requestStep, hp] at hs
    rw [hp] at h
    rcases hpa : Host.parse requestHost with _ | host
    · simp only [requestStep, hp, hpa, some.injEq] at hs
      obtain rfl := hs
      exact known_afterBlocked _ _
    simp only [requestStep, hp, hpa, some.injEq] at hs
    obtain rfl := hs
    exact ⟨h, text_of_parse hpa, events, [], r, rfl, by simp, hru, rfl⟩
  | answer addresses => ?_
  | decided decision =>
    cases hp : r.progress with
    | deciding => ?_
    | _ => simp [requestStep, hp] at hs
    rw [hp] at h
    cases decision with
    | allow => ?_
    | deny =>
      simp only [requestStep, hp, NetworkDecision.mapDeciderDecision, some.injEq] at hs
      obtain rfl := hs
      trivial
    simp only [requestStep, hp, NetworkDecision.mapDeciderDecision, some.injEq] at hs
    obtain rfl := hs
    exact fun _ => h
  cases hp : r.progress with
  | resolving authorization host read => ?_
  | _ => simp [requestStep, hp] at hs
  rw [hp] at h
  obtain ⟨ha, hh, hre⟩ := h
  cases hd : hostDecision policy none read host authorization addresses with
  | allowed => ?_
  | blocked reason =>
    simp only [requestStep, hp, hd, some.injEq] at hs
    obtain rfl := hs
    exact known_afterBlocked _ _
  simp only [requestStep, hp, hd, some.injEq] at hs
  obtain rfl := hs
  obtain ⟨hpe, hau⟩ := permitted_of_allowed hd
  refine ⟨hh, hre.concat (by simp), hpe, fun hn => ?_⟩
  cases authorization with
  | approved => exact absurd (ha rfl) (by simp [hn])
  | requireAllowlist => ?_
  simp only [isAuthorized, Bool.or_eq_true, Bool.and_eq_true] at hau
  rcases hau with hau | ⟨hr, hal⟩
  · cases hau
  · exact ⟨hal, by simpa using hr⟩

/-- However the configuration is replaced, an allowed request is permitted by the one its last check read. -/
theorem allowed_request_permitted {host : Host} {answer : Option (List IpAddr)} {policyOverride : Bool}
    (hrun : run (requestStep policy hasDecider requestHost) (.start start) events = some r)
    (hallowed : r.progress = .allowed host read answer policyOverride) :
    host.text = normalizeHost requestHost ∧ LastRead policy hasDecider requestHost start events read ∧
      Permitted policy read host answer ∧
      (hasDecider = false → domainsMatchHostOrUnscoped read.allowSet host.text = true ∧
        domainsMatchHostOrUnscoped read.reviewSet host.text = false) := by
  have hs : Known policy hasDecider requestHost start [] (Request.start start).progress :=
    fun h => absurd h (by decide)
  have hk := invariant (fun events r => Known policy hasDecider requestHost start events r.progress) hs
    (fun _ _ _ _ hrun h hst => known_step hrun h hst) hrun
  rw [hallowed] at hk
  exact hk

end

def noRules : ConfigState where
  config := ⟨true, .full, true, false, none, none, [], none, none⟩
  denySet := ⟨[]⟩
  reviewSet := ⟨[]⟩
  allowSet := ⟨[]⟩

theorem approved_name_permitted : Permitted .defaultFalse noRules ⟨"example.org", by decide⟩
    (some [.v4 ⟨8, 8, 8, 8⟩]) := by
  let events : List RequestEvent := [.reload (.ok none), .read, .answer none, .decided .allow,
    .reload (.ok (some noRules)), .read, .answer (some [.v4 ⟨8, 8, 8, 8⟩])]
  have hr : run (requestStep .defaultFalse true "Example.org.") (.start noRules) events =
      some ⟨noRules, .allowed ⟨"example.org", by decide⟩ noRules (some [.v4 ⟨8, 8, 8, 8⟩]) true⟩ := rfl
  exact (allowed_request_permitted hr rfl).2.2.1

end Codex.Network
