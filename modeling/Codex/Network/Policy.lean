import Codex.Network.DomainMatcher

/-!
# Proxy configuration, and the hosts it speaks of

What host checks read of `network-proxy/src/config.rs`, and `policy.rs`. The `url` crate's reading is a parameter.
-/

namespace Codex.Network

open Codex.Text

/-! ## Configuration -/

inductive NetworkDomainPermission where
  | none | allow | deny
  deriving DecidableEq

def NetworkDomainPermission.rank : NetworkDomainPermission → Nat
  | none => 0
  | allow => 1
  | deny => 2

structure NetworkDomainPermissionEntry where
  pattern : Text
  permission : NetworkDomainPermission
  deriving DecidableEq

def recordEntry (order : List NetworkDomainPermissionEntry) (entry : NetworkDomainPermissionEntry) :
    List NetworkDomainPermissionEntry :=
  if order.any (·.pattern == entry.pattern) then
    order.map fun known =>
      if known.pattern = entry.pattern ∧ known.permission.rank < entry.permission.rank then entry else known
  else order ++ [entry]

def effectiveEntries (entries : List NetworkDomainPermissionEntry) : List NetworkDomainPermissionEntry :=
  entries.foldl recordEntry []

inductive NetworkMode where
  | limited | full
  deriving DecidableEq

structure NetworkProxyConfig where
  enabled : Bool
  mode : NetworkMode
  allowUpstreamProxy : Bool
  dangerouslyAllowNonLoopbackProxy : Bool
  dangerouslyAllowAllUnixSockets : Option Bool
  domains : Option (List NetworkDomainPermissionEntry)
  reviewDomains : List Text
  unixSockets : Option (List (Text × Bool))
  allowLocalBinding : Option Bool

namespace NetworkProxyConfig

section

variable (config : NetworkProxyConfig)

def domainEntries (permission : NetworkDomainPermission) : Option (List Text) :=
  (config.domains.map fun entries =>
    ((effectiveEntries entries).filter (·.permission == permission)).map (·.pattern)).filter (!·.isEmpty)

def allowedDomains : Option (List Text) := config.domainEntries .allow

def deniedDomains : Option (List Text) := config.domainEntries .deny

def allowUnixSockets : List Text :=
  ((config.unixSockets.getD []).filter (·.2)).map (·.1)

end

end NetworkProxyConfig

def compileAllowlist (patterns : List Text) : Except Text DomainPatternSet := DomainPatternSet.new patterns .allow

def compileDenylist (patterns : List Text) : Except Text DomainPatternSet := DomainPatternSet.new patterns .reject

/-! ## Addresses that are not public -/

def ipv4InCidr (ip base : Ipv4Addr) (bits : Nat) : Bool := ip.toNat / 2 ^ (32 - bits) == base.toNat / 2 ^ (32 - bits)

def isNonPublicIpv4 (ip : Ipv4Addr) : Bool :=
  ip.isLoopback || ip.isPrivate || ip.isLinkLocal || ip.isUnspecified || ip.isMulticast || ip.isBroadcast ||
    ipv4InCidr ip ⟨0, 0, 0, 0⟩ 8 || ipv4InCidr ip ⟨100, 64, 0, 0⟩ 10 || ipv4InCidr ip ⟨192, 0, 0, 0⟩ 24 ||
    ipv4InCidr ip ⟨192, 0, 2, 0⟩ 24 || ipv4InCidr ip ⟨198, 18, 0, 0⟩ 15 || ipv4InCidr ip ⟨198, 51, 100, 0⟩ 24 ||
    ipv4InCidr ip ⟨203, 0, 113, 0⟩ 24 || ipv4InCidr ip ⟨240, 0, 0, 0⟩ 4

def isNonPublicIpv6 (ip : Ipv6Addr) : Bool :=
  match ip.toIpv4 with
  | some v4 => isNonPublicIpv4 v4 || ip.isLoopback
  | none => ip.isLoopback || ip.isUnspecified || ip.isMulticast || ip.isUniqueLocal || ip.isUnicastLinkLocal

def isNonPublicIp : IpAddr → Bool
  | .v4 ip => isNonPublicIpv4 ip
  | .v6 ip => isNonPublicIpv6 ip

/-- A normalised host is never empty. -/
structure Host where
  text : Text
  nonempty : text ≠ []

def Host.parse (input : Text) : Option Host :=
  if h : normalizeHost input ≠ [] then some ⟨normalizeHost input, h⟩ else none

def isLoopbackHost (host : Host) : Bool :=
  let text := (unscopedIpLiteral host.text).getD host.text
  text == "localhost".toList || ((IpAddr.parse text).map (·.isLoopback)).getD false

/-! ## Patterns as constraints compare them -/

inductive DomainPattern where
  | apexAndSubdomains (domain : Text)
  | subdomainsOnly (domain : Text)
  | exact (domain : Text)
  deriving DecidableEq

def isWildcardChar (c : Char) : Bool := c == '*' || c == '?' || c == '%'

def unbracketed (domain : Text) : Text :=
  if startsWith "[" domain ∧ domain.getLast? = some ']' then (domain.drop 1).dropLast else domain

/-- The empty text stands for a domain that the `url` crate does not take. -/
def parseDomainForConstraints (urlHost : Text → Option Text) (domain : Text) : Text :=
  let domain := trimDots (trim domain)
  if domain.isEmpty then []
  else if (unbracketed domain).any isWildcardChar then domain
  else (urlHost (unbracketed domain)).getD []

def normalizeDomain (domain : Text) : Text := toLower (trimDots domain)

def domainEq (left right : Text) : Bool := normalizeDomain left == normalizeDomain right

def isSubdomainOrEqual (child parent : Text) : Bool :=
  normalizeDomain child == normalizeDomain parent || ('.' :: normalizeDomain parent).isSuffixOf (normalizeDomain child)

def isStrictSubdomain (child parent : Text) : Bool :=
  normalizeDomain child != normalizeDomain parent && ('.' :: normalizeDomain parent).isSuffixOf (normalizeDomain child)

namespace DomainPattern

def parseForConstraints (urlHost : Text → Option Text) (input : Text) : DomainPattern :=
  let input := trim input
  if input.isEmpty then exact []
  else
    match stripPrefix "**." input with
    | some domain => apexAndSubdomains (parseDomainForConstraints urlHost domain)
    | none =>
      match stripPrefix "*." input with
      | some domain => subdomainsOnly (parseDomainForConstraints urlHost domain)
      | none => exact (parseDomainForConstraints urlHost input)

def allows : DomainPattern → DomainPattern → Bool
  | exact domain, exact candidate => domainEq candidate domain
  | exact _, _ => false
  | subdomainsOnly domain, exact candidate => isStrictSubdomain candidate domain
  | subdomainsOnly domain, subdomainsOnly candidate => isSubdomainOrEqual candidate domain
  | subdomainsOnly domain, apexAndSubdomains candidate => isStrictSubdomain candidate domain
  | apexAndSubdomains domain, exact candidate => isSubdomainOrEqual candidate domain
  | apexAndSubdomains domain, subdomainsOnly candidate => isSubdomainOrEqual candidate domain
  | apexAndSubdomains domain, apexAndSubdomains candidate => isSubdomainOrEqual candidate domain

end DomainPattern

end Codex.Network
