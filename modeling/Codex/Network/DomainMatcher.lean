import Codex.Result
import Codex.Wildcard
import Codex.IpAddr
import Codex.PathUri.Laws

/-! # Domain patterns of the network proxy: `network-proxy/src/domain_matcher.rs` -/

namespace Codex.Network

open Codex.Text Codex.Wildcard Codex.Result List

def toLower (s : Text) : Text := s.map Char.toLower

def trimDots (s : Text) : Text := s.rdropWhile (· == '.')

/-! ## Hosts -/

def normalizeIpLiteral (host : Text) : Option Text :=
  if (IpAddr.parse host).isSome then some host
  else ["%25".toList, "%".toList].findSome? fun delimiter => do
    let (ip, scope) ← splitOnce delimiter host
    if (IpAddr.parse ip).isSome then some (ip ++ "%" ++ scope) else none

def normalizeDnsHostOrIpLiteral (host : Text) : Text :=
  let host := trimDots (toLower host)
  (normalizeIpLiteral host).getD host

def bracketed : Text → Option Text
  | '[' :: s => if s.contains ']' then some (s.takeWhile (· != ']')) else none
  | _ => none

def normalizeHost (host : Text) : Text :=
  let host := trim host
  match bracketed host with
  | some inner => normalizeDnsHostOrIpLiteral inner
  | none =>
    if host.count ':' = 1 then normalizeDnsHostOrIpLiteral (host.takeWhile (· != ':'))
    else normalizeDnsHostOrIpLiteral host

def unscopedIpLiteral (host : Text) : Option Text := do
  let (ip, _) ← splitOnce "%" host
  if (IpAddr.parse ip).isSome then some ip else none

/-! ## Patterns -/

def splitStars (pattern : Text) : Text × Text :=
  match stripPrefix "**." pattern with
  | some domain => ("**.", domain)
  | none =>
    match stripPrefix "*." pattern with
    | some domain => ("*.", domain)
    | none => ([], pattern)

def normalizePattern (pattern : Text) : Text :=
  let pattern := trim pattern
  if pattern = "*".toList then "*"
  else (splitStars pattern).1 ++ normalizeHost (splitStars pattern).2

def expandDomainPattern (pattern : Text) : List Text :=
  let pattern := trim pattern
  if (splitStars pattern).1.isEmpty then [pattern]
  else
    let domain := trim (splitStars pattern).2
    if domain.isEmpty then [[]]
    else if startsWith "**." pattern then [domain, "?*." ++ domain]
    else ["?*." ++ domain]

def isGlobalWildcardDomainPattern (pattern : Text) : Bool :=
  (expandDomainPattern (normalizePattern pattern)).contains "*".toList

inductive GlobalWildcard where
  | allow | reject
  deriving DecidableEq

structure DomainPatternSet where
  patterns : List (List UInt8)

namespace DomainPatternSet

def isBracket (c : Char) : Bool := c == '[' || c == ']'

/-- What may stand in a pattern with brackets: an IPv6 literal or a star, then dots or a port. -/
def bracketsSupported (host : Text) : Bool :=
  match (stripPrefix "[" host).bind (splitOnce "]") with
  | none => false
  | some (ip, suffix) =>
    let normalized := normalizeDnsHostOrIpLiteral ip
    !ip.any isBracket && (normalized == "*".toList || (IpAddr.parseIpv6 (normalized.takeWhile (· != '%'))).isSome) &&
      !suffix.any isBracket && (suffix.all (· == '.') || startsWith ":" suffix)

def checkPattern (globalWildcard : GlobalWildcard) (pattern : Text) : Except Text Unit :=
  let raw := trim pattern
  let host := (splitStars raw).2
  if globalWildcard = .reject ∧ isGlobalWildcardDomainPattern pattern then
    .error ("unsupported global wildcard domain pattern \"*\"; use exact hosts or scoped wildcards like ".toList ++
      "*.example.com or **.example.com".toList)
  else if raw.any (fun c => "\x7b\x7d\\/".toList.contains c || isWhitespace c) then
    .error ("unsupported domain pattern syntax: ".toList ++ pattern)
  else if (splitOnce "**" host).isSome then .error ("unsupported repeated wildcard: ".toList ++ pattern)
  else if host.any isBracket && !bracketsSupported host then
    .error ("brackets are only supported for IPv6 literals or [*]: ".toList ++ pattern)
  else .ok ()

/-- A candidate that was seen before is passed over, whatever it is. -/
def addCandidate (compiled : List Text) (candidate : Text) : Except Text (List Text) :=
  if compiled.contains candidate then .ok compiled
  else if candidate.isEmpty then .error "domain pattern is empty"
  else .ok (compiled ++ [candidate])

def addPattern (globalWildcard : GlobalWildcard) (compiled : List Text) (pattern : Text) :
    Except Text (List Text) := do
  checkPattern globalWildcard pattern
  (expandDomainPattern (normalizePattern pattern)).foldlM addCandidate compiled

def new (patterns : List Text) (globalWildcard : GlobalWildcard) : Except Text DomainPatternSet := do
  let compiled ← patterns.foldlM (addPattern globalWildcard) []
  return ⟨compiled.map asBytes⟩

/-- A star is byte 42 and a question mark byte 63. -/
def token (c : UInt8) : Option (UInt8 → Bool) :=
  if c = 42 then none else some fun b => c == 63 || toAsciiLowercase c == toAsciiLowercase b

def matchesBytes (pattern host : List UInt8) : Bool := search (pattern.map token) host none

/-- How often the loop of `matches` goes round. -/
def iterations (pattern host : List UInt8) : Nat := rounds (pattern.map token) host none

def isMatch (set : DomainPatternSet) (host : Text) : Bool :=
  set.patterns.any fun pattern => matchesBytes pattern (asBytes host)

/-! ## What a compiled list matches -/

def Glob (pattern : Text) (bytes : List UInt8) : Prop := Matches ((asBytes pattern).map token) bytes

variable {bytes : List UInt8} {compiled : List Text} {w : GlobalWildcard}

variable {p pattern : Text} {compiled' : List Text}

lemma glob_append_iff : Glob (p ++ q) bytes ↔ ∃ x y, bytes = x ++ y ∧ Glob p x ∧ Glob q y := by
  unfold Glob asBytes
  rw [flatMap_append, map_append, matches_append_iff]

lemma glob_dot_iff : Glob "." bytes ↔ bytes = [46] := by
  show Matches [token 46] bytes ↔ _
  have ht : token 46 = some fun b => (46 : UInt8) == 63 || toAsciiLowercase 46 == toAsciiLowercase b := rfl
  simp only [ht, matches_some_iff, matches_nil_iff]
  constructor
  · rintro ⟨b, _, rfl, hb, rfl⟩
    have ha : ∀ b : UInt8, ((46 : UInt8) == 63 || toAsciiLowercase 46 == toAsciiLowercase b) → b = 46 := by
      decide +kernel
    rw [ha b hb]
  · rintro rfl
    exact ⟨46, [], rfl, by decide, rfl⟩

lemma glob_some_iff : Glob "?*" bytes ↔ bytes ≠ [] := by
  show Matches [token 63, token 42] bytes ↔ _
  have ho : token 63 = some fun b => (63 : UInt8) == 63 || toAsciiLowercase 63 == toAsciiLowercase b := rfl
  have hs : token 42 = none := rfl
  simp only [ho, hs, matches_some_iff, matches_star_iff, matches_nil_iff]
  constructor
  · rintro ⟨b, rest, rfl, -⟩
    simp
  intro h
  obtain ⟨b, rest, rfl⟩ := exists_cons_of_ne_nil h
  exact ⟨b, rest, rfl, rfl, rest, [], by simp, rfl⟩

lemma star_of_glob_nil (h : Glob p []) : ∀ c ∈ p, c = '*' := by
  intro c hc
  have hby := all_eq_true.mp (matches_stars_iff.mp h)
  have hf : asBytes [c] ≠ [] := by
    intro hn
    exact absurd (asBytes_injective (hn.trans (show ([] : List UInt8) = asBytes [] from rfl))) (by simp)
  obtain ⟨b, _, hb⟩ := exists_cons_of_ne_nil hf
  have hin : b ∈ asBytes [c] := by simp [hb]
  have hm : b ∈ asBytes p := by
    obtain ⟨d, hd, hbd⟩ := mem_flatMap.mp hin
    exact mem_flatMap.mpr ⟨d, by simpa [mem_singleton.mp hd] using hc, hbd⟩
  have hs : b = 42 := by
    have := hby (token b) (mem_map_of_mem hm)
    unfold token at this
    split at this
    · assumption
    · simp at this
  subst hs
  exact (mem_singleton.mp (mem_of_mem_asBytes hin (by decide))).symm

lemma isMatch_compiled :
    isMatch ⟨compiled.map asBytes⟩ host ↔ ∃ candidate ∈ compiled, Glob candidate (asBytes host) := by
  simp only [isMatch, any_map, any_eq_true, Function.comp_apply, matchesBytes, search_iff]
  rfl

lemma addCandidate_ok (h : addCandidate compiled candidate = .ok compiled') :
    (∀ x, x ∈ compiled' ↔ x ∈ compiled ∨ x ∈ [candidate]) ∧ ([] ∉ compiled → [] ∉ compiled') := by
  unfold addCandidate at h
  split at h
  · rename_i hs
    cases h
    refine ⟨fun x => ⟨.inl, ?_⟩, id⟩
    rintro (hx | hx)
    · exact hx
    · rw [mem_singleton.mp hx]
      simpa using hs
  split at h
  · simp at h
  rename_i he
  cases h
  refine ⟨fun x => mem_append, ?_⟩
  intro ho hn
  rcases mem_append.mp hn with hn | hn
  · exact ho hn
  · exact he (by rw [← mem_singleton.mp hn]; rfl)

lemma addPattern_ok (h : addPattern w compiled pattern = .ok compiled') :
    checkPattern w pattern = .ok () ∧
      (∀ x, x ∈ compiled' ↔ x ∈ compiled ∨ x ∈ expandDomainPattern (normalizePattern pattern)) ∧
      ([] ∉ compiled → [] ∉ compiled') := by
  obtain ⟨⟨⟩, hc, hf⟩ := bind_eq_ok.mp h
  refine ⟨hc, ?_, ?_⟩
  · intro x
    rw [foldlM_mem (fun candidate => [candidate]) hf fun s a t hst => (addCandidate_ok hst).1]
    simp
  · intro ho
    exact foldlM_invariant (fun l => [] ∉ l) hf ho fun s a t _ hs hst => (addCandidate_ok hst).2 hs

lemma new_ok {patterns : List Text} {set : DomainPatternSet} (h : new patterns w = .ok set) :
    (∀ pattern ∈ patterns, checkPattern w pattern = .ok ()) ∧
      (∀ pattern ∈ patterns, [] ∉ expandDomainPattern (normalizePattern pattern)) ∧
      ∀ host, set.isMatch host ↔ ∃ pattern ∈ patterns,
        ∃ candidate ∈ expandDomainPattern (normalizePattern pattern), Glob candidate (asBytes host) := by
  obtain ⟨compiled, hf, hse⟩ := bind_eq_ok.mp h
  cases hse
  have hm := foldlM_mem (fun pattern => expandDomainPattern (normalizePattern pattern)) hf
    fun s a t hst => (addPattern_ok hst).2.1
  have hn : [] ∉ compiled :=
    foldlM_invariant (fun l => [] ∉ l) hf (by simp) fun s a t _ hs hst => (addPattern_ok hst).2.2 hs
  refine ⟨?_, ?_, ?_⟩
  · intro pattern hp
    obtain ⟨m, n, hst⟩ := foldlM_step hf hp
    exact (addPattern_ok hst).1
  · intro pattern hp hem
    exact hn ((hm []).mpr (.inr ⟨pattern, hp, hem⟩))
  · intro host
    rw [isMatch_compiled]
    constructor
    · rintro ⟨candidate, hc, hg⟩
      rcases (hm candidate).mp hc with ho | ⟨pattern, hp, he⟩
      · simp at ho
      · exact ⟨pattern, hp, candidate, he, hg⟩
    · rintro ⟨pattern, hp, candidate, he, hg⟩
      exact ⟨candidate, (hm candidate).mpr (.inr ⟨pattern, hp, he⟩), hg⟩

/-! ## Globs -/

/-- What a byte of a pattern takes of a host. -/
def Takes (c : UInt8) (piece : List UInt8) : Prop :=
  c = 42 ∨ ∃ b, piece = [b] ∧ (c = 63 ∨ toAsciiLowercase c = toAsciiLowercase b)

lemma matches_cons_iff {q : Pattern UInt8} :
    Matches (token c :: q) bytes ↔ ∃ x y, bytes = x ++ y ∧ Takes c x ∧ Matches q y := by
  unfold token Takes
  by_cases hs : c = 42
  · simp [hs, matches_star_iff]
  simp only [hs, if_false, matches_some_iff, false_or, Bool.or_eq_true, beq_iff_eq]
  constructor
  · rintro ⟨b, rest, rfl, hb, hr⟩
    exact ⟨[b], rest, rfl, ⟨b, rfl, hb⟩, hr⟩
  · rintro ⟨_, rest, rfl, ⟨b, rfl, hb⟩, hr⟩
    exact ⟨b, rest, rfl, hb, hr⟩

/-- **Matching is glob matching**, in a bounded number of rounds. -/
theorem matches_glob (pattern host : List UInt8) :
    (matchesBytes pattern host = true ↔ ∃ pieces, host = pieces.flatten ∧ Forall₂ Takes pattern pieces) ∧
      iterations pattern host ≤ (pattern.length + 1) * (host.length + 1) := by
  refine ⟨?_, by simpa [iterations] using rounds_le (pattern.map token) host⟩
  unfold matchesBytes
  rw [search_iff]
  induction pattern generalizing host with
  | nil => simp [matches_nil_iff]
  | cons c pattern ih => ?_
  simp only [map_cons, matches_cons_iff, ih]
  constructor
  · rintro ⟨x, _, rfl, hx, pieces, rfl, hp⟩
    exact ⟨x :: pieces, rfl, .cons hx hp⟩
  rintro ⟨_, rfl, hp⟩
  obtain ⟨x, rest, hx, hr, rfl⟩ := forall₂_cons_left_iff.mp hp
  exact ⟨x, rest.flatten, rfl, hx, rest, rfl, hr⟩

end DomainPatternSet

/-! ## Hosts and patterns without brackets, ports and scopes -/

variable {c d : Char}

lemma toLower_char_eq (hd : d.isAlpha = false) : c.toLower = d ↔ c = d := by
  unfold Char.toLower
  split
  · rename_i h
    constructor
    · rintro rfl
      simp [Char.isAlpha, Char.isLower, UInt32.le_iff_toNat_le] at hd h
      omega
    rintro rfl
    simp [Char.isAlpha, Char.isUpper, UInt32.le_iff_toNat_le] at hd h
    omega
  · rfl

variable {s : Text}

lemma mem_toLower (hd : d.isAlpha = false) : d ∈ toLower s ↔ d ∈ s := by
  simp only [toLower, mem_map, toLower_char_eq hd, exists_eq_right]

lemma isWhitespace_toLower (c : Char) : isWhitespace c.toLower = isWhitespace c := by
  unfold Char.toLower
  split
  · rename_i h
    simp only [UInt32.le_iff_toNat_le] at h
    have hz : 'Z'.val.toNat = 90 := rfl
    have hs : (c.val + ('a'.val - 'A'.val)).toNat = c.val.toNat + 32 := by
      exact Nat.mod_eq_of_lt (show c.val.toNat + 32 < 2 ^ 32 by omega)
    simp only [isWhitespace, Char.toNat]
    grind
  · rfl

lemma toLower_toLower (s : Text) : toLower (toLower s) = toLower s := by
  simp [toLower, Function.comp_def]

lemma trimDots_toLower (s : Text) : trimDots (toLower s) = toLower (trimDots s) := by
  have hd : (fun c : Char => c == '.') ∘ Char.toLower = fun c => c == '.' := by
    funext c
    rw [Function.comp_apply, Bool.eq_iff_iff, beq_iff_eq, beq_iff_eq, toLower_char_eq (by decide)]
  unfold trimDots toLower rdropWhile
  rw [← map_reverse, dropWhile_map, hd, ← map_reverse]

lemma trimDots_trimDots (s : Text) : trimDots (trimDots s) = trimDots s := rdropWhile_idempotent _ _

lemma mem_of_mem_trimDots (h : c ∈ trimDots s) : c ∈ s :=
  (List.rdropWhile_prefix _ _).subset h

lemma trim_of_visible (h : ∀ c ∈ s, isWhitespace c = false) : trim s = s := by
  have hs : trimStart s = s := by
    unfold trimStart
    cases s with
    | nil => rfl
    | cons c s => rw [dropWhile_cons_of_neg (by simp [h c (by simp)])]
  unfold trim trimEnd
  rw [hs, rdropWhile_eq_self_iff]
  intro hne
  simp [h _ (getLast_mem hne)]

lemma normalizeIpLiteral_getD (h : '%' ∉ s) : (normalizeIpLiteral s).getD s = s := by
  unfold normalizeIpLiteral
  split
  · rfl
  have hc : splitOnce "%25" s = none := splitOnce_of_not_mem (c := '%') (by decide) h
  have hp : splitOnce "%" s = none := splitOnce_of_not_mem (c := '%') (by decide) h
  simp only [findSome?_cons, hc, hp]
  rfl

lemma normalizeDns_eq (h : '%' ∉ s) : normalizeDnsHostOrIpLiteral s = toLower (trimDots s) := by
  unfold normalizeDnsHostOrIpLiteral
  rw [trimDots_toLower]
  exact normalizeIpLiteral_getD fun hm =>
    h (mem_of_mem_trimDots ((mem_toLower (by decide)).mp hm))

lemma bracketed_eq_none (h : '[' ∉ s) : bracketed s = none := by
  unfold bracketed
  split
  · exact absurd (by simp) h
  · rfl

end Codex.Network
