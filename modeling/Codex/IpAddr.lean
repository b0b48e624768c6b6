import Mathlib

/-! # IP addresses as `std::net` reads and classifies them, from the front of a text -/

namespace Codex

open List Option

structure Ipv4Addr where
  a : UInt8
  b : UInt8
  c : UInt8
  d : UInt8
  deriving DecidableEq

structure Ipv6Addr where
  segments : Fin 8 → UInt16
  deriving DecidableEq

inductive IpAddr where
  | v4 (ip : Ipv4Addr)
  | v6 (ip : Ipv6Addr)
  deriving DecidableEq

namespace IpAddr

/-! ## Reading -/

def digit? (radix : Nat) (c : Char) : Option Nat :=
  let value :=
    if '0' ≤ c ∧ c ≤ '9' then some (c.toNat - '0'.toNat)
    else if 'a' ≤ c ∧ c ≤ 'f' then some (c.toNat - 'a'.toNat + 10)
    else if 'A' ≤ c ∧ c ≤ 'F' then some (c.toNat - 'A'.toNat + 10)
    else none
  value.filter (· < radix)

/-- `read_number`: at most so many digits, and a value that fits below the bound. -/
def readNumber (radix maxDigits bound : Nat) (allowZeroFirst : Bool) (s : List Char) : Option (Nat × List Char) :=
  let digits := s.takeWhile fun c => (digit? radix c).isSome
  let value := digits.foldl (fun n c => n * radix + (digit? radix c).getD 0) 0
  if digits.isEmpty ∨ maxDigits < digits.length ∨ bound ≤ value then none
  else if !allowZeroFirst ∧ digits.head? = some '0' ∧ 1 < digits.length then none
  else some (value, s.dropWhile fun c => (digit? radix c).isSome)

def readGivenChar (c : Char) : List Char → Option (List Char)
  | [] => none
  | d :: s => if c = d then some s else none

def readOctet : List Char → Option (Nat × List Char) := readNumber 10 3 256 false

def readIpv4Addr (s : List Char) : Option (Ipv4Addr × List Char) := do
  let (a, s) ← readOctet s
  let (b, s) ← readOctet (← readGivenChar '.' s)
  let (c, s) ← readOctet (← readGivenChar '.' s)
  let (d, s) ← readOctet (← readGivenChar '.' s)
  return (⟨.ofNat a, .ofNat b, .ofNat c, .ofNat d⟩, s)

def readGroups (first : Bool) : Nat → List Char → List Nat × Bool × List Char
  | 0, s => ([], false, s)
  | left + 1, s =>
    let body := if first then some s else readGivenChar ':' s
    -- an embedded IPv4 address takes two groups
    match (if 0 < left then body.bind readIpv4Addr else none) with
    | some (ip, s) => ([ip.a.toNat * 256 + ip.b.toNat, ip.c.toNat * 256 + ip.d.toNat], true, s)
    | none =>
      match body.bind (readNumber 16 4 65536 true) with
      | some (group, s) =>
        let (groups, ended, s) := readGroups false left s
        (group :: groups, ended, s)
      | none => ([], false, s)

def ofGroups (groups : List Nat) : Ipv6Addr := ⟨fun i => .ofNat (groups.getD i 0)⟩

/-- Eight groups, or fewer around a double colon; an IPv4 address may end them but not stand before the colons. -/
def readIpv6Addr (s : List Char) : Option (Ipv6Addr × List Char) :=
  let (head, headIpv4, s) := readGroups true 8 s
  if head.length = 8 then some (ofGroups head, s)
  else if headIpv4 then none
  else do
    let s ← readGivenChar ':' s
    let s ← readGivenChar ':' s
    let (tail, _, s) := readGroups true (7 - head.length) s
    return (ofGroups (head ++ replicate (8 - head.length - tail.length) 0 ++ tail), s)

def parseIpv6 (s : List Char) : Option Ipv6Addr :=
  (readIpv6Addr s).bind fun (ip, rest) => if rest.isEmpty then some ip else none

/-- `str::parse::<IpAddr>()`: the first reader that takes something decides, and nothing may be left over. -/
def parse (s : List Char) : Option IpAddr :=
  let read := ((readIpv4Addr s).map fun (ip, rest) => (v4 ip, rest)).or
    ((readIpv6Addr s).map fun (ip, rest) => (v6 ip, rest))
  read.bind fun (ip, rest) => if rest.isEmpty then some ip else none

example : parse "2001:db8::1".toList = parse "2001:0db8:0::0:1".toList ∧
    (parse "2001:db8::1".toList).isSome := by decide +kernel

example : parse "::ffff:127.0.0.1".toList = parse "::ffff:7f00:1".toList ∧ parse "127.0.0.01".toList = none ∧
    parse "1::2::3".toList = none := by decide +kernel

/-! ## The letters of an address -/

def IsAddressChar (c : Char) : Prop := (digit? 16 c).isSome = true ∨ c = ':' ∨ c = '.'

def Takes (s rest : List Char) : Prop := ∃ taken, s = taken ++ rest ∧ ∀ c ∈ taken, IsAddressChar c

lemma Takes.refl (s : List Char) : Takes s s := ⟨[], rfl, by simp⟩

variable {s rest : List Char} {c : Char} {ip : Ipv6Addr}

lemma Takes.trans (h : Takes s t) (h' : Takes t u) : Takes s u := by
  obtain ⟨x, rfl, hx⟩ := h
  obtain ⟨y, rfl, hy⟩ := h'
  refine ⟨x ++ y, by simp, ?_⟩
  intro c hc
  rcases mem_append.mp hc with hc | hc
  · exact hx c hc
  · exact hy c hc

lemma Takes.count_le (h : Takes s t) (c : Char) : t.count c ≤ s.count c := by
  obtain ⟨x, rfl, _⟩ := h
  rw [count_append]
  omega

lemma readGivenChar_eq_some : readGivenChar c s = some rest ↔ s = c :: rest := by
  rcases s with _ | ⟨d, s⟩
  · simp [readGivenChar]
  simp only [readGivenChar, ite_none_right_eq_some, some.injEq, cons.injEq]
  exact and_congr_left fun _ => eq_comm

lemma takes_readGivenChar (hc : IsAddressChar c) (h : readGivenChar c s = some rest) : Takes s rest := by
  obtain rfl := readGivenChar_eq_some.mp h
  exact ⟨[c], rfl, by simpa using hc⟩

lemma digit?_isSome_sixteen (h : (digit? 10 c).isSome) : (digit? 16 c).isSome := by
  unfold digit? at *
  obtain ⟨n, hn⟩ := isSome_iff_exists.mp h
  obtain ⟨hv, hlt⟩ := filter_eq_some_iff.mp hn
  simp only [decide_eq_true_eq] at hlt
  rw [filter_eq_some_iff.mpr ⟨hv, by simp only [decide_eq_true_eq]; omega⟩]
  rfl

lemma takes_readNumber (hr : ∀ c, (digit? radix c).isSome → (digit? 16 c).isSome)
    (h : readNumber radix maxDigits bound allow s = some (n, rest)) : Takes s rest := by
  simp only [readNumber, ite_none_left_eq_some, some.injEq] at h
  obtain ⟨-, -, -, rfl⟩ := h
  refine ⟨s.takeWhile fun c => (digit? radix c).isSome, takeWhile_append_dropWhile.symm, ?_⟩
  intro c hc
  have hd := mem_takeWhile_imp hc
  exact .inl (hr c hd)

lemma takes_readOctet (h : readOctet s = some (n, rest)) : Takes s rest :=
  takes_readNumber (fun _ => digit?_isSome_sixteen) h

lemma takes_dot (h : readGivenChar '.' s = some rest) : Takes s rest :=
  takes_readGivenChar (Or.inr (Or.inr rfl)) h

lemma takes_colon (h : readGivenChar ':' s = some rest) : Takes s rest :=
  takes_readGivenChar (Or.inr (Or.inl rfl)) h

lemma takes_readIpv4Addr {ip : Ipv4Addr} (h : readIpv4Addr s = some (ip, rest)) : Takes s rest := by
  unfold readIpv4Addr at h
  simp only [bind_eq_bind, bind_eq_some_iff, Prod.exists] at h
  obtain ⟨_, _, h₁, _, d₁, _, _, h₂, _, d₂, _, _, h₃, _, d₃, _, _, h₄, -, rfl⟩ := h
  exact ((((((takes_readOctet h₁).trans (takes_dot d₁)).trans (takes_readOctet h₂)).trans (takes_dot d₂)).trans
    (takes_readOctet h₃)).trans (takes_dot d₃)).trans (takes_readOctet h₄)

lemma takes_body {first : Bool} (h : (if first then some s else readGivenChar ':' s) = some body) :
    Takes s body := by
  cases first with
  | true =>
    cases h
    exact Takes.refl _
  | false => exact takes_colon h

lemma takes_readGroups (first : Bool) (n : Nat) (s : List Char) : Takes s (readGroups first n s).2.2 := by
  induction n generalizing first s with
  | zero => exact Takes.refl s
  | succ left ih => ?_
  unfold readGroups
  dsimp only
  split
  · rename_i hip
    obtain ⟨-, hip⟩ := ite_none_right_eq_some.mp hip
    obtain ⟨body, hb, hr⟩ := bind_eq_some_iff.mp hip
    exact (takes_body hb).trans (takes_readIpv4Addr hr)
  split
  · rename_i rest hg
    obtain ⟨body, hb, hr⟩ := bind_eq_some_iff.mp hg
    exact ((takes_body hb).trans (takes_readNumber (fun _ h => h) hr)).trans (ih false rest)
  · exact Takes.refl s

lemma readGroups_full (hl : 2 ≤ left) (h : (readGroups first (left + 1) s).1.length = left + 1) :
    ∃ body rest, (if first then some s else readGivenChar ':' s) = some body ∧ Takes body rest ∧
      (readGroups false left rest).1.length = left := by
  unfold readGroups at h
  dsimp only at h
  split at h
  · simp only [length_cons, length_nil] at h
    omega
  split at h
  · rename_i rest hg
    obtain ⟨body, hb, hr⟩ := bind_eq_some_iff.mp hg
    exact ⟨body, rest, hb, takes_readNumber (fun _ h => h) hr, by simpa using h⟩
  · simp at h

lemma two_le_count_of_readIpv6Addr (h : readIpv6Addr s = some (ip, rest)) : 2 ≤ s.count ':' := by
  unfold readIpv6Addr at h
  have ht := takes_readGroups true 8 s
  by_cases hf : (readGroups true 8 s).1.length = 8
  · obtain ⟨_, s₁, hs, h₁, hf₁⟩ := readGroups_full (by omega) hf
    cases hs
    obtain ⟨s₂, _, h₂, h₃, hf₂⟩ := readGroups_full (by omega) hf₁
    obtain ⟨_, _, h₄, _⟩ := readGroups_full (by omega) hf₂
    obtain rfl := readGivenChar_eq_some.mp h₂
    obtain rfl := readGivenChar_eq_some.mp h₄
    have hfi := h₁.count_le ':'
    have hse := h₃.count_le ':'
    simp only [count_cons_self] at hfi hse
    omega
  simp only [hf, if_false, ite_none_left_eq_some, bind_eq_bind, bind_eq_some_iff] at h
  obtain ⟨-, s₁, h₁, s₂, h₂, -⟩ := h
  have hg := ht.count_le ':'
  rw [readGivenChar_eq_some.mp h₁, readGivenChar_eq_some.mp h₂] at hg
  simp only [count_cons_self] at hg
  omega

lemma takes_readIpv6Addr (h : readIpv6Addr s = some (ip, rest)) : Takes s rest := by
  unfold readIpv6Addr at h
  have ht := takes_readGroups true 8 s
  by_cases hf : (readGroups true 8 s).1.length = 8
  · simp only [hf, if_true, some.injEq, Prod.mk.injEq] at h
    exact h.2 ▸ ht
  simp only [hf, if_false, ite_none_left_eq_some, bind_eq_bind, bind_eq_some_iff] at h
  obtain ⟨-, _, h₁, _, h₂, -, rfl⟩ := h
  exact ((ht.trans (takes_colon h₁)).trans (takes_colon h₂)).trans (takes_readGroups _ _ _)

lemma chars_of_takes_nil (h : Takes s []) : ∀ c ∈ s, IsAddressChar c := by
  obtain ⟨_, rfl, ht⟩ := h
  simpa using ht

lemma readIpv6Addr_of_parseIpv6 (h : parseIpv6 s = some ip) : readIpv6Addr s = some (ip, []) := by
  simp only [parseIpv6, bind_eq_some_iff, Prod.exists, ite_none_right_eq_some, some.injEq] at h
  obtain ⟨_, _, hr, hre, rfl⟩ := h
  rwa [isEmpty_iff.mp hre] at hr

lemma parse_chars (h : (parse s).isSome) : ∀ c ∈ s, IsAddressChar c := by
  obtain ⟨ip, h⟩ := isSome_iff_exists.mp h
  simp only [parse, bind_eq_some_iff, Prod.exists, or_eq_some_iff, map_eq_some_iff, ite_none_right_eq_some] at h
  obtain ⟨_, _, ⟨ip, _, hr, -, rfl⟩ | ⟨-, ip, _, hr, -, rfl⟩, hre, -⟩ := h
  · rw [isEmpty_iff.mp hre] at hr
    exact chars_of_takes_nil (takes_readIpv4Addr hr)
  · rw [isEmpty_iff.mp hre] at hr
    exact chars_of_takes_nil (takes_readIpv6Addr hr)

end IpAddr

/-! ## Classification -/

namespace Ipv4Addr

section

variable (ip : Ipv4Addr)

def toNat : Nat := ((ip.a.toNat * 256 + ip.b.toNat) * 256 + ip.c.toNat) * 256 + ip.d.toNat

def isLoopback : Bool := ip.a == 127

def isPrivate : Bool :=
  ip.a == 10 || (ip.a == 172 && 16 ≤ ip.b && ip.b ≤ 31) || (ip.a == 192 && ip.b == 168)

def isLinkLocal : Bool := ip.a == 169 && ip.b == 254

def isUnspecified : Bool := ip.toNat == 0

def isMulticast : Bool := 224 ≤ ip.a && ip.a ≤ 239

def isBroadcast : Bool := ip.toNat == 2 ^ 32 - 1

end

end Ipv4Addr

namespace Ipv6Addr

section

variable (ip : Ipv6Addr)

def isLoopback : Bool := ip == ⟨fun i => if i = 7 then 1 else 0⟩

def isUnspecified : Bool := ip == ⟨fun _ => 0⟩

def isMulticast : Bool := (ip.segments 0).toNat / 256 == 0xff

def isUniqueLocal : Bool := (ip.segments 0).toNat / 512 == 0xfc00 / 512

def isUnicastLinkLocal : Bool := (ip.segments 0).toNat / 64 == 0xfe80 / 64

def toIpv4 : Option Ipv4Addr :=
  let s := ip.segments
  if s 0 == 0 && s 1 == 0 && s 2 == 0 && s 3 == 0 && s 4 == 0 && (s 5 == 0 || s 5 == 0xffff) then
    some ⟨.ofNat ((s 6).toNat / 256), .ofNat ((s 6).toNat % 256),
      .ofNat ((s 7).toNat / 256), .ofNat ((s 7).toNat % 256)⟩
  else none

end

end Ipv6Addr

def IpAddr.isLoopback : IpAddr → Bool
  | .v4 ip => ip.isLoopback
  | .v6 ip => ip.isLoopback

end Codex
