import Codex.Network.Policy

/-! # Which texts `normalize_host` takes apart twice -/

namespace Codex.Network

open Codex.Text List Option IpAddr

/-! ## What is normalised -/

def hostCore (host : Text) : Text :=
  match bracketed (trim host) with
  | some inner => inner
  | none => if (trim host).count ':' = 1 then (trim host).takeWhile (· != ':') else trim host

lemma normalizeHost_core (host : Text) : normalizeHost host = normalizeDnsHostOrIpLiteral (hostCore host) := by
  simp only [normalizeHost, hostCore]
  cases bracketed (trim host) with
  | some inner => rfl
  | none => exact (apply_ite normalizeDnsHostOrIpLiteral _ _ _).symm

/-! ## Lengths -/

lemma length_toLower (s : Text) : (toLower s).length = s.length := length_map _

lemma length_trimDots_le (s : Text) : (trimDots s).length ≤ s.length := (List.rdropWhile_prefix _ _).length_le

lemma infix_trim (s : Text) : trim s <:+: s :=
  (List.rdropWhile_prefix _ _).isInfix.trans (dropWhile_suffix _).isInfix

variable {s : Text} {c : Char}

lemma length_normalizeIpLiteral_le (h : normalizeIpLiteral s = some ip) :
    ip.length ≤ s.length := by
  unfold normalizeIpLiteral at h
  split at h
  · rw [some.inj h]
  obtain ⟨_, hd, hip⟩ := exists_of_findSome?_eq_some h
  simp only [bind_eq_bind, bind_eq_some_iff, ite_none_right_eq_some, some.injEq, Prod.exists] at hip
  obtain ⟨_, _, hs, -, rfl⟩ := hip
  rw [splitOnce_append hs]
  simp only [mem_cons, not_mem_nil, or_false] at hd
  rcases hd with rfl | rfl <;> simp

lemma length_normalizeDns_le (s : Text) : (normalizeDnsHostOrIpLiteral s).length ≤ s.length := by
  have hl : (trimDots (toLower s)).length ≤ s.length := by
    have := length_trimDots_le (toLower s)
    rwa [length_toLower] at this
  unfold normalizeDnsHostOrIpLiteral
  cases h : normalizeIpLiteral (trimDots (toLower s)) with
  | none => simpa [h] using hl
  | some ip => simpa [h] using (length_normalizeIpLiteral_le h).trans hl

lemma length_bracketed_lt {inner : Text} (h : bracketed s = some inner) : inner.length < s.length := by
  unfold bracketed at h
  split at h
  · rw [ite_none_right_eq_some] at h
    rw [← some.inj h.2, length_cons]
    exact Nat.lt_succ_of_le (List.takeWhile_prefix _).length_le
  · simp at h

lemma length_takeWhile_lt (h : c ∈ s) : (s.takeWhile (· != c)).length < s.length := by
  have hle := (List.takeWhile_prefix (l := s) (· != c)).length_le
  refine lt_of_le_of_ne hle fun heq => ?_
  have hs := (List.takeWhile_prefix (l := s) (· != c)).eq_of_length heq
  have := mem_takeWhile_imp (hs ▸ h)
  simp at this

lemma normalizeHost_eq_self_iff : normalizeHost s = s ↔
    trim s = s ∧ bracketed s = none ∧ s.count ':' ≠ 1 ∧ normalizeDnsHostOrIpLiteral s = s := by
  constructor
  · intro h
    have hl : s.length ≤ (hostCore s).length := by
      conv_lhs => rw [← h, normalizeHost_core]
      exact length_normalizeDns_le _
    have htl := (infix_trim s).length_le
    have hc := normalizeHost_core s
    rw [h] at hc
    unfold hostCore at hl hc
    cases hb : bracketed (trim s) with
    | some inner =>
      simp only [hb] at hl
      have := length_bracketed_lt hb
      omega
    | none => ?_
    simp only [hb] at hl hc
    by_cases hp : (trim s).count ':' = 1
    · rw [if_pos hp] at hl
      have := length_takeWhile_lt (count_pos_iff.mp (by omega : 0 < (trim s).count ':'))
      omega
    rw [if_neg hp] at hl hc
    have ht : trim s = s := (infix_trim s).eq_of_length (by omega)
    rw [ht] at hb hp hc
    exact ⟨ht, hb, hp, hc.symm⟩
  rintro ⟨ht, hb, hp, hd⟩
  rw [normalizeHost_core, hostCore, ht, hb]
  simp only [hp]
  exact hd

/-! ## Scopes -/

lemma ne_nil_of_parse {ip : Text} (h : (IpAddr.parse ip).isSome) : ip ≠ [] := by
  rintro rfl
  revert h
  decide

lemma addressChar_small (h : IpAddr.IsAddressChar c) : c.toNat < 128 := by
  rcases h with h | rfl | rfl
  · by_contra hl
    have hn : ¬ c ≤ '9' := fun hle => hl (lt_of_le_of_lt (show c.toNat ≤ 57 from hle) (by decide))
    have hlow : ¬ c ≤ 'f' := fun hle => hl (lt_of_le_of_lt (show c.toNat ≤ 102 from hle) (by decide))
    have hup : ¬ c ≤ 'F' := fun hle => hl (lt_of_le_of_lt (show c.toNat ≤ 70 from hle) (by decide))
    simp [digit?, hn, hlow, hup] at h
  · decide
  · decide

lemma addressChar_visible (h : IpAddr.IsAddressChar c) :
    isWhitespace c = false ∧ c ≠ '[' ∧ c ≠ ']' ∧ c ≠ '*' ∧ c ≠ '?' ∧ c ≠ '%' ∧
      "\x7b\x7d\\/".toList.contains c = false := by
  have ha : ∀ n < 128, ((digit? 16 (Char.ofNat n)).isSome ∨ Char.ofNat n = ':' ∨ Char.ofNat n = '.') →
      isWhitespace (Char.ofNat n) = false ∧ Char.ofNat n ≠ '[' ∧ Char.ofNat n ≠ ']' ∧ Char.ofNat n ≠ '*' ∧
        Char.ofNat n ≠ '?' ∧ Char.ofNat n ≠ '%' ∧ "\x7b\x7d\\/".toList.contains (Char.ofNat n) = false := by
    decide +kernel
  have := ha c.toNat (addressChar_small h)
  rw [Char.ofNat_toNat] at this
  exact this h

lemma percent_not_mem_of_parse {ip : Text} (h : (IpAddr.parse ip).isSome) : '%' ∉ ip := by
  intro hm
  have := parse_chars h '%' hm
  unfold IpAddr.IsAddressChar at this
  revert this
  decide

lemma eq_of_append_percent {a b t : Text} (ha : '%' ∉ a) (hb : '%' ∉ b) (h : a ++ '%' :: s = b ++ '%' :: t) :
    a = b ∧ s = t := by
  induction a generalizing b with
  | nil =>
    rcases b with _ | ⟨c, b⟩
    · exact ⟨rfl, (cons.inj h).2⟩
    obtain ⟨rfl, -⟩ := cons.inj h
    exact absurd mem_cons_self hb
  | cons c a ih => ?_
  rcases b with _ | ⟨d, b⟩
  · obtain ⟨rfl, -⟩ := cons.inj h
    exact absurd mem_cons_self ha
  obtain ⟨rfl, ht⟩ := cons.inj h
  obtain ⟨rfl, hr⟩ := ih (fun hin => ha (mem_cons_of_mem _ hin)) (fun hin => hb (mem_cons_of_mem _ hin)) ht
  exact ⟨rfl, hr⟩

lemma splitOnce_percent {p a t : Text} (ha : '%' ∉ a) :
    splitOnce ('%' :: p) (a ++ ('%' :: p) ++ t) = some (a, t) := by
  induction a with
  | nil => exact splitOnce_self (by simp) t
  | cons c a ih => ?_
  have hc : c ≠ '%' := fun h => ha (by simp [h])
  have hs : stripPrefix ('%' :: p) (c :: (a ++ ('%' :: p) ++ t)) = none := by
    rcases h : stripPrefix ('%' :: p) (c :: (a ++ ('%' :: p) ++ t)) with _ | rest
    · rfl
    have := stripPrefix_eq_some.mp h
    exact absurd (cons.inj this).1 hc
  rw [cons_append, cons_append, splitOnce, hs, ih fun hin => ha (mem_cons_of_mem _ hin)]
  rfl

lemma parseIpv6_chars {ip : Text} (h : (parseIpv6 ip).isSome) : ∀ c ∈ ip, IpAddr.IsAddressChar c := by
  obtain ⟨_, h⟩ := isSome_iff_exists.mp h
  exact chars_of_takes_nil (takes_readIpv6Addr (readIpv6Addr_of_parseIpv6 h))

lemma two_le_count_of_parseIpv6 {ip : Text} (h : (parseIpv6 ip).isSome) : 2 ≤ ip.count ':' := by
  obtain ⟨_, h⟩ := isSome_iff_exists.mp h
  exact two_le_count_of_readIpv6Addr (readIpv6Addr_of_parseIpv6 h)

lemma addressChar_toLower (h : IpAddr.IsAddressChar c) : IpAddr.IsAddressChar c.toLower := by
  have ha : ∀ n < 128, ((digit? 16 (Char.ofNat n)).isSome ∨ Char.ofNat n = ':' ∨ Char.ofNat n = '.') →
      ((digit? 16 (Char.ofNat n).toLower).isSome ∨ (Char.ofNat n).toLower = ':' ∨
        (Char.ofNat n).toLower = '.') := by
    decide +kernel
  have := ha c.toNat (addressChar_small h)
  rw [Char.ofNat_toNat] at this
  exact this h

def EncodedScope (s ip scope : Text) : Prop :=
  s = ip ++ '%' :: '2' :: '5' :: scope ∧ (IpAddr.parse ip).isSome = true

lemma normalizeIpLiteral_encoded (h : EncodedScope s ip scope) :
    normalizeIpLiteral s = some (ip ++ '%' :: scope) := by
  obtain ⟨rfl, hip⟩ := h
  have hp := percent_not_mem_of_parse hip
  have hn : (IpAddr.parse (ip ++ '%' :: '2' :: '5' :: scope)).isSome = false := by
    rw [Bool.eq_false_iff]
    exact fun ha => percent_not_mem_of_parse ha (by simp)
  have hs : splitOnce "%25".toList (ip ++ '%' :: '2' :: '5' :: scope) = some (ip, scope) := by
    have := @splitOnce_percent ['2', '5'] ip scope hp
    simpa using this
  unfold normalizeIpLiteral
  rw [hn]
  simp only [findSome?_cons, hs, bind_eq_bind, bind_some, hip]
  simp

lemma normalizeIpLiteral_plain (h : ∀ ip scope, ¬ EncodedScope s ip scope) :
    (normalizeIpLiteral s).getD s = s := by
  rcases hs : normalizeIpLiteral s with _ | r
  · rfl
  rw [getD_some]
  unfold normalizeIpLiteral at hs
  split at hs
  · exact (some.inj hs).symm
  obtain ⟨_, hd, hip⟩ := exists_of_findSome?_eq_some hs
  simp only [bind_eq_bind, bind_eq_some_iff, ite_none_right_eq_some, some.injEq, Prod.exists] at hip
  obtain ⟨ip, scope, hsp, hp, rfl⟩ := hip
  have hs := splitOnce_append hsp
  simp only [mem_cons, not_mem_nil, or_false] at hd
  rcases hd with rfl | rfl
  · exact absurd ⟨by simpa using hs, hp⟩ (h ip scope)
  · rw [hs]

lemma trim_scoped {ip : Text} (hip : (IpAddr.parse ip).isSome) :
    trim (ip ++ '%' :: s) = ip ++ '%' :: trimEnd s := by
  have he : trimEnd ('%' :: s) = '%' :: trimEnd s := by
    rw [trimEnd_cons, if_neg]
    rintro ⟨-, h⟩
    cases h
  obtain ⟨c, _, rfl⟩ := exists_cons_of_ne_nil (ne_nil_of_parse hip)
  rw [cons_append, trim_cons c _ (addressChar_visible (parse_chars hip c (by simp))).1, ← cons_append,
    trimEnd_append _ (by rw [he]; simp), he]

lemma bracketed_scoped {ip : Text} (hip : (IpAddr.parse ip).isSome) : bracketed (ip ++ s) = none := by
  obtain ⟨c, rest, rfl⟩ := exists_cons_of_ne_nil (ne_nil_of_parse hip)
  unfold bracketed
  split
  · rename_i heq
    have hv := addressChar_visible (parse_chars hip c (by simp))
    exact absurd (cons.inj heq).1 hv.2.1
  · rfl

lemma toLower_append (s t : Text) : toLower (s ++ t) = toLower s ++ toLower t := map_append

lemma trimDots_eq_self_iff : trimDots s = s ↔ ∀ h : s ≠ [], s.getLast h ≠ '.' := by
  unfold trimDots
  simp

def strippedHost (host : Text) : Text := trimDots (toLower (hostCore host))

lemma toLower_strippedHost (host : Text) : toLower (strippedHost host) = strippedHost host := by
  rw [strippedHost, ← trimDots_toLower, toLower_toLower]

lemma trimDots_strippedHost (host : Text) : trimDots (strippedHost host) = strippedHost host := trimDots_trimDots _

lemma normalizeHost_stripped (host : Text) :
    normalizeHost host = (normalizeIpLiteral (strippedHost host)).getD (strippedHost host) :=
  normalizeHost_core host

lemma normalizeDns_of_stripped (hlo : toLower s = s) (hdo : trimDots s = s) :
    normalizeDnsHostOrIpLiteral s = (normalizeIpLiteral s).getD s := by
  simp only [normalizeDnsHostOrIpLiteral, hlo, hdo]

section Scoped

variable {ip scope : Text} (hip : (IpAddr.parse ip).isSome = true)
  (hlo : toLower (ip ++ '%' :: '2' :: '5' :: scope) = ip ++ '%' :: '2' :: '5' :: scope)
  (hdo : trimDots (ip ++ '%' :: '2' :: '5' :: scope) = ip ++ '%' :: '2' :: '5' :: scope)

include hlo in
lemma toLower_decoded : toLower (ip ++ '%' :: scope) = ip ++ '%' :: scope := by
  rw [toLower_append] at hlo ⊢
  obtain ⟨hl, hr⟩ := append_inj hlo (length_toLower ip)
  rw [hl]
  simp only [toLower, map_cons, cons.injEq] at hr
  rw [show toLower ('%' :: scope) = '%' :: scope.map Char.toLower from rfl, hr.2.2.2]

include hdo in
lemma trimDots_decoded : trimDots (ip ++ '%' :: scope) = ip ++ '%' :: scope := by
  rw [trimDots_eq_self_iff] at hdo ⊢
  intro _
  have hl := hdo (by simp)
  cases scope with
  | nil => simp
  | cons c scope => simpa using hl

include hip hlo hdo in
lemma normalizeDns_decoded_iff : normalizeDnsHostOrIpLiteral (ip ++ '%' :: scope) = ip ++ '%' :: scope ↔
    ∀ rest, scope ≠ '2' :: '5' :: rest := by
  rw [normalizeDns_of_stripped (toLower_decoded hlo) (trimDots_decoded hdo)]
  constructor
  · rintro h rest rfl
    rw [normalizeIpLiteral_encoded ⟨rfl, hip⟩] at h
    have := congrArg List.length h
    simp at this
  intro h
  refine normalizeIpLiteral_plain ?_
  rintro _ rest ⟨heq, hip'⟩
  obtain ⟨-, hs⟩ := eq_of_append_percent (percent_not_mem_of_parse hip) (percent_not_mem_of_parse hip') heq
  exact h rest hs

include hip hlo hdo in
lemma normalizeHost_decoded_iff : normalizeHost (ip ++ '%' :: scope) = ip ++ '%' :: scope ↔
    trim (ip ++ '%' :: '2' :: '5' :: scope) = ip ++ '%' :: '2' :: '5' :: scope ∧
      (ip ++ '%' :: '2' :: '5' :: scope).count ':' ≠ 1 ∧ ∀ rest, scope ≠ '2' :: '5' :: rest := by
  have ht : trimEnd ('2' :: '5' :: scope) = '2' :: '5' :: trimEnd scope := by
    rw [trimEnd_cons, trimEnd_cons, if_neg, if_neg]
    all_goals
      rintro ⟨-, h⟩
      cases h
  have hc : (ip ++ '%' :: '2' :: '5' :: scope).count ':' = (ip ++ '%' :: scope).count ':' := by
    simp [count_append]
  rw [normalizeHost_eq_self_iff, normalizeDns_decoded_iff hip hlo hdo, trim_scoped hip, trim_scoped hip, ht,
    hc, bracketed_scoped hip]
  simp

end Scoped

/-- Nothing of the stripped host is taken away again: no blanks, brackets or port, and no scope encoded twice. -/
structure Settled (host : Text) : Prop where
  trimmed : trim (strippedHost host) = strippedHost host
  unbracketed : bracketed (strippedHost host) = none
  unported : (strippedHost host).count ':' ≠ 1
  decoded : ∀ ip rest, ¬ EncodedScope (strippedHost host) ip ('2' :: '5' :: rest)

lemma normalizeHost_idempotent_iff (host : Text) :
    normalizeHost (normalizeHost host) = normalizeHost host ↔ Settled host := by
  have hlo := toLower_strippedHost host
  have hdo := trimDots_strippedHost host
  rw [normalizeHost_stripped host]
  by_cases he : ∃ ip scope, EncodedScope (strippedHost host) ip scope
  · obtain ⟨ip, scope, hsc⟩ := he
    rw [normalizeIpLiteral_encoded hsc, getD_some]
    obtain ⟨heq, hip⟩ := hsc
    rw [heq] at hlo hdo
    rw [normalizeHost_decoded_iff hip hlo hdo]
    constructor
    · rintro ⟨ht, hp, hr⟩
      refine ⟨by rw [heq]; exact ht, by rw [heq]; exact bracketed_scoped hip, by rw [heq]; exact hp, ?_⟩
      rintro _ rest ⟨heq', hip'⟩
      rw [heq] at heq'
      obtain ⟨-, hsc⟩ := eq_of_append_percent (percent_not_mem_of_parse hip) (percent_not_mem_of_parse hip') heq'
      exact hr rest (by simpa using hsc)
    intro hs
    have ht := hs.trimmed
    have hp := hs.unported
    rw [heq] at ht hp
    refine ⟨ht, hp, ?_⟩
    rintro rest rfl
    exact hs.decoded ip rest ⟨heq, hip⟩
  simp only [not_exists] at he
  have hpl := normalizeIpLiteral_plain he
  rw [hpl, normalizeHost_eq_self_iff, normalizeDns_of_stripped hlo hdo]
  constructor
  · rintro ⟨ht, hb, hp, -⟩
    exact ⟨ht, hb, hp, fun ip rest => he ip _⟩
  · intro hs
    exact ⟨hs.trimmed, hs.unbracketed, hs.unported, hpl⟩

end Codex.Network
