import Codex.Network.Normalized
import Codex.Network.HostPolicy

/-! # Spellings of a host that get the same decision: two forms of one IPv6 address do not -/

namespace Codex.Network

open Codex.Text DomainPatternSet List IpAddr

/-! ## The same host in other letters -/

def Literal (host : Text) : Prop :=
  ∃ ip zone, host = ip ++ zone ∧ (parseIpv6 ip).isSome = true ∧ (zone = [] ∨ ∃ scope, zone = '%' :: scope) ∧
    ∀ c ∈ zone, isWhitespace c = false ∧ c ≠ '[' ∧ c ≠ ']'

def PlainName (host : Text) : Prop := ∀ c ∈ host, isWhitespace c = false ∧ c ≠ '[' ∧ c ≠ ']' ∧ c ≠ ':'

inductive Respells : Text → Text → Prop
  | case {host other : Text} : toLower host = toLower other → Respells host other
  | blanks {host before after : Text} : (∀ c ∈ before ++ after, isWhitespace c = true) →
    Respells host (before ++ host ++ after)
  | dots {host : Text} (n : Nat) : trimEnd host = host → Respells host (host ++ replicate n '.')
  | brackets {host : Text} : Literal host → Respells host ('[' :: (host ++ [']']))
  | port {host digits : Text} : PlainName host → (∀ c ∈ digits, c.isDigit = true) →
    Respells host (host ++ ':' :: digits)

/-- The same but for case, blanks, last dots, brackets around a literal, and ports. -/
def Alike : Text → Text → Prop := Relation.EqvGen Respells

def SameAddress (host other : Text) : Prop :=
  ∃ ip, parseIpv6 host = some ip ∧ parseIpv6 other = some ip

/-- Spellings of one host, by name or by address. -/
def SameDestination : Text → Text → Prop := Relation.EqvGen fun host other => Respells host other ∨
    SameAddress host other

variable {host other ip s : Text}

lemma Alike.sameDestination (h : Alike host other) : SameDestination host other :=
  Relation.EqvGen.mono (fun _ _ => Or.inl) _ _ h

/-! ## Alike hosts normalise alike -/

lemma normalizeHost_of_trim (h : trim s = trim t) : normalizeHost s = normalizeHost t := by
  rw [normalizeHost_core, normalizeHost_core, hostCore, hostCore, h]

lemma trim_append_blanks {after : Text} (h : ∀ c ∈ after, isWhitespace c) :
    trim (s ++ after) = trim s := by
  unfold trim trimStart
  rw [dropWhile_append]
  split
  · rename_i he
    have ha : after.dropWhile isWhitespace = [] := dropWhile_eq_nil_iff.mpr h
    rw [ha, isEmpty_iff.mp he]
  · exact trimEnd_append_ws _ _ h

lemma trim_toLower (s : Text) : trim (toLower s) = toLower (trim s) := by
  have hb : isWhitespace ∘ Char.toLower = isWhitespace := funext isWhitespace_toLower
  unfold trim trimStart trimEnd toLower rdropWhile
  rw [dropWhile_map, hb, ← map_reverse, dropWhile_map, hb, ← map_reverse]

lemma bracketed_cons (s : Text) :
    bracketed ('[' :: s) = if s.contains ']' then some (s.takeWhile (· != ']')) else none := rfl

lemma bracketed_cons_ne (h : c ≠ '[') : bracketed (c :: s) = none := by
  unfold bracketed
  split
  · rename_i heq
    exact absurd (cons.inj heq).1 h
  · rfl

lemma takeWhile_append_of_mem (h : c ∈ s) (t : Text) :
    (s ++ t).takeWhile (· != c) = s.takeWhile (· != c) := by
  rw [takeWhile_append, if_neg (length_takeWhile_lt h).ne]

lemma bracketed_toLower (s : Text) : bracketed (toLower s) = (bracketed s).map toLower := by
  rcases s with _ | ⟨c, s⟩
  · rfl
  by_cases hc : c = '['
  · subst hc
    have hn : (fun c : Char => c != ']') ∘ Char.toLower = fun c => c != ']' := by
      funext c
      rw [Function.comp_apply, Bool.eq_iff_iff, bne_iff_ne, bne_iff_ne, Ne, toLower_char_eq (by decide)]
    have hco : (s.map Char.toLower).contains ']' = s.contains ']' := by
      rw [Bool.eq_iff_iff, contains_iff_mem, contains_iff_mem]
      exact mem_toLower (by decide)
    show bracketed ('[' :: s.map Char.toLower) = _
    rw [bracketed_cons, bracketed_cons, hco, takeWhile_map, hn]
    split <;> rfl
  have hl : c.toLower ≠ '[' := fun h => hc ((toLower_char_eq (by decide)).mp h)
  rw [show toLower (c :: s) = c.toLower :: toLower s from rfl, bracketed_cons_ne hl, bracketed_cons_ne hc]
  rfl

lemma count_toLower (hd : d.isAlpha = false) (s : Text) : (toLower s).count d = s.count d := by
  unfold toLower
  rw [count_eq_countP, count_eq_countP, countP_map]
  congr 1
  funext c
  rw [Function.comp_apply, Bool.eq_iff_iff, beq_iff_eq, beq_iff_eq, toLower_char_eq hd]

lemma hostCore_toLower (host : Text) : hostCore (toLower host) = toLower (hostCore host) := by
  have hn : (fun c : Char => c != ':') ∘ Char.toLower = fun c => c != ':' := by
    funext c
    rw [Function.comp_apply, Bool.eq_iff_iff, bne_iff_ne, bne_iff_ne, Ne, toLower_char_eq (by decide)]
  unfold hostCore
  rw [trim_toLower, bracketed_toLower, count_toLower (by decide)]
  cases bracketed (trim host) with
  | some inner => rfl
  | none => ?_
  simp only [Option.map_none]
  split
  · unfold toLower
    rw [takeWhile_map, hn]
  · rfl

lemma normalizeHost_toLower (host : Text) : normalizeHost (toLower host) = normalizeHost host := by
  rw [normalizeHost_stripped, normalizeHost_stripped, strippedHost, strippedHost, hostCore_toLower, toLower_toLower]

lemma trimDots_append_dots (s : Text) (n : Nat) : trimDots (s ++ replicate n '.') = trimDots s := by
  induction n with
  | zero => simp
  | succ n ih =>
    rw [replicate_succ', ← append_assoc, trimDots, rdropWhile_concat_pos _ _ _ rfl]
    exact ih

lemma normalizeDns_append_dots (s : Text) (n : Nat) :
    normalizeDnsHostOrIpLiteral (s ++ replicate n '.') = normalizeDnsHostOrIpLiteral s := by
  have hl : toLower (replicate n '.') = replicate n '.' := by simp [toLower]
  simp only [normalizeDnsHostOrIpLiteral, toLower_append, hl, trimDots_append_dots]

lemma bracketed_append_dots (s : Text) (n : Nat) (h : s ≠ []) :
    bracketed (s ++ replicate n '.') = bracketed s := by
  obtain ⟨c, s, rfl⟩ := exists_cons_of_ne_nil h
  rw [cons_append]
  by_cases hc : c = '['
  · have hco : (s ++ replicate n '.').contains ']' = s.contains ']' := by
      simp [mem_replicate]
    rw [hc, bracketed_cons, bracketed_cons, hco]
    split
    · rename_i hin
      rw [takeWhile_append_of_mem (by simpa using hin)]
    · rfl
  · rw [bracketed_cons_ne hc, bracketed_cons_ne hc]

lemma trim_append_dots (h : trimEnd host = host) (hn : n ≠ 0) :
    trim (host ++ replicate n '.') = trim host ++ replicate n '.' := by
  have hv : ∀ c ∈ replicate n '.', isWhitespace c = false := by
    intro c hc
    rw [eq_of_mem_replicate hc]
    decide
  have hd : trimStart (replicate n '.') = replicate n '.' := by
    obtain ⟨n, rfl⟩ := Nat.exists_eq_succ_of_ne_zero hn
    exact trimStart_cons '.' _ (by decide)
  have hen : trimEnd (replicate n '.') = replicate n '.' :=
    trimEnd_of_trim (trim_of_visible hv)
  have hs : trimStart (host ++ replicate n '.') = trimStart host ++ replicate n '.' := by
    unfold trimStart at hd ⊢
    rw [dropWhile_append]
    split
    · rename_i he
      rw [hd, isEmpty_iff.mp he]
      rfl
    · rfl
  have ht : trim host = trimStart host := by
    unfold trim
    by_cases hni : trimStart host = []
    · rw [hni]
      rfl
    obtain ⟨pre, hb⟩ := dropWhile_suffix (l := host) isWhitespace
    refine rdropWhile_eq_self_iff.mpr fun hne => ?_
    have hh : host ≠ [] := by
      rintro rfl
      exact hni rfl
    have hl := rdropWhile_eq_self_iff.mp h hh
    have hsa : (trimStart host).getLast hne = host.getLast hh := by
      conv_rhs => rw! [← hb]
      exact (getLast_append_of_ne_nil _ hne).symm
    rw [hsa]
    exact hl
  rw [ht, trim, hs, trimEnd_append_visible _ _ (by simp [hn]) hen]

lemma normalizeHost_append_dots (n : Nat) (h : trimEnd host = host) :
    normalizeHost (host ++ replicate n '.') = normalizeHost host := by
  by_cases hn : n = 0
  · simp [hn]
  have ht := trim_append_dots h hn
  by_cases hni : trim host = []
  · rw [normalizeHost_core, normalizeHost_core, hostCore, hostCore, ht, hni]
    have hb : bracketed ([] ++ replicate n '.') = none :=
      bracketed_eq_none (by simp [mem_replicate])
    have hc : ([] ++ replicate n '.').count ':' = 0 := by
      rw [count_eq_zero]
      simp [mem_replicate]
    rw [hb, hc]
    exact normalizeDns_append_dots [] n
  have hc : (trim host ++ replicate n '.').count ':' = (trim host).count ':' := by
    rw [count_append, count_eq_zero.mpr (by simp [mem_replicate] : ':' ∉ replicate n '.'), Nat.add_zero]
  rw [normalizeHost_core, normalizeHost_core, hostCore, hostCore, ht, bracketed_append_dots _ _ hni, hc]
  cases bracketed (trim host) with
  | some inner => rfl
  | none => ?_
  simp only
  split
  · have hco : ':' ∈ trim host := count_pos_iff.mp (by omega)
    rw [takeWhile_append_of_mem hco]
  · exact normalizeDns_append_dots _ n

lemma Literal.chars (h : Literal host) : ∀ c ∈ host, isWhitespace c = false ∧ c ≠ '[' ∧ c ≠ ']' := by
  obtain ⟨_, _, rfl, hip, -, hz⟩ := h
  intro c hc
  rcases mem_append.mp hc with hc | hc
  · have hv := addressChar_visible (parseIpv6_chars hip c hc)
    exact ⟨hv.1, hv.2.1, hv.2.2.1⟩
  · exact hz c hc

lemma Literal.two_le_count (h : Literal host) : 2 ≤ host.count ':' := by
  obtain ⟨_, _, rfl, hip, -⟩ := h
  have := two_le_count_of_parseIpv6 hip
  rw [count_append]
  omega

lemma normalizeHost_literal (h : Literal host) : normalizeHost host = normalizeDnsHostOrIpLiteral host := by
  have ht : trim host = host := trim_of_visible fun c hc => (h.chars c hc).1
  have hb : bracketed host = none := bracketed_eq_none fun hin => (h.chars _ hin).2.1 rfl
  have hco := h.two_le_count
  rw [normalizeHost_core, hostCore, ht, hb]
  simp only [show host.count ':' ≠ 1 by omega, if_false]

lemma normalizeHost_brackets (h : Literal host) :
    normalizeHost ('[' :: (host ++ [']'])) = normalizeHost host := by
  have hcl : ']' ∉ host := fun hin => (h.chars _ hin).2.2 rfl
  have ht : trim ('[' :: (host ++ [']'])) = '[' :: (host ++ [']']) := by
    refine trim_of_visible fun c hc => ?_
    simp only [mem_cons, mem_append, not_mem_nil, or_false] at hc
    rcases hc with rfl | hc | rfl
    · decide
    · exact (h.chars c hc).1
    · decide
  have hi : bracketed ('[' :: (host ++ [']'])) = some host := by
    show (if (host ++ [']']).contains ']' then some ((host ++ [']']).takeWhile (· != ']')) else none) = some host
    rw [if_pos (by simp), takeWhile_append_of_pos]
    · simp
    · intro c hc
      simp only [bne_iff_ne]
      rintro rfl
      exact hcl hc
  rw [normalizeHost_literal h, normalizeHost_core, hostCore, ht, hi]

lemma digit_visible (h : c.isDigit) : isWhitespace c = false ∧ c ≠ '[' ∧ c ≠ ':' := by
  have hs : c.toNat < 128 := by
    simp only [Char.isDigit, Bool.and_eq_true, decide_eq_true_eq] at h
    exact lt_of_le_of_lt h.2 (by decide)
  have ha : ∀ n < 128, (Char.ofNat n).isDigit →
      isWhitespace (Char.ofNat n) = false ∧ Char.ofNat n ≠ '[' ∧ Char.ofNat n ≠ ':' := by
    decide +kernel
  have := ha c.toNat hs
  rw [Char.ofNat_toNat] at this
  exact this h

lemma normalizeHost_port {digits : Text} (h : PlainName host) (hdi : ∀ c ∈ digits, c.isDigit) :
    normalizeHost (host ++ ':' :: digits) = normalizeHost host := by
  have hd : ∀ c ∈ digits, isWhitespace c = false ∧ c ≠ '[' ∧ c ≠ ':' := by
    intro c hc
    exact digit_visible (hdi c hc)
  have hco : ':' ∉ host := fun hin => (h _ hin).2.2.2 rfl
  have ht : trim (host ++ ':' :: digits) = host ++ ':' :: digits := by
    refine trim_of_visible fun c hc => ?_
    simp only [mem_append, mem_cons] at hc
    rcases hc with hc | rfl | hc
    · exact (h c hc).1
    · decide
    · exact (hd c hc).1
  have hb : bracketed (host ++ ':' :: digits) = none := by
    refine bracketed_eq_none fun hin => ?_
    simp only [mem_append, mem_cons] at hin
    rcases hin with hin | hin | hin
    · exact (h _ hin).2.1 rfl
    · cases hin
    · exact (hd _ hin).2.1 rfl
  have hcou : (host ++ ':' :: digits).count ':' = 1 := by
    rw [count_append, count_cons_self, count_eq_zero.mpr hco, count_eq_zero.mpr fun hin => (hd _ hin).2.2 rfl]
  have hn : (host ++ ':' :: digits).takeWhile (· != ':') = host := by
    rw [takeWhile_append_of_pos]
    · simp
    · intro c hc
      simp only [bne_iff_ne]
      rintro rfl
      exact hco hc
  have hs : hostCore host = host := by
    rw [hostCore, trim_of_visible fun c hc => (h c hc).1, bracketed_eq_none fun hin => (h _ hin).2.1 rfl,
      count_eq_zero.mpr hco]
    rfl
  rw [normalizeHost_core, normalizeHost_core, hs, hostCore, ht, hb]
  simp only [hcou, if_true, hn]

lemma normalizeHost_respells (h : Respells host other) : normalizeHost host = normalizeHost other := by
  cases h with
  | case h => rw [← normalizeHost_toLower host, h, normalizeHost_toLower]
  | @blanks pre after h => ?_
  | dots n h => exact (normalizeHost_append_dots n h).symm
  | brackets h => exact (normalizeHost_brackets h).symm
  | port h hd => exact (normalizeHost_port h hd).symm
  refine normalizeHost_of_trim ?_
  rw [append_assoc]
  show trim host = trimEnd (trimStart (pre ++ (host ++ after)))
  rw [trimStart_append_ws _ _ fun c hc => h c (mem_append_left _ hc)]
  exact (trim_append_blanks fun c hc => h c (mem_append_right _ hc)).symm

lemma Alike.normalizeHost_eq (h : Alike host other) : normalizeHost host = normalizeHost other := by
  induction h with
  | rel _ _ h => exact normalizeHost_respells h
  | refl => rfl
  | symm _ _ _ ih => exact ih.symm
  | trans _ _ _ _ _ ih ih' => exact ih.trans ih'

/-! ## Forms of an address -/

lemma alike_or_literals (h : SameDestination host other) : Alike host other ∨
    ∃ ip ip', (parseIpv6 ip).isSome ∧ (parseIpv6 ip').isSome ∧ Alike host ip ∧
      Alike other ip' := by
  induction h with
  | rel host other h =>
    rcases h with h | ⟨ip, hh, ho⟩
    · exact .inl (.rel _ _ h)
    · exact .inr ⟨host, other, by simp [hh], by simp [ho], .refl _, .refl _⟩
  | refl host => exact .inl (.refl host)
  | symm host other _ ih =>
    rcases ih with ih | ⟨ip, ip', hip, hip', hh, ho⟩
    · exact .inl ih.symm
    · exact .inr ⟨ip', ip, hip', hip, ho, hh⟩
  | trans host middle other _ _ ih ih' => ?_
  rcases ih with ih | ⟨ip, ip', hip, hip', hh, hm⟩
  · rcases ih' with ih' | ⟨ip, ip', hip, hip', hm, ho⟩
    · exact .inl (ih.trans _ _ _ ih')
    · exact .inr ⟨ip, ip', hip, hip', ih.trans _ _ _ hm, ho⟩
  rcases ih' with ih' | ⟨_, ip₂', _, hip₂', -, ho⟩
  · exact .inr ⟨ip, ip', hip, hip', hh, (ih'.symm).trans _ _ _ hm⟩
  · exact .inr ⟨ip, ip₂', hip, hip₂', hh, ho⟩

lemma literal_of_parseIpv6 (h : (parseIpv6 ip).isSome) : Literal ip :=
  ⟨ip, [], by simp, h, .inl rfl, by simp⟩

lemma normalizeHost_address (h : (parseIpv6 ip).isSome) :
    normalizeHost ip = toLower (trimDots ip) := by
  rw [normalizeHost_literal (literal_of_parseIpv6 h), normalizeDns_eq]
  intro hin
  exact (addressChar_visible (parseIpv6_chars h _ hin)).2.2.2.2.2.1 rfl

lemma exists_dots (s : Text) : ∃ n, s = trimDots s ++ replicate n '.' := by
  induction s using reverseRecOn with
  | nil => exact ⟨0, rfl⟩
  | append_singleton s c ih => ?_
  by_cases hc : c = '.'
  · obtain ⟨n, hn⟩ := ih
    refine ⟨n + 1, ?_⟩
    rw [trimDots, rdropWhile_concat_pos _ _ _ (by simp [hc]), replicate_succ', ← append_assoc]
    exact congrArg₂ _ hn (by rw [hc])
  refine ⟨0, ?_⟩
  rw [trimDots, rdropWhile_concat_neg _ _ _ (by simp [hc])]
  simp

lemma alike_toLower_trimDots (h : ∀ c ∈ ip, isWhitespace c = false) : Alike (toLower (trimDots ip)) ip := by
  obtain ⟨n, hn⟩ := exists_dots ip
  have he : trimEnd (trimDots ip) = trimDots ip :=
    trimEnd_of_trim (trim_of_visible fun c hc => h c (mem_of_mem_trimDots hc))
  have hd : Respells (trimDots ip) (trimDots ip ++ replicate n '.') := .dots n he
  rw [← hn] at hd
  exact .trans _ _ _ (.rel _ _ (.case (toLower_toLower _))) (.rel _ _ hd)

structure NormalAddress (n : Text) : Prop where
  chars : ∀ c ∈ n, IpAddr.IsAddressChar c
  lower : toLower n = n
  dots : trimDots n = n
  colons : 2 ≤ n.count ':'

lemma normalAddress (h : (parseIpv6 ip).isSome) : NormalAddress (normalizeHost ip) := by
  rw [normalizeHost_address h]
  refine ⟨?_, toLower_toLower _, ?_, ?_⟩
  · intro c hc
    obtain ⟨d, hd, rfl⟩ := mem_map.mp hc
    exact addressChar_toLower (parseIpv6_chars h d (mem_of_mem_trimDots hd))
  · rw [trimDots_toLower, trimDots_trimDots]
  · obtain ⟨n, hn⟩ := exists_dots ip
    have ht := two_le_count_of_parseIpv6 h
    rw [hn, count_append, count_eq_zero.mpr (by simp [mem_replicate] : ':' ∉ replicate n '.')] at ht
    rw [count_toLower (by decide)]
    omega

namespace NormalAddress

variable {n n' : Text}

section Normal

variable (h : NormalAddress n)

include h

lemma percent : '%' ∉ n :=
  fun hin => (addressChar_visible (h.chars _ hin)).2.2.2.2.2.1 rfl

lemma star : '*' ∉ n := fun hin => (addressChar_visible (h.chars _ hin)).2.2.2.1 rfl

lemma trimmed : trim n = n :=
  trim_of_visible fun c hc => (addressChar_visible (h.chars c hc)).1

lemma ne_nil : n ≠ [] := by
  rintro rfl
  exact absurd h.colons (by simp)

lemma normalizeHost_eq : normalizeHost n = n := by
  refine normalizeHost_eq_self_iff.mpr ⟨h.trimmed, ?_, ?_, ?_⟩
  · exact bracketed_eq_none fun hin => (addressChar_visible (h.chars _ hin)).2.1 rfl
  · have := h.colons
    omega
  · rw [normalizeDns_eq h.percent, h.dots, h.lower]

lemma unscoped : unscopedIpLiteral n = none := by
  unfold unscopedIpLiteral
  rw [splitOnce_of_not_mem (by decide : '%' ∈ "%".toList) h.percent]
  rfl

lemma splitStars_eq : splitStars n = ([], n) := by
  have hn : ∀ p : Text, '*' ∈ p → stripPrefix p n = none := by
    intro p hp
    rcases hs : stripPrefix p n with _ | rest
    · rfl
    rw [stripPrefix_eq_some.mp hs] at h
    exact absurd (mem_append_left _ hp) h.star
  unfold splitStars
  rw [hn "**.".toList (by decide), hn "*.".toList (by decide)]

lemma expand : expandDomainPattern (normalizePattern n) = [n] := by
  have hs : n ≠ "*".toList := by
    rintro rfl
    exact h.star (by decide)
  have hp : normalizePattern n = n := by
    simp only [normalizePattern, h.trimmed, hs, if_false, h.splitStars_eq, h.normalizeHost_eq, nil_append]
  rw [hp]
  simp only [expandDomainPattern, h.trimmed, h.splitStars_eq, isEmpty_nil, if_true]

lemma checked : checkPattern .reject n = .ok () := by
  have hg : isGlobalWildcardDomainPattern n = false := by
    unfold isGlobalWildcardDomainPattern
    rw [h.expand, Bool.eq_false_iff]
    intro hin
    have hse : "*".toList = n := mem_singleton.mp (contains_iff_mem.mp hin)
    exact h.star (hse ▸ by decide)
  have hs : n.any (fun c => "\x7b\x7d\\/".toList.contains c || isWhitespace c) = false := by
    rw [any_eq_false]
    intro c hc
    have hv := addressChar_visible (h.chars c hc)
    simp only [hv.1, hv.2.2.2.2.2.2, Bool.or_false, Bool.false_eq_true, not_false_eq_true]
  have hb : n.any isBracket = false := by
    rw [any_eq_false]
    intro c hc
    have hv := addressChar_visible (h.chars c hc)
    simp [isBracket, hv.2.1, hv.2.2.1]
  have hr : splitOnce "**".toList n = none := splitOnce_of_not_mem (by decide : '*' ∈ "**".toList) h.star
  simp only [checkPattern, h.trimmed, h.splitStars_eq, hg, hs, hb, hr]
  rfl

lemma compiled : DomainPatternSet.new [n] .reject = .ok ⟨[n].map asBytes⟩ := by
  have ha : addPattern .reject [] n = .ok [n] := by
    unfold addPattern
    rw [h.checked, h.expand]
    have he : n.isEmpty = false := by simpa using h.ne_nil
    simp [addCandidate, he]
  unfold DomainPatternSet.new
  rw [foldlM_cons, ha]
  rfl

end Normal

end NormalAddress

/-! ## Decisions -/

lemma matches_literal_iff {pattern bytes : List UInt8} (h : ∀ b ∈ pattern, b ≠ 42 ∧ b ≠ 63) :
    Wildcard.Matches (pattern.map token) bytes ↔ bytes.map toAsciiLowercase = pattern.map toAsciiLowercase := by
  induction pattern generalizing bytes with
  | nil => simp [Wildcard.matches_nil_iff]
  | cons b pattern ih => ?_
  obtain ⟨hs, hm⟩ := h b mem_cons_self
  have ht : token b = some fun a => b == 63 || toAsciiLowercase b == toAsciiLowercase a := by
    unfold token
    rw [if_neg hs]
  rw [map_cons, ht, Wildcard.matches_some_iff, map_cons]
  constructor
  · rintro ⟨a, rest, rfl, ho, hr⟩
    rw [map_cons, (ih fun b hb => h b (mem_cons_of_mem _ hb)).mp hr]
    simp only [Bool.or_eq_true, beq_iff_eq, hm, false_or] at ho
    rw [ho]
  intro heq
  rcases bytes with _ | ⟨a, rest⟩
  · simp at heq
  obtain ⟨ho, hr⟩ := cons.inj heq
  refine ⟨a, rest, rfl, by simp [ho], (ih fun b hb => h b (mem_cons_of_mem _ hb)).mpr hr⟩

lemma NormalAddress.glob_iff (h : NormalAddress n) (h' : NormalAddress n') :
    Glob n (asBytes n') ↔ n' = n := by
  have hby : ∀ b ∈ asBytes n, b ≠ 42 ∧ b ≠ 63 := by
    intro b hb
    constructor
    · rintro rfl
      exact h.star (mem_of_mem_asBytes hb (by decide))
    rintro rfl
    have hin : '?' ∈ n := mem_of_mem_asBytes hb (by decide)
    exact (addressChar_visible (h.chars _ hin)).2.2.2.2.1 rfl
  unfold Glob
  rw [matches_literal_iff hby, ← asBytes_toLower, ← asBytes_toLower]
  constructor
  · intro heq
    have := asBytes_injective heq
    rwa [show n'.map Char.toLower = n' from h'.lower, show n.map Char.toLower = n from h.lower] at this
  · rintro rfl
    rfl

/-- The decision about a host as it is written; one that cannot be parsed is not allowed. -/
def hostBlocked (policy : LocalBindingPolicy) (allowLocalBinding : Option Bool) (state : ConfigState) (host : Text)
    (authorization : HostAuthorization) (answer : Option (List IpAddr)) : HostBlockDecision :=
  match Host.parse host with
  | none => .blocked .notAllowed
  | some host => hostDecision policy allowLocalBinding state host authorization answer

/-- The sets are those of the configuration. -/
structure ConfigState.Compiled (state : ConfigState) : Prop where
  deny : compileDenylist (state.config.deniedDomains.getD []) = .ok state.denySet
  review : compileAllowlist state.config.reviewDomains = .ok state.reviewSet
  allow : compileAllowlist (state.config.allowedDomains.getD []) = .ok state.allowSet

def denying (pattern : Text) : ConfigState where
  config := ⟨true, .full, true, false, none, some [⟨pattern, .deny⟩], [], none, none⟩
  denySet := ⟨[pattern].map asBytes⟩
  reviewSet := ⟨[]⟩
  allowSet := ⟨[]⟩

lemma compiled_denying (h : NormalAddress n) : (denying n).Compiled :=
  ⟨h.compiled, rfl, rfl⟩

lemma hostBlocked_congr (h : normalizeHost host = normalizeHost other) (policy : LocalBindingPolicy)
    (allowLocalBinding : Option Bool) (state : ConfigState) (authorization : HostAuthorization)
    (answer : Option (List IpAddr)) :
    hostBlocked policy allowLocalBinding state host authorization answer =
      hostBlocked policy allowLocalBinding state other authorization answer := by
  unfold hostBlocked Host.parse
  simp only [h]

lemma hostDecision_denied_iff {host : Host} :
    hostDecision policy allowLocalBinding state host authorization answer = .blocked .denied ↔
      domainsMatchHostOrUnscoped state.denySet host.text := by
  unfold hostDecision
  split
  · rename_i hd
    simp [hd]
  rename_i hd
  simp only [hd, Bool.false_eq_true]
  split
  · simp
  split
  · simp
  · split <;> simp

lemma denied_denying_iff {ip' : Text} (h : (parseIpv6 ip).isSome)
    (h' : (parseIpv6 ip').isSome) :
    hostBlocked .defaultFalse none (denying (normalizeHost ip)) ip' .requireAllowlist none = .blocked .denied ↔
      normalizeHost ip' = normalizeHost ip := by
  have hn := normalAddress h'
  have hp : Host.parse ip' = some ⟨normalizeHost ip', hn.ne_nil⟩ := by
    unfold Host.parse
    rw [dif_pos hn.ne_nil]
  unfold hostBlocked
  rw [hp]
  rw [hostDecision_denied_iff, domainsMatchHostOrUnscoped, hn.unscoped]
  simp only [Option.map_none, Option.getD_none, Bool.or_false, denying]
  rw [isMatch_compiled, ← (normalAddress h).glob_iff hn]
  simp

/-- **Spellings of one destination get one decision** exactly when they are alike; so does a settled host. -/
theorem same_decision_iff {host other : Text} (h : SameDestination host other) :
    ((∀ policy allowLocalBinding state authorization answer, ConfigState.Compiled state →
        hostBlocked policy allowLocalBinding state host authorization answer =
          hostBlocked policy allowLocalBinding state other authorization answer) ↔ Alike host other) ∧
      ∀ host, normalizeHost (normalizeHost host) = normalizeHost host ↔ Settled host := by
  refine ⟨⟨fun hs => ?_, fun ha _ _ _ _ _ _ => hostBlocked_congr ha.normalizeHost_eq _ _ _ _ _⟩,
    normalizeHost_idempotent_iff⟩
  rcases alike_or_literals h with ha | ⟨ip, ip', hip, hip', hh, ho⟩
  · exact ha
  have hd : hostBlocked .defaultFalse none (denying (normalizeHost ip)) ip' .requireAllowlist none =
      .blocked .denied := by
    rw [← hostBlocked_congr ho.normalizeHost_eq, ← hs _ _ _ _ _ (compiled_denying (normalAddress hip)),
      hostBlocked_congr hh.normalizeHost_eq]
    exact (denied_denying_iff hip hip).mpr rfl
  have hn := (denied_denying_iff hip hip').mp hd
  rw [normalizeHost_address hip, normalizeHost_address hip'] at hn
  have hv := fun {t : Text} (ht : (parseIpv6 t).isSome = true) =>
    alike_toLower_trimDots fun c hc => (addressChar_visible (parseIpv6_chars ht c hc)).1
  refine hh.trans _ _ _ (.trans _ _ _ (hv hip).symm ?_)
  rw [← hn]
  exact .trans _ _ _ (hv hip') ho.symm

theorem port_spelled_alike :
    hostBlocked .defaultFalse none noRules "X.org.".toList .approved (some [.v4 ⟨8, 8, 8, 8⟩]) =
      hostBlocked .defaultFalse none noRules "x.org:443".toList .approved (some [.v4 ⟨8, 8, 8, 8⟩]) := by
  have hp : PlainName ['x', '.', 'o', 'r', 'g'] := by
    intro c hc
    simp only [mem_cons, not_mem_nil, or_false] at hc
    rcases hc with rfl | rfl | rfl | rfl | rfl <;> decide
  have he : trimEnd ['x', '.', 'o', 'r', 'g'] = ['x', '.', 'o', 'r', 'g'] :=
    trimEnd_of_trim (trim_of_visible fun c hc => (hp c hc).1)
  have hpo : Respells ['x', '.', 'o', 'r', 'g'] "x.org:443".toList :=
    @Respells.port _ ['4', '4', '3'] hp (by simp)
  have ha : Alike "X.org.".toList "x.org:443".toList :=
    .trans _ "x.org.".toList _ (.rel _ _ (.case rfl))
      (.trans _ ['x', '.', 'o', 'r', 'g'] _ (.symm _ _ (.rel _ _ (.dots 1 he))) (.rel _ _ hpo))
  exact (same_decision_iff ha.sameDestination).1.mpr ha _ _ _ _ _ ⟨rfl, rfl, rfl⟩

def allowingAllBut (pattern : String) : ConfigState where
  config := ⟨true, .full, true, false, none, some [⟨"*".toList, .allow⟩, ⟨pattern.toList, .deny⟩], [], none, none⟩
  denySet := ⟨[asBytes pattern.toList]⟩
  reviewSet := ⟨[]⟩
  allowSet := ⟨[asBytes "*".toList]⟩

theorem denied_address_allowed : SameDestination "2606:4700::1111".toList "2606:4700:0::1111".toList ∧
    (allowingAllBut "2606:4700::1111").Compiled ∧
    hostBlocked .defaultFalse none (allowingAllBut "2606:4700::1111") "2606:4700::1111".toList .requireAllowlist none =
      .blocked .denied ∧
    hostBlocked .defaultFalse none (allowingAllBut "2606:4700::1111") "2606:4700:0::1111".toList .requireAllowlist
      none = .allowed ∧
    normalizeHost "[a:80]".toList = "a:80".toList ∧ normalizeHost "a:80".toList = "a".toList := by
  refine ⟨.rel _ _ (.inr ⟨ofGroups [0x2606, 0x4700, 0, 0, 0, 0, 0, 0x1111], rfl, rfl⟩), ⟨rfl, rfl, rfl⟩, ?_, ?_, ?_, ?_⟩
  all_goals decide +kernel

end Codex.Network
