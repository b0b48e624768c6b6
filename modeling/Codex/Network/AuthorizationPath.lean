import Mathlib

/-!
# Paths that are authorized

`network-proxy/src/authorization_path.rs`, on the bytes of a path: `%` is 37, `.` 46, `/` 47, `;` 59 and `\` 92.
-/

namespace Codex.Network

open List

def decodeHexDigit (byte : UInt8) : Option UInt8 :=
  if 48 ≤ byte ∧ byte ≤ 57 then some (byte - 48)
  else if 97 ≤ byte ∧ byte ≤ 102 then some (byte - 97 + 10)
  else if 65 ≤ byte ∧ byte ≤ 70 then some (byte - 65 + 10)
  else none

def scanSegment (decodedDots : Nat) (hasNonDot : Bool) : List UInt8 → Bool
  | [] => hasNonDot || !(decodedDots == 1 || decodedDots == 2)
  | byte :: bytes =>
    if byte = 46 then scanSegment (decodedDots + 1) hasNonDot bytes
    else if byte = 92 ∨ byte = 59 then false
    else if byte = 37 then
      match bytes with
      | high :: low :: rest =>
        match decodeHexDigit high, decodeHexDigit low with
        | some high, some low =>
          if ([37, 47, 92, 59] : List UInt8).contains (high <<< 4 ||| low) then false
          else if high <<< 4 ||| low = 46 then scanSegment (decodedDots + 1) hasNonDot rest
          else scanSegment decodedDots true rest
        | _, _ => false
      | _ => false
    else scanSegment decodedDots true bytes

def isSafeSegmentForAuthorization (segment : List UInt8) : Bool := scanSegment 0 false segment

def isSafeForAuthorization (path : List UInt8) : Bool := (path.splitOn 47).all isSafeSegmentForAuthorization

/-! ## What an upstream may do to a path -/

/-- Percent decoding: a `%` without two hexadecimal digits stays. -/
def percentDecode : List UInt8 → List UInt8
  | [] => []
  | byte :: bytes =>
    if byte = 37 then
      match bytes with
      | high :: low :: rest =>
        match decodeHexDigit high, decodeHexDigit low with
        | some high, some low => (high <<< 4 ||| low) :: percentDecode rest
        | _, _ => byte :: percentDecode (high :: low :: rest)
      | bytes => byte :: percentDecode bytes
    else byte :: percentDecode bytes

def dropLastSegment (output : List UInt8) : List UInt8 := (output.rdropWhile (· != 47)).dropLast

/-- `remove_dot_segments` of RFC 3986, whose every turn makes the input shorter. -/
def removeDots : Nat → List UInt8 → List UInt8 → List UInt8
  | 0, output, _ => output
  | turns + 1, output, input =>
    if [46, 46, 47] <+: input then removeDots turns output (input.drop 3)
    else if [46, 47] <+: input then removeDots turns output (input.drop 2)
    else if [47, 46, 47] <+: input then removeDots turns output (input.drop 2)
    else if input = [47, 46] then removeDots turns output [47]
    else if [47, 46, 46, 47] <+: input then removeDots turns (dropLastSegment output) (input.drop 3)
    else if input = [47, 46, 46] then removeDots turns (dropLastSegment output) [47]
    else if input = [46] ∨ input = [46, 46] then output
    else removeDots turns (output ++ input.take 1 ++ input.tail.takeWhile (· != 47)) (input.tail.dropWhile (· != 47))

def removeDotSegments (path : List UInt8) : List UInt8 := removeDots path.length [] path

/-! ## Segments -/

variable {path segment bytes : List UInt8}

lemma splitOn_slash (a r : List UInt8) : (a ++ 47 :: r).splitOn 47 = a.splitOn 47 ++ r.splitOn 47 :=
  splitOnP_append_cons a r (by simp)

lemma slash_induction {P : List UInt8 → Prop} (segment : ∀ a, 47 ∉ a → P a)
    (more : ∀ a r, 47 ∉ a → P r → P (a ++ 47 :: r)) (path : List UInt8) : P path := by
  -- The segment is read byte by byte, with what was read of it in `a`.
  have hs : ∀ a, 47 ∉ a → P (a ++ path) := by
    induction path with
    | nil => simpa using segment
    | cons byte path ih => ?_
    intro a ha
    by_cases hb : byte = 47
    · exact hb ▸ more a path ha (ih [] not_mem_nil)
    · simpa using ih (a ++ [byte]) (by simp [ha, Ne.symm hb])
  exact hs [] not_mem_nil

lemma slash_not_mem (h : segment ∈ path.splitOn 47) : 47 ∉ segment := by
  induction path using slash_induction with
  | segment a ha => simp_all [splitOn_eq_singleton]
  | more a r ha ih => ?_
  rw [splitOn_slash, splitOn_eq_singleton ha, mem_append, mem_singleton] at h
  rcases h with rfl | h
  · exact ha
  · exact ih h

/-! ## Decoding -/

lemma percentDecode_cons (h : byte ≠ 37) (bytes : List UInt8) :
    percentDecode (byte :: bytes) = byte :: percentDecode bytes := by
  rw [percentDecode.eq_def]
  simp only [h, if_false]

lemma percentDecode_escape (hh : decodeHexDigit hi = some h) (hl : decodeHexDigit low = some l) :
    percentDecode (37 :: hi :: low :: bytes) = (h <<< 4 ||| l) :: percentDecode bytes := by
  simp [percentDecode, hh, hl]

lemma percentDecode_slash (a r : List UInt8) :
    percentDecode (a ++ 47 :: r) = percentDecode a ++ 47 :: percentDecode r := by
  have hsl : decodeHexDigit 47 = none := by decide
  have hr : percentDecode (47 :: r) = 47 :: percentDecode r := percentDecode_cons (by decide) r
  induction a using percentDecode.induct with
  | case1 => exact hr
  | case2 hi low rest h l hl hh ih => simp [percentDecode_escape hh hl, ih]
  | case3 hi low rest hn ih => simpa [percentDecode] using ih
  | case4 bytes hs ih =>
    -- Too short for an escape, which the slash does not make of it.
    match bytes with
    | [] => cases r <;> simp_all [percentDecode]
    | [byte] => cases h : decodeHexDigit byte <;> simp_all [percentDecode]
    | hi :: low :: rest => exact absurd rfl (hs hi low rest)
  | case5 byte bytes hb ih => simp [percentDecode_cons hb, ih]

lemma percentDecode_of_not_mem (h : 37 ∉ bytes) : percentDecode bytes = bytes := by
  induction bytes with
  | nil => rfl
  | cons byte bytes ih =>
    rw [mem_cons, not_or] at h
    rw [percentDecode_cons (Ne.symm h.1), ih h.2]

/-! ## Safe segments -/

def reserved : List UInt8 := [37, 47, 92, 59]

/-- The bytes hold nothing reserved and, after so many dots and perhaps other bytes, do not end a dot segment. -/
def Harmless (dots : Nat) (other : Bool) (bytes : List UInt8) : Prop :=
  (∀ byte ∈ reserved, byte ∉ bytes) ∧
    (other = true ∨ (∃ byte ∈ bytes, byte ≠ 46) ∨ dots + bytes.length ≠ 1 ∧ dots + bytes.length ≠ 2)

variable {dots : Nat} {other : Bool} {byte : UInt8}

lemma Harmless.dot (h : Harmless (dots + 1) other bytes) : Harmless dots other (46 :: bytes) := by
  obtain ⟨hp, hd⟩ := h
  constructor
  · intro b hb hm
    rcases mem_cons.mp hm with rfl | hm
    · exact absurd hb (by decide)
    · exact hp b hb hm
  rcases hd with h | ⟨b, hb, hne⟩ | h
  · exact .inl h
  · exact .inr (.inl ⟨b, mem_cons_of_mem _ hb, hne⟩)
  refine .inr (.inr ?_)
  rw [length_cons]
  omega

lemma Harmless.letter (hby : byte ∉ reserved) (hd : byte ≠ 46) (h : Harmless dots true bytes) :
    Harmless dots other (byte :: bytes) := by
  refine ⟨fun b hb hm => ?_, .inr (.inl ⟨byte, mem_cons_self, hd⟩)⟩
  rcases mem_cons.mp hm with rfl | hm
  · exact hby hb
  · exact h.1 b hb hm

lemma harmless_of_scan (hs : 47 ∉ bytes) (h : scanSegment dots other bytes) :
    Harmless dots other (percentDecode bytes) := by
  fun_induction scanSegment dots other bytes with
  | case1 dots other => simpa [percentDecode, Harmless] using h
  | case2 dots other bytes ih =>
    rw [percentDecode_cons (by decide)]
    exact (ih (not_mem_of_not_mem_cons hs) h).dot
  | case5 dots other hi low rest h₁ h₂ hl hh hpl hd _ _ ih =>
    rw [percentDecode_escape hh hl, hd]
    exact (ih (fun hm => hs (by simp [hm])) h).dot
  | case6 dots other hi low rest h₁ h₂ hl hh hpl hd _ _ ih =>
    rw [percentDecode_escape hh hl]
    exact .letter (by simpa [reserved] using hpl) hd (ih (fun hm => hs (by simp [hm])) h)
  | case9 dots other byte bytes hd hba hp ih =>
    rw [percentDecode_cons hp]
    refine .letter ?_ hd (ih (not_mem_of_not_mem_cons hs) h)
    simp only [reserved, mem_cons, not_mem_nil, or_false, not_or] at hba ⊢
    exact ⟨hp, fun hb => hs (hb ▸ mem_cons_self), hba⟩
  | _ => simp at h

def dotSegments : List (List UInt8) := [[46], [46, 46]]

lemma safe_segment (hs : 47 ∉ segment) (h : isSafeSegmentForAuthorization segment) :
    (∀ byte ∈ reserved, byte ∉ percentDecode segment) ∧ percentDecode segment ∉ dotSegments ∧
      segment ∉ dotSegments := by
  obtain ⟨hp, hd⟩ := harmless_of_scan hs h
  refine ⟨hp, fun hm => ?_, fun hm => ?_⟩
  · generalize percentDecode segment = decoded at hm hd
    revert hd
    fin_cases hm <;> simp
  · revert h
    fin_cases hm <;> decide

/-! ## Safe paths -/

lemma splitOn_percentDecode (h : isSafeForAuthorization path) :
    (percentDecode path).splitOn 47 = (path.splitOn 47).map percentDecode ∧
      ∀ byte ∈ reserved, byte ∈ percentDecode path → byte = 47 := by
  induction path using slash_induction with
  | segment a ha =>
    obtain ⟨hp, -⟩ := safe_segment ha (by simpa [isSafeForAuthorization, splitOn_eq_singleton ha] using h)
    rw [splitOn_eq_singleton ha, splitOn_eq_singleton (hp 47 (by decide))]
    exact ⟨rfl, fun byte hb hm => absurd hm (hp byte hb)⟩
  | more a r ha ih => ?_
  simp only [isSafeForAuthorization, splitOn_slash, splitOn_eq_singleton ha, all_append, all_cons, all_nil,
    Bool.and_true, Bool.and_eq_true] at h
  obtain ⟨hp, -⟩ := safe_segment ha h.1
  obtain ⟨hs, hr⟩ := ih h.2
  rw [percentDecode_slash, splitOn_slash, splitOn_slash, hs, splitOn_eq_singleton ha,
    splitOn_eq_singleton (hp 47 (by decide)), map_append]
  refine ⟨rfl, fun byte hb hm => ?_⟩
  rcases mem_append.mp hm with hm | hm
  · exact absurd hm (hp byte hb)
  · exact (mem_cons.mp hm).elim id (hr byte hb)

def DotFree (path : List UInt8) : Prop := ∀ segment ∈ path.splitOn 47, segment ∉ dotSegments

lemma DotFree.ne (h : DotFree path) {dots : List UInt8} (hd : dots ∈ dotSegments) :
    path ≠ dots ∧ path ≠ 47 :: dots ∧ ¬ (dots ++ [47]) <+: path ∧ ¬ (47 :: dots ++ [47]) <+: path := by
  have hs : dots.splitOn 47 = [dots] := by
    revert dots
    decide
  have hsl : ∀ r : List UInt8, (47 :: r).splitOn 47 = [] :: r.splitOn 47 := splitOn_slash []
  refine ⟨?_, ?_, ?_, ?_⟩
  · rintro rfl
    exact h path (by simp [hs]) hd
  · rintro rfl
    exact h dots (by simp [hsl, hs]) hd
  · rintro ⟨r, rfl⟩
    exact h dots (by simp [splitOn_slash, hs]) hd
  · rintro ⟨r, rfl⟩
    exact h dots (by simp [hsl, splitOn_slash, hs]) hd

lemma removeDots_of_dotFree (output : List UInt8) (ht : path.length ≤ turns) (h : DotFree path) :
    removeDots turns output path = output ++ path := by
  have hn : DotFree [] := by
    unfold DotFree
    decide
  induction turns generalizing output path with
  | zero => simp [removeDots, length_eq_zero_iff.mp (Nat.le_zero.mp ht)]
  | succ turns ih => ?_
  obtain ⟨ho, ho', ho₁, ho₂⟩ := h.ne (show [46] ∈ dotSegments by decide)
  obtain ⟨htw, htw', htw₁, htw₂⟩ := h.ne (show [46, 46] ∈ dotSegments by decide)
  have htu : removeDots (turns + 1) output path = removeDots turns
      (output ++ path.take 1 ++ path.tail.takeWhile (· != 47)) (path.tail.dropWhile (· != 47)) := by
    simp only [cons_append, nil_append] at ho₁ ho₂ htw₁ htw₂
    simp only [removeDots, ho, ho', ho₁, ho₂, htw, htw', htw₁, htw₂, if_false, or_self]
  rw [htu]
  -- The first segment goes to the output, with the slash before it.
  rcases path with _ | ⟨byte, path⟩
  · simpa using ih output (Nat.zero_le _) h
  have hp : path.takeWhile (· != 47) ++ path.dropWhile (· != 47) = path := takeWhile_append_dropWhile
  have hl := congrArg length hp
  simp only [length_append, length_cons] at hl ht
  rw [tail_cons, ih _ (by omega)]
  · simp
  · rcases hr : path.dropWhile (· != 47) with _ | ⟨slash, rest⟩
    · exact hn
    obtain rfl : slash = 47 := by simpa [hr] using head?_dropWhile_not (· != 47) path
    intro segment hm
    rw [show 47 :: rest = [] ++ 47 :: rest from rfl, splitOn_slash] at hm
    rcases mem_append.mp hm with hm | hm
    · exact hn segment hm
    apply h segment
    rw [← hp, hr, ← cons_append, splitOn_slash]
    exact mem_append_right _ hm

/-- **An authorized path means the same to every upstream**, decoded or not. -/
theorem authorized_path_unambiguous (path : List UInt8) (h : isSafeForAuthorization path = true) :
    (∀ byte ∈ reserved, byte ∈ percentDecode path → byte = 47) ∧
      (percentDecode path).splitOn 47 = (path.splitOn 47).map percentDecode ∧
      percentDecode (percentDecode path) = percentDecode path ∧
      removeDotSegments path = path ∧ removeDotSegments (percentDecode path) = percentDecode path ∧
      removeDotSegments (percentDecode (removeDotSegments path)) = percentDecode path := by
  obtain ⟨hs, hp⟩ := splitOn_percentDecode h
  have hsa : ∀ segment ∈ path.splitOn 47, percentDecode segment ∉ dotSegments ∧ segment ∉ dotSegments :=
    fun segment hm => (safe_segment (slash_not_mem hm) (all_eq_true.mp h segment hm)).2
  have hb : removeDotSegments path = path :=
    removeDots_of_dotFree [] le_rfl fun segment hm => (hsa segment hm).2
  have ha : removeDotSegments (percentDecode path) = percentDecode path := by
    refine removeDots_of_dotFree [] le_rfl fun segment hm => ?_
    rw [hs] at hm
    obtain ⟨raw, hr, rfl⟩ := mem_map.mp hm
    exact (hsa raw hr).1
  refine ⟨hp, hs, percentDecode_of_not_mem fun hm => ?_, hb, ha, by rw [hb, ha]⟩
  exact absurd (hp 37 (by decide) hm) (by decide)

theorem authorized_path_dots : removeDotSegments (percentDecode [47, 97, 37, 50, 101, 98, 47, 46, 46, 46]) =
    [47, 97, 46, 98, 47, 46, 46, 46] :=
  (authorized_path_unambiguous [47, 97, 37, 50, 101, 98, 47, 46, 46, 46] (by decide)).2.2.2.2.1.trans (by decide)

end Codex.Network
