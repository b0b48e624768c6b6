import Codex.PathUri.Basic

/-! # What `starts_with` and `==` of `PathUri` have to do with the depths of paths -/

namespace Codex

open Codex.Text List

/-- Percent decoding goes byte by byte, segment by segment, and gives text where the bytes are UTF-8. -/
structure UrlCrates.Lawful (c : UrlCrates) : Prop where
  decodeBinary_slash : ∀ s t, c.decodeBinary (s ++ '/' :: t) = c.decodeBinary s ++ 47 :: c.decodeBinary t
  decodeBinary_eq_nil : ∀ s, c.decodeBinary s = [] ↔ s = []
  decode_ignoreCase : ∀ s t : Text, s.eqIgnoreAsciiCase t = true →
    (decodeUriPath c s).eqIgnoreAsciiCase (decodeUriPath c t) = true
  decode_of_bytes : ∀ s t, (c.decode s).isSome →
    (c.decodeBinary s).map toAsciiLowercase = (c.decodeBinary t).map toAsciiLowercase →
    (decodeUriPath c s).eqIgnoreAsciiCase (decodeUriPath c t) = true

variable {s : Text}

lemma Text.eqIgnoreAsciiCase_iff :
    s.eqIgnoreAsciiCase t ↔ s.map Char.toLower = t.map Char.toLower := by
  unfold Text.eqIgnoreAsciiCase
  exact decide_eq_true_iff

namespace PathUri

variable {c : UrlCrates} {uri base path : PathUri}

/-! ## Depths -/

lemma lexicalDepth_eq_some_iff : uri.lexicalDepth c = some depth ↔
    uri.isOpaque c = false ∧ ∃ convention, uri.inferPathConvention c = some convention ∧
      hasEncodedSeparator c convention uri.url.names = false ∧ uri.url.names.length = depth := by
  unfold lexicalDepth containmentPathSegments
  cases hop : uri.isOpaque c with
  | true => simp
  | false => ?_
  cases hc : uri.inferPathConvention c with
  | none => simp
  | some convention =>
    cases hs : hasEncodedSeparator c convention uri.url.names <;> simp [hs]

lemma windowsIdentity_eq_some (h : uri.windowsIdentityPathBytes c = some bytes) :
    uri.inferPathConvention c = some .windows ∧ uri.isOpaque c = false ∧
      hasEncodedSeparator c .windows uri.url.segments = false ∧ bytes = c.decodeBinary uri.url.path := by
  unfold windowsIdentityPathBytes at h
  split at h
  · simp at h
  rename_i hn
  simp only [not_or, not_not, Bool.not_eq_true] at hn
  exact ⟨hn.1, hn.2.1, hn.2.2, (Option.some.inj h).symm⟩

variable {convention : PathConvention} {α : Type}

lemma hasEncodedSeparator_names {url : Url} (h : hasEncodedSeparator c convention url.segments = false) :
    hasEncodedSeparator c convention url.names = false := by
  unfold hasEncodedSeparator Url.names at *
  rw [any_eq_false] at h ⊢
  exact fun segment hs => h segment (mem_filter.mp hs).1

lemma eq_cases (h : uri.eq c base) : uri = base ∨
    ((uri.lexicalDepth c).isSome ∧ (base.lexicalDepth c).isSome ∧ uri.inferPathConvention c = some .windows ∧
      base.inferPathConvention c = some .windows ∧ uri.isOpaque c = false ∧ base.isOpaque c = false ∧
      uri.url.host = base.url.host ∧
      hasEncodedSeparator c .windows uri.url.segments = false ∧
      hasEncodedSeparator c .windows base.url.segments = false ∧
      (c.decodeBinary uri.url.path).map toAsciiLowercase = (c.decodeBinary base.url.path).map toAsciiLowercase) := by
  by_cases hu : uri.url = base.url
  · left
    cases uri
    cases base
    simpa using hu
  right
  unfold eq at h
  simp only [hu, decide_false, Bool.false_or] at h
  split at h
  · rename_i hb ho
    obtain ⟨hc, hp, hs, rfl⟩ := windowsIdentity_eq_some hb
    obtain ⟨hc', hp', hs', rfl⟩ := windowsIdentity_eq_some ho
    simp only [Bool.and_eq_true, decide_eq_true_eq] at h
    refine ⟨?_, ?_, hc, hc', hp, hp', h.1, hs, hs', h.2⟩
    · exact Option.isSome_iff_exists.mpr ⟨_, lexicalDepth_eq_some_iff.mpr
        ⟨hp, _, hc, hasEncodedSeparator_names hs, rfl⟩⟩
    · exact Option.isSome_iff_exists.mpr ⟨_, lexicalDepth_eq_some_iff.mpr
        ⟨hp', _, hc', hasEncodedSeparator_names hs', rfl⟩⟩
  · simp at h

/-! ## Decoded segments -/

def lowered (c : UrlCrates) (segment : Text) : List UInt8 := (c.decodeBinary segment).map toAsciiLowercase

lemma toAsciiLowercase_eq_slash : toAsciiLowercase b = 47 ↔ b = 47 := by
  unfold toAsciiLowercase
  split
  · rename_i h
    constructor
    · intro hb
      exfalso
      have := congrArg UInt8.toNat hb
      have h₁ := UInt8.le_iff_toNat_le.mp h.1
      have h₂ := UInt8.le_iff_toNat_le.mp h.2
      simp at this h₁ h₂
      omega
    · rintro rfl
      exact absurd h.1 (by decide)
  · rfl

lemma lowered_eq_nil {segment : Text} (hc : c.Lawful) : lowered c segment = [] ↔ segment = [] := by
  unfold lowered
  rw [map_eq_nil_iff, hc.decodeBinary_eq_nil]

lemma slash_not_mem_lowered (h : hasEncodedSeparator c .windows segments = false) :
    ∀ l ∈ segments.map (lowered c), (47 : UInt8) ∉ l := by
  intro l hl hm
  obtain ⟨segment, hs, rfl⟩ := mem_map.mp hl
  obtain ⟨b, hb, hsl⟩ := mem_map.mp hm
  unfold hasEncodedSeparator at h
  rw [any_eq_false] at h
  refine h segment hs (any_eq_true.mpr ⟨b, hb, ?_⟩)
  simp [toAsciiLowercase_eq_slash.mp hsl]

lemma intercalate_pair (x : α) (a b : List α) (ls : List (List α)) :
    intercalate [x] (a :: b :: ls) = a ++ x :: intercalate [x] (b :: ls) := by
  simp [intercalate]

lemma decodeBinary_intercalate (hc : c.Lawful) (segments : List Text) :
    c.decodeBinary (intercalate ['/'] segments) = intercalate [47] (segments.map c.decodeBinary) := by
  induction segments with
  | nil => exact (hc.decodeBinary_eq_nil []).mpr rfl
  | cons segment segments ih => ?_
  rcases segments with _ | ⟨next, segments⟩
  · simp [intercalate]
  rw [intercalate_pair, hc.decodeBinary_slash, ih]
  simp only [map_cons, intercalate_pair]

lemma map_intercalate {β : Type} (f : α → β) (x : α) (ls : List (List α)) :
    (intercalate [x] ls).map f = intercalate [f x] (ls.map (map f)) := by
  induction ls with
  | nil => rfl
  | cons l ls ih => ?_
  rcases ls with _ | ⟨next, ls⟩
  · simp [intercalate]
  rw [intercalate_pair, map_append, map_cons, ih]
  simp only [map_cons, intercalate_pair]

lemma lowered_path (hc : c.Lawful) (url : Url) :
    lowered c url.path = 47 :: intercalate [47] (url.segments.map (lowered c)) := by
  unfold lowered Url.path
  have := hc.decodeBinary_slash [] (intercalate ['/'] url.segments)
  rw [(hc.decodeBinary_eq_nil []).mpr rfl, nil_append, nil_append] at this
  rw [this, decodeBinary_intercalate hc, map_cons, map_intercalate, map_map]
  rfl

lemma lowered_names (hc : c.Lawful) {url other : Url} (hu : hasEncodedSeparator c .windows url.segments = false)
    (ho : hasEncodedSeparator c .windows other.segments = false)
    (h : lowered c url.path = lowered c other.path) :
    url.names.map (lowered c) = other.names.map (lowered c) := by
  -- Empty segments are no names, so a URL without segments is like one with an empty segment.
  have hn : ∀ url : Url, url.names.map (lowered c) =
      ((intercalate [47] (url.segments.map (lowered c))).splitOn 47).filter (!·.isEmpty) ∨
      hasEncodedSeparator c .windows url.segments := by
    intro url
    cases hs : hasEncodedSeparator c .windows url.segments with
    | true => exact .inr rfl
    | false => ?_
    left
    by_cases hni : url.segments = []
    · unfold Url.names
      rw [hni]
      rfl
    rw [splitOn_intercalate _ (slash_not_mem_lowered hs) (by simpa using hni), Url.names, filter_map]
    congr 1
    apply filter_congr
    intro segment _
    rw [Bool.eq_iff_iff]
    simp [lowered_eq_nil hc]
  rw [lowered_path hc, lowered_path hc, cons.injEq] at h
  rw [(hn url).resolve_right (by simp [hu]), (hn other).resolve_right (by simp [ho]), h.2]

lemma eq_lexicalDepth (hc : c.Lawful) (h : uri.eq c base) : uri.lexicalDepth c = base.lexicalDepth c := by
  rcases eq_cases h with rfl | ⟨hu, hba, -, -, -, -, -, hs, hs', hb⟩
  · rfl
  obtain ⟨_, hd⟩ := Option.isSome_iff_exists.mp hu
  obtain ⟨_, hd'⟩ := Option.isSome_iff_exists.mp hba
  obtain ⟨-, -, -, -, rfl⟩ := lexicalDepth_eq_some_iff.mp hd
  obtain ⟨-, -, -, -, rfl⟩ := lexicalDepth_eq_some_iff.mp hd'
  have := congrArg List.length (lowered_names hc hs hs' hb)
  rw [length_map, length_map] at this
  rw [hd, hd', this]

/-! ## At and below -/

lemma startsWith_cases (h : uri.startsWith c base) : uri.eq c base ∨
    ∃ convention, uri.inferPathConvention c = some convention ∧ base.inferPathConvention c = some convention ∧
      uri.isOpaque c = false ∧ base.isOpaque c = false ∧ uri.url.host = base.url.host ∧
      hasEncodedSeparator c convention uri.url.names = false ∧
      hasEncodedSeparator c convention base.url.names = false ∧
      nativePathSegmentsStartWith c uri.url.names base.url.names convention := by
  unfold startsWith containmentPathSegments at h
  rw [Bool.or_eq_true] at h
  rcases h with heq | h
  · exact .inl heq
  right
  simp only [Bool.and_eq_true, Bool.not_eq_true', decide_eq_true_eq] at h
  obtain ⟨⟨⟨⟨hp, hp'⟩, hh⟩, hc⟩, h⟩ := h
  -- Only an opaque path has no convention.
  obtain ⟨convention, hs⟩ : ∃ convention, uri.inferPathConvention c = some convention := by
    have hn : uri.opaqueFallbackBytes c = none := by
      unfold isOpaque at hp
      simpa using hp
    unfold inferPathConvention
    rw [hn]
    simp only
    split
    · exact ⟨_, rfl⟩
    · split <;> exact ⟨_, rfl⟩
  rw [hs, Option.getD_some] at h
  refine ⟨convention, hs, hc ▸ hs, hp, hp', hh, ?_⟩
  cases hse : hasEncodedSeparator c convention uri.url.names <;>
    cases hse' : hasEncodedSeparator c convention base.url.names <;> simp_all

lemma lexicalDepth_of_startsWith (h : uri.startsWith c base) :
    (uri.lexicalDepth c).isSome ↔ (base.lexicalDepth c).isSome := by
  rcases startsWith_cases h with heq | ⟨convention, hu, hb, hp, hp', -, hse, hse', -⟩
  · rcases eq_cases heq with rfl | ⟨hs, hs', -⟩
    · rfl
    · exact iff_of_true hs hs'
  refine iff_of_true ?_ ?_ <;> rw [Option.isSome_iff_exists]
  · exact ⟨_, lexicalDepth_eq_some_iff.mpr ⟨hp, convention, hu, hse, rfl⟩⟩
  · exact ⟨_, lexicalDepth_eq_some_iff.mpr ⟨hp', convention, hb, hse', rfl⟩⟩

lemma eq_refl (uri : PathUri) : uri.eq c uri := by
  unfold eq
  rw [decide_eq_true rfl, Bool.true_or]

lemma startsWith_refl (uri : PathUri) : uri.startsWith c uri := by
  unfold startsWith
  rw [eq_refl, Bool.true_or]

lemma depth_le_of_startsWith (hc : c.Lawful) (h : uri.startsWith c base)
    (hd : uri.lexicalDepth c = some depth) (hb : base.lexicalDepth c = some baseDepth) :
    baseDepth ≤ depth := by
  rcases startsWith_cases h with heq | ⟨convention, -, -, -, -, -, -, -, hn⟩
  · rw [eq_lexicalDepth hc heq, hb] at hd
    exact (Option.some.inj hd).le
  obtain ⟨-, -, -, -, rfl⟩ := lexicalDepth_eq_some_iff.mp hd
  obtain ⟨-, -, -, -, rfl⟩ := lexicalDepth_eq_some_iff.mp hb
  unfold nativePathSegmentsStartWith at hn
  cases convention <;> simp only [Bool.and_eq_true, decide_eq_true_eq] at hn <;> exact hn.1

lemma inferPathConvention_of_startsWith (h : uri.startsWith c base) :
    uri.inferPathConvention c = base.inferPathConvention c := by
  rcases startsWith_cases h with heq | ⟨_, hu, hb, -⟩
  · rcases eq_cases heq with rfl | ⟨-, -, hu, hb, -⟩
    · rfl
    · rw [hu, hb]
  · rw [hu, hb]

/-! ## Names without their spelling -/

def nameKey (c : UrlCrates) (convention : PathConvention) (name : Text) : List UInt8 ⊕ Text :=
  match convention with
  | .posix => .inl (c.decodeBinary name)
  | .windows => .inr ((decodeUriPath c name).map Char.toLower)

lemma all_zip_iff_prefix {β : Type} {r : α → α → Bool} {key : α → β}
    (hr : ∀ a b, r a b ↔ key a = key b) (path base : List α) :
    (decide (base.length ≤ path.length) && (path.zip base).all fun (p, b) => r p b) ↔
      base.map key <+: path.map key := by
  induction base generalizing path with
  | nil => simp
  | cons b base ih => ?_
  rcases path with _ | ⟨p, path⟩
  · simp
  rw [map_cons, map_cons, cons_prefix_cons, ← ih, ← hr p b |>.trans eq_comm]
  simp only [length_cons, Nat.add_le_add_iff_right, zip_cons_cons, all_cons, Bool.and_eq_true]
  tauto

lemma nativePathSegmentsStartWith_iff (hc : c.Lawful) (path base : List Text) (convention : PathConvention) :
    nativePathSegmentsStartWith c path base convention ↔
      base.map (nameKey c convention) <+: path.map (nameKey c convention) := by
  unfold nativePathSegmentsStartWith
  cases convention with
  | posix =>
    refine all_zip_iff_prefix (r := fun path base => c.decodeBinary path = c.decodeBinary base) ?_ path base
    intro p b
    rw [nameKey, nameKey, Sum.inl.injEq, decide_eq_true_iff]
  | windows => ?_
  refine all_zip_iff_prefix (r := fun path base => path.eqIgnoreAsciiCase base ||
    (decodeUriPath c path).eqIgnoreAsciiCase (decodeUriPath c base)) ?_ path base
  intro p b
  rw [Bool.or_eq_true, nameKey, nameKey, Sum.inr.injEq, ← Text.eqIgnoreAsciiCase_iff]
  exact ⟨fun h => h.elim (hc.decode_ignoreCase p b) id, .inr⟩

/-- Every name decodes to text. -/
def Utf8Names (c : UrlCrates) (uri : PathUri) : Prop := ∀ name ∈ uri.url.names, (c.decode name).isSome

lemma keys_of_lowered (hc : c.Lawful) {names others : List Text} (hu8 : ∀ name ∈ names, (c.decode name).isSome)
    (h : names.map (lowered c) = others.map (lowered c)) :
    names.map (nameKey c .windows) = others.map (nameKey c .windows) := by
  induction names generalizing others with
  | nil =>
    cases others with
    | nil => rfl
    | cons other others => simp at h
  | cons name names ih => ?_
  rcases others with _ | ⟨other, others⟩
  · simp at h
  rw [map_cons, map_cons, cons.injEq] at h
  rw [map_cons, map_cons, ih (fun n hn => hu8 n (by simp [hn])) h.2]
  congr 1
  unfold nameKey
  rw [Text.eqIgnoreAsciiCase_iff.mp (hc.decode_of_bytes name other (hu8 name (by simp)) h.1)]

/-- When a location lies at or below a base. -/
structure At (c : UrlCrates) (convention : PathConvention) (uri base : PathUri) : Prop where
  convention_eq : base.inferPathConvention c = some convention
  plain : base.isOpaque c = false
  host_eq : uri.url.host = base.url.host
  separate : hasEncodedSeparator c convention base.url.names = false
  names : base.url.names.map (nameKey c convention) <+: uri.url.names.map (nameKey c convention)

lemma at_self (hc : uri.inferPathConvention c = some convention)
    (hd : (uri.lexicalDepth c).isSome) : At c convention uri uri := by
  obtain ⟨_, hd⟩ := Option.isSome_iff_exists.mp hd
  obtain ⟨hp, _, hk, hs, -⟩ := lexicalDepth_eq_some_iff.mp hd
  obtain rfl := Option.some.inj (hk.symm.trans hc)
  exact ⟨hc, hp, rfl, hs, prefix_rfl⟩

lemma At.lexicalDepth (h : At c convention uri base) : base.lexicalDepth c = some base.url.names.length :=
  lexicalDepth_eq_some_iff.mpr ⟨h.plain, convention, h.convention_eq, h.separate, rfl⟩

lemma at_of_startsWith (hc : c.Lawful) (hco : uri.inferPathConvention c = some convention)
    (hut8 : convention = .windows → Utf8Names c uri) (hd : (uri.lexicalDepth c).isSome)
    (h : uri.startsWith c base) : At c convention uri base := by
  rcases startsWith_cases h with heq | ⟨_, hu, hb, -, hp', hh, -, hs', hn⟩
  · rcases eq_cases heq with rfl | ⟨-, -, hu, hb, -, hp', hh, hs, hs', hby⟩
    · exact at_self hco hd
    obtain rfl := Option.some.inj (hu.symm.trans hco)
    refine ⟨hb, hp', hh, hasEncodedSeparator_names hs', ?_⟩
    rw [keys_of_lowered hc (hut8 rfl) (lowered_names hc hs hs' hby)]
  · obtain rfl := Option.some.inj (hu.symm.trans hco)
    exact ⟨hb, hp', hh, hs', (nativePathSegmentsStartWith_iff hc _ _ _).mp hn⟩

lemma startsWith_of_both (hc : c.Lawful) (hu : At c convention path upper)
    (hl : At c convention path lower) (hle : upper.url.names.length ≤ lower.url.names.length) :
    lower.startsWith c upper := by
  have hk := prefix_of_prefix_length_le hu.names hl.names (by simpa using hle)
  unfold startsWith containmentPathSegments
  rw [Bool.or_eq_true]
  right
  simp only [hl.plain, hu.plain, hl.convention_eq, hu.convention_eq, hl.separate, hu.separate,
    ← hl.host_eq, hu.host_eq, Option.getD_some,
    Bool.false_eq_true]
  exact (nativePathSegmentsStartWith_iff hc _ _ _).mpr hk

lemma At.startsWith (hc : c.Lawful) (hs : At c convention uri uri) (h : At c convention uri base) :
    uri.startsWith c base :=
  startsWith_of_both hc h hs (by simpa using h.names.length_le)

end PathUri

/-! ## Plain names -/

lemma toAsciiLowercase_of_not_ascii (h : 128 ≤ b.toNat) : toAsciiLowercase b = b := by
  unfold toAsciiLowercase
  rw [if_neg]
  rintro ⟨-, hle⟩
  have := UInt8.le_iff_toNat_le.mp hle
  have hz : (90 : UInt8).toNat = 90 := rfl
  omega

lemma utf8EncodeChar_not_ascii (h : ¬ ch.val.toNat ≤ 127) :
    ∀ b ∈ String.utf8EncodeChar ch, 128 ≤ b.toNat := by
  unfold String.utf8EncodeChar
  simp only [if_neg h]
  intro b hb
  have hby : ∃ n, b = .ofNat n ∧ 128 ≤ n ∧ n ≤ 255 := by
    split at hb
    · simp only [mem_cons, not_mem_nil, or_false] at hb
      rcases hb with rfl | rfl <;> exact ⟨_, rfl, by omega, by omega⟩
    split at hb
    · simp only [mem_cons, not_mem_nil, or_false] at hb
      rcases hb with rfl | rfl | rfl <;> exact ⟨_, rfl, by omega, by omega⟩
    · simp only [mem_cons, not_mem_nil, or_false] at hb
      rcases hb with rfl | rfl | rfl | rfl <;> exact ⟨_, rfl, by omega, by omega⟩
  obtain ⟨n, rfl, hl, _⟩ := hby
  simp [Nat.mod_eq_of_lt (show n < 256 by omega), hl]

lemma mem_of_mem_asBytes (h : b ∈ s.asBytes) (hb : b.toNat < 128) : Char.ofNat b.toNat ∈ s := by
  obtain ⟨ch, hch, hin⟩ := mem_flatMap.mp h
  by_cases ha : ch.val.toNat ≤ 127
  · have ho : String.utf8EncodeChar ch = [.ofNat ch.val.toNat] := by
      unfold String.utf8EncodeChar
      simp only [if_pos ha]
    rw [ho, mem_singleton] at hin
    have hs : b.toNat = ch.toNat := by
      rw [hin, UInt8.toNat_ofNat']
      exact Nat.mod_eq_of_lt (show ch.val.toNat < 256 by omega)
    rw [hs, Char.ofNat_toNat]
    exact hch
  · have := utf8EncodeChar_not_ascii ha b hin
    omega

lemma utf8EncodeChar_toLower (ch : Char) :
    String.utf8EncodeChar ch.toLower = (String.utf8EncodeChar ch).map toAsciiLowercase := by
  by_cases ha : ch.val.toNat ≤ 127
  · have hch : ch = .ofNat ch.val.toNat := (Char.ofNat_toNat ch).symm
    have hal : ∀ n < 128, String.utf8EncodeChar (Char.ofNat n).toLower =
        (String.utf8EncodeChar (Char.ofNat n)).map toAsciiLowercase := by decide
    rw [hch]
    exact hal _ (by omega)
  have hu : ch.toLower = ch := by
    unfold Char.toLower
    rw [dif_neg]
    rintro ⟨-, hle⟩
    have := UInt32.le_iff_toNat_le.mp hle
    have hz : 'Z'.val.toNat = 90 := rfl
    omega
  rw [hu]
  rw [map_congr_left fun b hb =>
    toAsciiLowercase_of_not_ascii (utf8EncodeChar_not_ascii ha b hb), map_id'']
  exact fun _ => rfl

lemma asBytes_toLower (s : Text) : Text.asBytes (s.map Char.toLower) = (Text.asBytes s).map toAsciiLowercase := by
  unfold Text.asBytes
  rw [flatMap_map, map_flatMap]
  simp only [utf8EncodeChar_toLower]

lemma asBytes_injective (h : s.asBytes = t.asBytes) : s = t := by
  have hb : (String.ofList s).toByteArray = (String.ofList t).toByteArray := by
    exact congrArg toByteArray h
  exact String.ofList_inj.mp (String.toByteArray_inj.mp hb)

lemma UrlCrates.plain_lawful : UrlCrates.plain.Lawful where
  decodeBinary_slash s t := by
    show Text.asBytes (s ++ '/' :: t) = Text.asBytes s ++ 47 :: Text.asBytes t
    unfold Text.asBytes
    rw [flatMap_append, flatMap_cons]
    rfl
  decodeBinary_eq_nil s := by
    constructor
    · exact fun h => asBytes_injective (h.trans rfl)
    · rintro rfl
      rfl
  decode_ignoreCase _ _ h := h
  decode_of_bytes s t _ h := by
    rw [Text.eqIgnoreAsciiCase_iff]
    apply asBytes_injective
    rw [asBytes_toLower, asBytes_toLower]
    exact h

end Codex
