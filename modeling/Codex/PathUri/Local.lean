import Mathlib
import Codex.AbsolutePath
import Codex.PathUri.Laws
import Codex.PathUri.NativePath

/-!
# URIs of local paths

`from_abs_path` and `to_abs_path` of `utils/path-uri/src/lib.rs`, as they are built off Windows.
-/

namespace Codex

open Codex.Text List

/-- With `from_file_path` and `to_file_path` of the `url` crate. -/
structure FileUrlCrates extends UrlCrates where
  fromFilePath : AbsolutePathBuf → Option Url
  toFilePath : Url → Option Text

namespace PathUri

def fromAbsPath (c : FileUrlCrates) (path : AbsolutePathBuf) : PathUri :=
  (((c.fromFilePath path).bind fun url => (tryFrom c.toUrlCrates url).toOption).filter fun uri =>
    uri.url.host ≠ some [] && uri.inferPathConvention c.toUrlCrates = some .posix).getD
      (fromOpaquePathBytes c.toUrlCrates path.toText.asBytes)

def toAbsPath (c : FileUrlCrates) (host : Host) (uri : PathUri) : Option AbsolutePathBuf :=
  if uri.inferPathConvention c.toUrlCrates ≠ some .posix then none
  else match uri.opaqueFallbackBytes c.toUrlCrates with
    | some pathBytes =>
      (AbsolutePathBuf.fromAbsolutePathChecked host (fromUtf8Lossy pathBytes)).filter fun path =>
        (fromAbsPath c path).eq c.toUrlCrates uri
    | none => (c.toFilePath uri.url).bind (AbsolutePathBuf.fromAbsolutePathChecked host)

/-! ## The names of a URI -/

section Names

variable {c : UrlCrates} {uri base : PathUri} {names baseNames : List (List UInt8)}

def localNames (c : UrlCrates) (uri : PathUri) : Option (List (List UInt8)) :=
  if uri.inferPathConvention c = some .posix ∧ (uri.lexicalDepth c).isSome then
    some (uri.url.names.map c.decodeBinary)
  else none

lemma localNames_eq_some_iff : uri.localNames c = some names ↔
    uri.inferPathConvention c = some .posix ∧ uri.isOpaque c = false ∧
      hasEncodedSeparator c .posix uri.url.names = false ∧ uri.url.names.map c.decodeBinary = names := by
  unfold localNames
  split
  · rename_i h
    obtain ⟨depth, hd⟩ := Option.isSome_iff_exists.mp h.2
    obtain ⟨hp, convention, hc, hs, -⟩ := lexicalDepth_eq_some_iff.mp hd
    obtain rfl := Option.some.inj (h.1.symm.trans hc)
    simp [h.1, hp, hs]
  rename_i h
  constructor
  · exact fun hn => absurd hn (by simp)
  rintro ⟨hc, hp, hs, -⟩
  refine absurd ⟨hc, ?_⟩ h
  rw [Option.isSome_iff_exists]
  exact ⟨_, lexicalDepth_eq_some_iff.mpr ⟨hp, _, hc, hs, rfl⟩⟩

lemma localNames_of_isOpaque (h : uri.isOpaque c) : uri.localNames c = none := by
  rw [Option.eq_none_iff_forall_ne_some]
  intro names hn
  rw [(localNames_eq_some_iff.mp hn).2.1] at h
  simp at h

section Names

variable (h : uri.localNames c = some names)

include h

lemma lexicalDepth_of_localNames : uri.lexicalDepth c = some names.length := by
  obtain ⟨hc, hp, hs, rfl⟩ := localNames_eq_some_iff.mp h
  exact lexicalDepth_eq_some_iff.mpr ⟨hp, _, hc, hs, by simp⟩

lemma host_of_localNames : uri.url.host = none := by
  obtain ⟨hc, hp, -, -⟩ := localNames_eq_some_iff.mp h
  unfold inferPathConvention at hc
  rw [show uri.opaqueFallbackBytes c = none by simpa [isOpaque] using hp] at hc
  simp only at hc
  split at hc
  · simp at hc
  · rename_i hh
    simpa using hh

lemma startsWith_iff_names (hb : base.localNames c = some baseNames) :
    uri.startsWith c base ↔ baseNames <+: names := by
  obtain ⟨hc, hp, hse, hn⟩ := localNames_eq_some_iff.mp h
  obtain ⟨hc', hp', hse', hn'⟩ := localNames_eq_some_iff.mp hb
  have hh : uri.url.host = base.url.host := by rw [host_of_localNames h, host_of_localNames hb]
  have hs : nativePathSegmentsStartWith c uri.url.names base.url.names .posix ↔
      baseNames <+: names := by
    subst hn hn'
    exact all_zip_iff_prefix (r := fun p b => c.decodeBinary p = c.decodeBinary b)
      (fun _ _ => decide_eq_true_iff) uri.url.names base.url.names
  constructor
  · intro hst
    rcases startsWith_cases hst with heq | ⟨_, hu, -, -, -, -, -, -, hsta⟩
    · rcases eq_cases heq with rfl | ⟨-, -, hw, -⟩
      · rw [Option.some.inj (hb.symm.trans h)]
      · rw [hc] at hw
        simp at hw
    · obtain rfl := Option.some.inj (hc.symm.trans hu)
      exact hs.mp hsta
  intro hpr
  unfold startsWith containmentPathSegments
  simp [hp, hp', hh, hc, hc', hse, hse', hs.mpr hpr]

lemma startsWith_of_isOpaque (hb : base.isOpaque c) :
    uri.startsWith c base = false := by
  rw [Bool.eq_false_iff]
  intro hs
  have hd := (lexicalDepth_of_startsWith hs).mp (by rw [lexicalDepth_of_localNames h]; rfl)
  obtain ⟨_, hd⟩ := Option.isSome_iff_exists.mp hd
  rw [(lexicalDepth_eq_some_iff.mp hd).1] at hb
  simp at hb

end Names

end Names

end PathUri

/-! ## The URI of a path -/

namespace AbsolutePathBuf

def isDriveName : Text → Bool
  | [drive, ':'] => drive.isAlpha
  | _ => false

section

variable (path : AbsolutePathBuf)

/-- The text of the path as a URI stands for the path: it does not start with a drive of Windows. -/
def hasUri : Bool :=
  !path.names.head?.any isDriveName && path.names.all (!·.contains '\x00')

def key : List (List UInt8) := path.names.map Text.asBytes

/-- Paths that the system can have. -/
def OfSystem : Prop := path.Normal ∧ path.names.all (!·.contains '\x00') = true

lemma key_prefix_iff {path base : AbsolutePathBuf} : base.key <+: path.key ↔ base.names <+: path.names :=
  prefix_map_iff_of_injective fun _ _ => asBytes_injective

def upTo (depth : Nat) : AbsolutePathBuf := ⟨path.names.take depth⟩

lemma key_upTo {path : AbsolutePathBuf} {key : List (List UInt8)} (h : key <+: path.key) :
    (path.upTo key.length).key = key := by
  unfold upTo AbsolutePathBuf.key
  rw [map_take]
  exact (prefix_iff_eq_take.mp h).symm

lemma upTo_prefix (depth : Nat) : (path.upTo depth).names <+: path.names :=
  take_prefix _ _

end

lemma hasUri_above {path base : AbsolutePathBuf} (h : path.hasUri) (hb : base.names <+: path.names) :
    base.hasUri := by
  unfold hasUri at h ⊢
  rw [Bool.and_eq_true, all_eq_true] at h ⊢
  refine ⟨?_, fun name hna => h.2 name (hb.subset hna)⟩
  obtain ⟨_, hr⟩ := hb
  rcases hn : base.names with _ | ⟨first, names⟩
  · rfl
  rw [← hr, hn] at h
  exact h.1

lemma OfSystem.above {path base : AbsolutePathBuf} (h : path.OfSystem) (hb : base.names <+: path.names) :
    base.OfSystem := by
  refine ⟨fun name hn => h.1 name (hb.subset hn), ?_⟩
  rw [all_eq_true]
  exact fun name hn => all_eq_true.mp h.2 name (hb.subset hn)

end AbsolutePathBuf

open AbsolutePathBuf

def Url.Tidy (url : Url) : Prop := url.segments = [[]] ∨ [] ∉ url.segments

/-- What the crates do with the URLs of local paths. Only those of the fallback start with the name `%00`. -/
structure FileUrlCrates.Lawful (c : FileUrlCrates) : Prop extends c.toUrlCrates.Lawful where
  readable : ∀ url : Url, url.host = none → (∀ name ∈ url.names, 0 ∉ c.decodeBinary name) →
    decodeBadPathUri c.toUrlCrates url = none
  base64Decode_encode : ∀ bytes, c.base64Decode (c.base64Encode bytes) = some bytes
  slash_not_mem_base64 : ∀ bytes, '/' ∉ c.base64Encode bytes
  base64_ne_nil : ∀ bytes, bytes ≠ [] → c.base64Encode bytes ≠ []
  pop_tidy : ∀ url : Url, url.Tidy → (c.pop (c.popIfEmpty url)).Tidy ∧
    (c.pop (c.popIfEmpty url)).host = url.host ∧ (c.pop (c.popIfEmpty url)).names = url.names.dropLast
  push_plain : ∀ (url : Url) (name : Text), url.Tidy → name ≠ [] → name.all (fun ch => ch.isAlpha || ch = '.') →
    (c.push (c.popIfEmpty url) name).Tidy ∧ (c.push (c.popIfEmpty url) name).host = url.host ∧
      (c.push (c.popIfEmpty url) name).names = url.names ++ [name]
  decode_plain : ∀ name : Text, name.all (fun ch => ch.isAlpha || ch = '.') → c.decodeBinary name = name.asBytes
  fromFilePath_normal : ∀ path : AbsolutePathBuf, path.Normal → ∃ url, c.fromFilePath path = some url ∧
    url.Tidy ∧ url.host = none ∧ url.names.map c.decodeBinary = path.key ∧
    (path.names.all (!·.contains '\x00') →
      url.names.head?.any isWindowsDriveUriSegment = path.names.head?.any AbsolutePathBuf.isDriveName) ∧
    c.toFilePath url = some path.toText

namespace PathUri

variable {c : FileUrlCrates} {path : AbsolutePathBuf} {url : Url}

lemma zero_mem_decode_path (hc : c.Lawful) :
    0 ∈ c.decodeBinary url.path ↔ ∃ name ∈ url.names, 0 ∈ c.decodeBinary name := by
  have hp : c.decodeBinary url.path = 47 :: intercalate [47] (url.segments.map c.decodeBinary) := by
    unfold Url.path
    have := hc.decodeBinary_slash [] (intercalate ['/'] url.segments)
    rw [nil_append, (hc.decodeBinary_eq_nil []).mpr rfl, nil_append] at this
    rw [this, decodeBinary_intercalate hc.toLawful]
  have hs : 0 ∈ intercalate [47] (url.segments.map c.decodeBinary) ↔
      ∃ segment ∈ url.segments, 0 ∈ c.decodeBinary segment := by
    induction url.segments with
    | nil => simp
    | cons segment segments ih => ?_
    rcases segments with _ | ⟨next, segments⟩
    · simp [intercalate]
    rw [map_cons, map_cons, intercalate_pair, mem_append, mem_cons,
      ← map_cons (f := c.decodeBinary), ih]
    simp
  rw [hp, mem_cons, hs]
  unfold Url.names
  constructor
  · rintro (hsl | ⟨segment, hse, hz⟩)
    · cases hsl
    refine ⟨segment, mem_filter.mpr ⟨hse, ?_⟩, hz⟩
    cases segment with
    | nil => rw [(hc.decodeBinary_eq_nil []).mpr rfl] at hz; simp at hz
    | cons => rfl
  · rintro ⟨name, hn, hz⟩
    exact .inr ⟨name, (mem_filter.mp hn).1, hz⟩

variable {name : Text} {segments : List Text} {host : Host}

lemma upperDrive_of_head (h : (segments.filter (!·.isEmpty)).head?.any isWindowsDriveUriSegment = false) :
    upperDrive segments = segments := by
  induction segments with
  | nil => rfl
  | cons segment segments ih => ?_
  rcases segment with _ | ⟨letter, rest⟩
  · exact congrArg _ (ih h)
  unfold upperDrive
  rw [if_neg (by simpa using h)]

lemma upperDrive_drive (h : (segments.filter (!·.isEmpty)).head?.any isWindowsDriveUriSegment) :
    ((upperDrive segments).filter (!·.isEmpty)).head?.any isWindowsDriveUriSegment := by
  induction segments with
  | nil => simp at h
  | cons segment segments ih => ?_
  rcases segment with _ | ⟨letter, rest⟩
  · exact ih h
  have hd : isWindowsDriveUriSegment (letter :: rest) := by simpa using h
  unfold upperDrive
  unfold isWindowsDriveUriSegment at hd ⊢
  split at hd <;> simp_all

lemma filter_getD_eq {α : Type} (p : α → Bool) (a b : α) :
    ((some a).filter p).getD b = a ∨ ((some a).filter p).getD b = b := by
  cases h : p a <;> simp [Option.filter, h]

lemma tryFrom_local (hh : url.host = none) : tryFrom c.toUrlCrates url =
    if (c.decodeBinary url.path).contains 0 && (decodeBadPathUri c.toUrlCrates url).isNone then
      .error (.invalidFileUriPath url.asStr)
    else .ok ⟨{ url with segments := upperDrive url.segments }⟩ := by
  have hn : withNormalizedWindowsDriveLetter (withoutLocalhostAuthority url) =
      { url with segments := upperDrive url.segments } := by
    unfold withoutLocalhostAuthority
    rw [if_neg (by simp [hh])]
    unfold withNormalizedWindowsDriveLetter
    rw [if_neg (by simp [hh])]
  unfold tryFrom validateFileUrl
  rw [hn]
  split <;> rfl

lemma head_of_badPath (hh : url.host = none) (h : (decodeBadPathUri c.toUrlCrates url).isSome) :
    ∃ rest, url.names.head? = some ('%' :: rest) := by
  obtain ⟨_, hb⟩ := Option.isSome_iff_exists.mp h
  unfold decodeBadPathUri at hb
  obtain ⟨encodedPath, hst, -⟩ := Option.bind_eq_some_iff.mp hb
  have hp : url.path = "/%00/bad/path/".toList ++ encodedPath := by
    have hstr := stripPrefix_eq_some.mp hst
    unfold Url.asStr at hstr
    rw [hh] at hstr
    exact (append_cancel_left_eq "file://".toList _ _).mp hstr
  unfold Url.path at hp
  unfold Url.names
  rcases hs : url.segments with _ | ⟨segment, segments⟩
  · rw [hs] at hp
    simp [intercalate] at hp
  rw [hs] at hp
  rcases segment with _ | ⟨ch, rest⟩
  · cases segments <;> simp [intercalate] at hp
  have hch : ch = '%' := by cases segments <;> simp [intercalate] at hp <;> exact hp.1
  subst hch
  exact ⟨rest, rfl⟩

lemma not_drive_of_badPath (hh : url.host = none) (h : (decodeBadPathUri c.toUrlCrates url).isSome) :
    url.names.head?.any isWindowsDriveUriSegment = false := by
  obtain ⟨rest, hhe⟩ := head_of_badPath hh h
  rw [hhe, Option.any_some]
  unfold isWindowsDriveUriSegment
  split <;> first | rfl | (rename_i heq; rw [← (cons.inj heq).1]; rfl)

lemma isOpaque_fromOpaquePathBytes (hc : c.Lawful) (h : bytes ≠ []) :
    (fromOpaquePathBytes c.toUrlCrates bytes).isOpaque c.toUrlCrates := by
  have hs : stripPrefix badPathUriPrefix (fromOpaquePathBytes c.toUrlCrates bytes).url.asStr =
      some (c.base64Encode bytes) := by
    refine stripPrefix_eq_some.mpr ?_
    have hj : intercalate ['/'] ["%00".toList, "bad".toList, "path".toList, c.base64Encode bytes] =
        "%00/bad/path/".toList ++ c.base64Encode bytes := by
      simp [intercalate]
    unfold fromOpaquePathBytes Url.asStr Url.path
    simp only [hj]
    rfl
  have hsl : (c.base64Encode bytes).contains '/' = false := by
    simpa using hc.slash_not_mem_base64 bytes
  have he : (c.base64Encode bytes).isEmpty = false := by
    simpa using hc.base64_ne_nil bytes h
  unfold isOpaque opaqueFallbackBytes decodeBadPathUri
  rw [hs]
  simp only [Option.bind_eq_bind, Option.bind_some, hsl, he, Bool.or_false, Bool.false_eq_true, if_false,
    hc.base64Decode_encode, if_true, Option.isSome_some]

structure Clean (c : FileUrlCrates) (url : Url) : Prop where
  tidy : url.Tidy
  host_eq : url.host = none
  zero_not_mem : ∀ name ∈ url.names, 0 ∉ c.decodeBinary name
  slash_not_mem : ∀ name ∈ url.names, 47 ∉ c.decodeBinary name
  not_drive : url.names.head?.any isWindowsDriveUriSegment = false

lemma Clean.localNames (hc : c.Lawful) (h : Clean c url) :
    (PathUri.mk url).localNames c.toUrlCrates = some (url.names.map c.decodeBinary) := by
  have hr : decodeBadPathUri c.toUrlCrates url = none := hc.readable url h.host_eq h.zero_not_mem
  refine localNames_eq_some_iff.mpr ⟨?_, ?_, ?_, rfl⟩
  · unfold inferPathConvention opaqueFallbackBytes
    rw [hr]
    rw [if_neg (by simp [h.host_eq]), if_neg (by simp [h.not_drive])]
  · unfold isOpaque opaqueFallbackBytes
    rw [hr]
    rfl
  · unfold hasEncodedSeparator
    rw [any_eq_false]
    intro name hn
    rw [any_eq_true]
    rintro ⟨_, hb, hs⟩
    simp only [reduceCtorEq, decide_false, Bool.false_and, Bool.or_false, decide_eq_true_eq] at hs
    exact h.slash_not_mem name hn (hs ▸ hb)

lemma Clean.tryFrom_eq (hc : c.Lawful) (h : Clean c url) : tryFrom c.toUrlCrates url = .ok ⟨url⟩ := by
  have hp : (c.decodeBinary url.path).contains 0 = false := by
    rw [Bool.eq_false_iff, Ne, contains_iff_mem, zero_mem_decode_path hc]
    rintro ⟨name, hn, hm⟩
    exact h.zero_not_mem name hn hm
  rw [tryFrom_local h.host_eq, hp, upperDrive_of_head h.not_drive]
  rfl

lemma names_hasUri (hno : path.Normal) (hu : path.hasUri) (hna : url.names.map c.decodeBinary = path.key) :
    (∀ name ∈ url.names, 0 ∉ c.decodeBinary name) ∧ ∀ name ∈ url.names, 47 ∉ c.decodeBinary name := by
  have hb : ∀ name ∈ url.names, ∃ name' ∈ path.names, c.decodeBinary name = Text.asBytes name' := by
    intro name hn
    have hin : c.decodeBinary name ∈ path.key := hna ▸ mem_map_of_mem hn
    obtain ⟨name', hn', heq⟩ := mem_map.mp hin
    exact ⟨name', hn', heq.symm⟩
  unfold hasUri at hu
  rw [Bool.and_eq_true, all_eq_true] at hu
  constructor
  · intro name hn hm
    obtain ⟨name', hn', heq⟩ := hb name hn
    have := mem_of_mem_asBytes (heq ▸ hm) (by decide)
    exact absurd (hu.2 name' hn') (by simpa using this)
  intro name hn hm
  obtain ⟨name', hn', heq⟩ := hb name hn
  exact (hno name' hn').2.2.2 (mem_of_mem_asBytes (heq ▸ hm) (by decide))

lemma fromAbsPath_clean (hc : c.Lawful) (hn : path.Normal) (hu : path.hasUri) :
    ∃ url, fromAbsPath c path = ⟨url⟩ ∧ Clean c url ∧ url.names.map c.decodeBinary = path.key ∧
      c.toFilePath url = some path.toText := by
  obtain ⟨url, hf, ht, hh, hna, hd, hto⟩ := hc.fromFilePath_normal path hn
  obtain ⟨hz, hs⟩ := names_hasUri hn hu hna
  have hcl : Clean c url := by
    refine ⟨ht, hh, hz, hs, ?_⟩
    unfold hasUri at hu
    rw [Bool.and_eq_true] at hu
    rw [hd hu.2]
    simpa using hu.1
  refine ⟨url, ?_, hcl, hna, hto⟩
  unfold fromAbsPath
  rw [hf, Option.bind_some, hcl.tryFrom_eq hc]
  have hp := (localNames_eq_some_iff.mp (hcl.localNames hc)).1
  simp [Except.toOption, Option.filter, hh, hp]

lemma isOpaque_fromAbsPath (hc : c.Lawful) (hno : path.Normal) (hur : path.hasUri = false) :
    (fromAbsPath c path).isOpaque c.toUrlCrates := by
  have hf : (fromOpaquePathBytes c.toUrlCrates path.toText.asBytes).isOpaque c.toUrlCrates := by
    refine isOpaque_fromOpaquePathBytes hc fun hni => ?_
    have he : path.toText = [] := asBytes_injective hni
    simp [AbsolutePathBuf.toText] at he
  obtain ⟨url, hfr, ht, hh, hnam, hd, -⟩ := hc.fromFilePath_normal path hno
  unfold fromAbsPath
  rw [hfr, Option.bind_some, tryFrom_local hh]
  split
  · exact hf
  rename_i hv
  simp only [Except.toOption]
  by_cases hb : (decodeBadPathUri c.toUrlCrates url).isSome
  · rw [upperDrive_of_head (not_drive_of_badPath hh hb)]
    rcases filter_getD_eq (fun uri : PathUri => decide (uri.url.host ≠ some []) &&
        decide (uri.inferPathConvention c.toUrlCrates = some .posix)) ⟨url⟩
        (fromOpaquePathBytes c.toUrlCrates path.toText.asBytes) with heq | heq <;> rw [heq]
    · exact hb
    · exact hf
  have hnoz : ∀ name ∈ url.names, 0 ∉ c.decodeBinary name := by
    intro name hna hm
    refine hv ?_
    rw [Bool.and_eq_true, contains_iff_mem, zero_mem_decode_path hc]
    exact ⟨⟨name, hna, hm⟩, by simpa using hb⟩
  have hn : path.names.all (!·.contains '\x00') := by
    rw [all_eq_true]
    intro name hna
    have hin : Text.asBytes name ∈ url.names.map c.decodeBinary := hnam ▸ mem_map_of_mem hna
    obtain ⟨urlName, hun, heq⟩ := mem_map.mp hin
    have hz := hnoz urlName hun
    rw [heq] at hz
    simpa using fun hm => hz (mem_flatMap.mpr ⟨_, hm, by decide⟩)
  have hhd : url.names.head?.any isWindowsDriveUriSegment := by
    unfold hasUri at hur
    rw [hn, Bool.and_true] at hur
    rw [hd hn]
    simpa using hur
  have hw : (PathUri.mk { url with segments := upperDrive url.segments }).inferPathConvention
      c.toUrlCrates = some .windows := by
    have hu : Url.names { url with segments := upperDrive url.segments } |>.head?.any
        isWindowsDriveUriSegment := upperDrive_drive hhd
    have hp : decodeBadPathUri c.toUrlCrates { url with segments := upperDrive url.segments } = none := by
      rw [← Option.not_isSome_iff_eq_none]
      intro hs
      have := not_drive_of_badPath (show Url.host { url with segments := upperDrive url.segments } = none from hh) hs
      rw [hu] at this
      simp at this
    unfold inferPathConvention opaqueFallbackBytes
    rw [hp]
    rw [if_neg (by simp [hh]), if_pos hu]
  simp [Option.filter, hw, hf]

lemma localNames_fromAbsPath (hc : c.Lawful) (hn : path.Normal) :
    (fromAbsPath c path).localNames c.toUrlCrates = if path.hasUri then some path.key else none := by
  split
  · rename_i hu
    obtain ⟨url, heq, hcl, hna, -⟩ := fromAbsPath_clean hc hn hu
    rw [heq, hcl.localNames hc, hna]
  · rename_i hu
    exact localNames_of_isOpaque (isOpaque_fromAbsPath hc hn (by simpa using hu))

/-! ## Back to the path -/

lemma toAbsPath_fromAbsPath (hc : c.Lawful) (host : Host) (hn : path.Normal) (hu : path.hasUri) :
    toAbsPath c host (fromAbsPath c path) = some path := by
  obtain ⟨url, heq, hcl, -, hto⟩ := fromAbsPath_clean hc hn hu
  obtain ⟨hp, hpl, -, -⟩ := localNames_eq_some_iff.mp (hcl.localNames hc)
  unfold toAbsPath
  rw [heq, if_neg (by simp [hp]), show (PathUri.mk url).opaqueFallbackBytes c.toUrlCrates = none by
    simpa [isOpaque] using hpl]
  rw [hto, Option.bind_some, fromAbsolutePathChecked_toText hn]

lemma toAbsPath_normal (h : toAbsPath c host uri = some path) : path.Normal := by
  unfold toAbsPath at h
  split at h
  · simp at h
  split at h
  · exact fromAbsolutePathChecked_normal (Option.filter_eq_some_iff.mp h).1
  · obtain ⟨_, -, ht⟩ := Option.bind_eq_some_iff.mp h
    exact fromAbsolutePathChecked_normal ht

lemma fromAbsPath_toAbsPath_of_opaque_uri (hop : uri.isOpaque c.toUrlCrates)
    (h : toAbsPath c host uri = some path) : (fromAbsPath c path).isOpaque c.toUrlCrates := by
  unfold toAbsPath at h
  split at h
  · simp at h
  split at h
  · rcases eq_cases (Option.filter_eq_some_iff.mp h).2 with heq | ⟨-, -, -, -, -, hp, -⟩
    · rw [heq]
      exact hop
    · rw [hop] at hp
      simp at hp
  rename_i hn
  unfold isOpaque at hop
  rw [hn] at hop
  simp at hop

/-! ## Parents and children -/

lemma Clean.pop (hc : c.Lawful) (h : Clean c url) : Clean c (c.pop (c.popIfEmpty url)) := by
  obtain ⟨ht, hh, hn⟩ := hc.pop_tidy url h.tidy
  refine ⟨ht, hh.trans h.host_eq, ?_, ?_, ?_⟩
  · rw [hn]
    exact fun name hna => h.zero_not_mem name (mem_of_mem_dropLast hna)
  · rw [hn]
    exact fun name hna => h.slash_not_mem name (mem_of_mem_dropLast hna)
  · rw [hn]
    have hd := h.not_drive
    rcases hl : url.names with _ | ⟨first, rest⟩
    · rfl
    rw [hl] at hd
    cases rest with
    | nil => rfl
    | cons => exact hd

lemma Clean.parent_eq (hc : c.Lawful) (h : Clean c url) : (PathUri.mk url).parent c.toUrlCrates =
    if url.names = [] then none else some ⟨c.pop (c.popIfEmpty url)⟩ := by
  obtain ⟨hp, hpl, -, -⟩ := localNames_eq_some_iff.mp (h.localNames hc)
  unfold parent
  rw [hpl, hp]
  simp only [Option.bind_eq_bind, Option.bind_some, anchorDepth, Nat.le_zero, length_eq_zero_iff]
  rfl

lemma Clean.last_ancestor (hc : c.Lawful) (h : Clean c url) :
    ∃ root, ((PathUri.mk url).ancestors c.toUrlCrates).getLast? = some ⟨root⟩ ∧ Clean c root ∧ root.names = [] := by
  suffices hb : ∀ bound (url : Url), Clean c url → url.names.length ≤ bound →
      ∃ root, (successors c.toUrlCrates bound ⟨url⟩).getLast? = some ⟨root⟩ ∧ Clean c root ∧ root.names = [] by
    exact hb _ url h (length_filter_le _ _)
  intro bound
  induction bound with
  | zero =>
    intro url h hl
    exact ⟨url, rfl, h, length_eq_zero_iff.mp (Nat.le_zero.mp hl)⟩
  | succ bound ih => ?_
  intro url h hl
  unfold successors
  rw [h.parent_eq hc]
  by_cases hn : url.names = []
  · rw [if_pos hn]
    exact ⟨url, rfl, h, hn⟩
  have hles : (c.pop (c.popIfEmpty url)).names.length ≤ bound := by
    rw [(hc.pop_tidy url h.tidy).2.2, length_dropLast]
    omega
  obtain ⟨root, hla, hr⟩ := ih _ (h.pop hc) hles
  refine ⟨root, ?_, hr⟩
  rw [if_neg hn, Option.elim_some, getLast?_cons_of_ne_nil, hla]
  intro he
  rw [he] at hla
  simp at hla

def PlainName (name : Text) : Prop :=
  AbsolutePathBuf.NormalName name ∧ name.all (fun ch => ch.isAlpha || ch = '.') = true

lemma PlainName.bytes (h : PlainName name) (hb : b.toNat < 128)
    (hn : ((Char.ofNat b.toNat).isAlpha || Char.ofNat b.toNat = '.') = false) : b ∉ name.asBytes := by
  intro hm
  have := all_eq_true.mp h.2 _ (mem_of_mem_asBytes hm hb)
  rw [hn] at this
  simp at this

lemma PlainName.not_drive (h : PlainName name) : isWindowsDriveUriSegment name = false := by
  have hn : ∀ ch ∈ name, (ch.isAlpha || decide (ch = '.')) := all_eq_true.mp h.2
  unfold isWindowsDriveUriSegment
  split
  · exact absurd (hn ':' (by simp)) (by decide)
  · exact absurd (hn '%' (by simp)) (by decide)
  · exact absurd (hn '%' (by simp)) (by decide)
  · rfl

lemma Clean.push (hc : c.Lawful) (h : Clean c url) (hn : PlainName name) :
    Clean c (c.push (c.popIfEmpty url) name) ∧ (c.push (c.popIfEmpty url) name).names = url.names ++ [name] := by
  obtain ⟨ht, hh, hna⟩ := hc.push_plain url name h.tidy hn.1.1 hn.2
  refine ⟨⟨ht, hh.trans h.host_eq, ?_, ?_, ?_⟩, hna⟩
  · rw [hna]
    intro other ho
    rcases mem_append.mp ho with hin | hin
    · exact h.zero_not_mem other hin
    obtain rfl := mem_singleton.mp hin
    rw [hc.decode_plain _ hn.2]
    exact hn.bytes (by decide) (by decide)
  · rw [hna]
    intro other ho
    rcases mem_append.mp ho with hin | hin
    · exact h.slash_not_mem other hin
    obtain rfl := mem_singleton.mp hin
    rw [hc.decode_plain _ hn.2]
    exact hn.bytes (by decide) (by decide)
  · rw [hna]
    have hd := h.not_drive
    cases hl : url.names with
    | nil => simpa using hn.not_drive
    | cons => simpa [hl] using hd

lemma Clean.joinDescendant_eq (hc : c.Lawful) (h : Clean c url) (hn : PlainName name) :
    (PathUri.mk url).joinDescendant c.toUrlCrates name = .ok ⟨c.push (c.popIfEmpty url) name⟩ := by
  obtain ⟨hcl, hna⟩ := h.push hc hn
  obtain ⟨hp, hpl, -, -⟩ := localNames_eq_some_iff.mp (h.localNames hc)
  have hh : name.head? ≠ some '/' := fun hh => hn.1.2.2.2 (mem_of_mem_head? hh)
  have hnu : name.contains '\x00' = false := by
    rw [Bool.eq_false_iff, Ne, contains_iff_mem]
    intro hm
    exact absurd (all_eq_true.mp hn.2 _ hm) (by decide)
  have he : name.isEmpty = false := by simpa using hn.1.1
  have ha : fromAbsoluteNativePath c.toUrlCrates name .posix = none := by
    unfold fromAbsoluteNativePath parsePosixPath
    simp only [stripPrefix_of_head (p := ['/']) rfl hh, Option.bind_eq_bind, Option.bind_none]
  have hco : (name.splitOn '/').foldl (joinComponent c.toUrlCrates 0)
      (c.popIfEmpty url, url.names.length) = (c.push (c.popIfEmpty url) name, url.names.length + 1) := by
    rw [splitOn_eq_singleton hn.1.2.2.2, foldl_cons, foldl_nil]
    unfold joinComponent
    rw [if_neg (by simp [hn.1.1, hn.1.2.1]), if_neg hn.1.2.2.1]
  have hj : (PathUri.mk url).join c.toUrlCrates name = .ok ⟨c.push (c.popIfEmpty url) name⟩ := by
    unfold join
    rw [hnu, he, hp]
    simp only [ha]
    unfold joinRelative
    simp only [hpl]
    show tryFrom c.toUrlCrates ((name.splitOn '/').foldl (joinComponent c.toUrlCrates 0)
      (c.popIfEmpty url, url.names.length)).1 = _
    rw [hco]
    exact hcl.tryFrom_eq hc
  have hb : (PathUri.mk (c.push (c.popIfEmpty url) name)).startsWith c.toUrlCrates ⟨url⟩ := by
    rw [startsWith_iff_names (hcl.localNames hc) (h.localNames hc), hna, map_append]
    exact prefix_append _ _
  unfold joinDescendant
  rw [hj]
  simp only [hh, hp, hb, bind, Except.bind, Bool.not_true]
  rfl

end PathUri

/-! ## Plain paths -/

def swapNull (ch : Char) : Char := if ch = '%' then '\x00' else if ch = '\x00' then '%' else ch

/-- The crates with an encoding that takes the null character for `%` and `%` for it. -/
def FileUrlCrates.plain : FileUrlCrates where
  push := UrlCrates.plain.push
  pop := UrlCrates.plain.pop
  popIfEmpty := UrlCrates.plain.popIfEmpty
  clear := UrlCrates.plain.clear
  setHost := UrlCrates.plain.setHost
  decodeBinary s := Text.asBytes (s.map swapNull)
  decode s := some (s.map swapNull)
  base64Encode bytes := bytes.map fun b => .ofNat (b.toNat + 256)
  base64Decode s := some (s.map fun ch => .ofNat (ch.toNat - 256))
  fromFilePath path :=
    some { host := none, segments := if path.names = [] then [[]] else path.names.map (·.map swapNull) }
  toFilePath url := some ('/' :: intercalate ['/'] (url.names.map (·.map swapNull)))

lemma swapNull_swapNull (ch : Char) : swapNull (swapNull ch) = ch := by
  unfold swapNull
  split
  · rename_i h
    rw [if_neg (by decide), if_pos rfl, h]
  split
  · rename_i h'
    rw [if_pos rfl, h']
  · rfl

lemma swapNull_of_plain (h : ch ≠ '%') (h' : ch ≠ '\x00') : swapNull ch = ch := by
  unfold swapNull
  rw [if_neg h, if_neg h']

lemma map_swapNull_swapNull (s : Text) : (s.map swapNull).map swapNull = s := by
  rw [map_map, map_id'']
  exact swapNull_swapNull

lemma swapNull_toLower (ch : Char) : (swapNull ch).toLower = swapNull ch.toLower := by
  have hl : ∀ d : Char, d = '%' ∨ d = '\x00' → (ch.toLower = d ↔ ch = d) := by
    intro d hd
    by_cases hu : ch.val ≥ 'A'.val ∧ ch.val ≤ 'Z'.val
    · have ha : ∀ n < 128, 65 ≤ n ∧ n ≤ 90 → (Char.ofNat n).toLower ≠ '%' ∧ (Char.ofNat n).toLower ≠ '\x00' ∧
        Char.ofNat n ≠ '%' ∧ Char.ofNat n ≠ '\x00' := by decide
      have h₁ := UInt32.le_iff_toNat_le.mp hu.1
      have h₂ := UInt32.le_iff_toNat_le.mp hu.2
      have hr : 65 ≤ ch.toNat ∧ ch.toNat ≤ 90 := ⟨h₁, h₂⟩
      have := ha ch.toNat (by omega) hr
      rw [Char.ofNat_toNat] at this
      rcases hd with rfl | rfl <;> simp [this]
    have : ch.toLower = ch := by
      unfold Char.toLower
      rw [dif_neg hu]
    rw [this]
  unfold swapNull
  simp only [hl '%' (.inl rfl), hl '\x00' (.inr rfl)]
  by_cases h : ch = '%'
  · simp [h]
  · by_cases h' : ch = '\x00' <;> simp [h, h']

lemma toNat_ofNat (h : n < 0xD800) : (Char.ofNat n).toNat = n := by
  unfold Char.ofNat
  rw [dif_pos (.inl h)]
  rfl

lemma decode_plain_lower {s t : Text} (h : s.eqIgnoreAsciiCase t) :
    Text.eqIgnoreAsciiCase (s.map swapNull) (t.map swapNull) := by
  rw [Text.eqIgnoreAsciiCase_iff] at h ⊢
  have hs : ∀ s : Text, (s.map swapNull).map Char.toLower = (s.map Char.toLower).map swapNull := by
    intro s
    rw [map_map, map_map]
    exact map_congr_left fun ch _ => swapNull_toLower ch
  rw [hs, hs, h]

variable {name : Text}

lemma map_swapNull_plain (h : name.all (fun ch => ch.isAlpha || ch = '.')) :
    name.map swapNull = name := by
  have ha := all_eq_true.mp h
  rw [map_congr_left (g := id) fun ch hch => ?_, map_id]
  refine swapNull_of_plain ?_ ?_ <;> rintro rfl <;> exact absurd (ha _ hch) (by decide)

lemma names_of_full {url : Url} (h : [] ∉ url.segments) : url.names = url.segments := by
  unfold Url.names
  rw [filter_eq_self]
  intro segment hs
  cases segment with
  | nil => exact absurd hs h
  | cons => rfl

lemma names_plain_fromFilePath {path : AbsolutePathBuf} (h : path.Normal) {segments : List Text}
    (hs : segments = if path.names = [] then [[]] else path.names.map (·.map swapNull)) :
    segments.filter (!·.isEmpty) = path.names.map (·.map swapNull) := by
  subst hs
  split
  · rename_i hni
    rw [hni]
    rfl
  rw [filter_eq_self]
  intro segment hse
  obtain ⟨name, hn, rfl⟩ := mem_map.mp hse
  simpa using (h name hn).1

lemma isWindowsDriveUriSegment_swapNull (h : '\x00' ∉ name) :
    isWindowsDriveUriSegment (name.map swapNull) = AbsolutePathBuf.isDriveName name := by
  have hp : '%' ∉ name.map swapNull := by
    intro hm
    obtain ⟨ch, hch, heq⟩ := mem_map.mp hm
    have hch' : ch = '\x00' := by rw [← swapNull_swapNull ch, heq]; rfl
    exact h (hch' ▸ hch)
  have ha : ∀ ch, (swapNull ch).isAlpha = ch.isAlpha := by
    intro ch
    unfold swapNull
    split
    · rename_i heq
      rw [heq]
      rfl
    split
    · rename_i heq
      rw [heq]
      rfl
    · rfl
  unfold AbsolutePathBuf.isDriveName
  split
  · exact ha _
  rename_i hno
  unfold isWindowsDriveUriSegment
  split
  · rename_i drive heq
    have hn : name = [swapNull drive, ':'] := by
      rw [← map_swapNull_swapNull name, heq]
      rfl
    exact absurd hn (hno _)
  · rename_i heq
    exact absurd (heq ▸ (by simp)) hp
  · rename_i heq
    exact absurd (heq ▸ (by simp)) hp
  · rfl

lemma FileUrlCrates.plain_lawful : FileUrlCrates.plain.Lawful where
  decodeBinary_slash s t := by
    show Text.asBytes ((s ++ '/' :: t).map swapNull) = Text.asBytes (s.map swapNull) ++ 47 ::
      Text.asBytes (t.map swapNull)
    unfold Text.asBytes
    rw [map_append, map_cons, flatMap_append, flatMap_cons]
    rfl
  decodeBinary_eq_nil s := by
    constructor
    · exact fun h => map_eq_nil_iff.mp (asBytes_injective (h.trans rfl))
    · rintro rfl
      rfl
  decode_ignoreCase _ _ h := decode_plain_lower h
  decode_of_bytes s t _ h := by
    rw [Text.eqIgnoreAsciiCase_iff]
    apply asBytes_injective
    rw [asBytes_toLower, asBytes_toLower]
    exact h
  readable url hh hz := by
    rw [← Option.not_isSome_iff_eq_none]
    intro hbad
    obtain ⟨_, hhe⟩ := PathUri.head_of_badPath hh hbad
    refine hz _ (mem_of_mem_head? hhe) (mem_flatMap.mpr ⟨'\x00', ?_, by decide⟩)
    exact mem_map.mpr ⟨'%', by simp, rfl⟩
  base64Decode_encode bytes := by
    show some ((bytes.map fun b => Char.ofNat (b.toNat + 256)).map fun ch => UInt8.ofNat (ch.toNat - 256)) = _
    rw [map_map, map_congr_left (g := id) fun b _ => ?_, map_id]
    have hlt := b.toNat_lt
    show UInt8.ofNat ((Char.ofNat (b.toNat + 256)).toNat - 256) = b
    rw [toNat_ofNat (by omega), Nat.add_sub_cancel, UInt8.ofNat_toNat]
  slash_not_mem_base64 bytes := by
    intro hm
    obtain ⟨b, -, hb⟩ := mem_map.mp hm
    have hlt := b.toNat_lt
    have := congrArg Char.toNat hb
    rw [toNat_ofNat (by omega)] at this
    have hsl : '/'.toNat = 47 := rfl
    omega
  base64_ne_nil bytes h hni := h (map_eq_nil_iff.mp hni)
  pop_tidy url ht := by
    rw [FileUrlCrates.plain, UrlCrates.plain]
    rcases ht with hr | hf
    · refine ⟨.inl ?_, rfl, ?_⟩ <;> simp [hr, Url.names]
    have hl : url.segments.getLast? ≠ some [] := fun hl => hf (mem_of_mem_getLast? hl)
    have hn := names_of_full hf
    simp only [hl, and_false, if_false]
    by_cases hs : url.segments.length ≤ 1
    · simp only [hs]
      refine ⟨.inl rfl, trivial, ?_⟩
      rw [hn]
      have hni : url.segments.dropLast = [] := by
        rw [← length_eq_zero_iff, length_dropLast]
        omega
      rw [hni]
      rfl
    simp only [hs]
    have hf' : [] ∉ url.segments.dropLast := fun hm => hf (mem_of_mem_dropLast hm)
    exact ⟨.inr hf', trivial, by rw [hn]; exact @names_of_full ⟨_, _⟩ hf'⟩
  push_plain url name ht hne _ := by
    rw [FileUrlCrates.plain, UrlCrates.plain]
    rcases ht with hr | hf
    · refine ⟨.inr ?_, rfl, ?_⟩ <;> simp [hr, Url.names, hne]
    have hl : url.segments.getLast? ≠ some [] := fun hl => hf (mem_of_mem_getLast? hl)
    have hr : url.segments ≠ [[]] := by
      rintro heq
      exact hf (heq ▸ mem_singleton.mpr rfl)
    have hf' : [] ∉ url.segments ++ [name] := by simp [hf, hne.symm]
    simp only [hl, and_false, if_false, hr]
    exact ⟨.inr hf', trivial, by rw [names_of_full hf]; exact @names_of_full ⟨_, _⟩ hf'⟩
  decode_plain name hna := by
    show Text.asBytes (name.map swapNull) = name.asBytes
    rw [map_swapNull_plain hna]
  fromFilePath_normal path h := by
    have hn : Url.names ⟨none, if path.names = [] then [[]] else path.names.map (·.map swapNull)⟩ =
        path.names.map (·.map swapNull) := names_plain_fromFilePath h rfl
    refine ⟨_, rfl, ?_, rfl, ?_, ?_, ?_⟩
    · unfold Url.Tidy
      split
      · exact .inl rfl
      refine .inr fun hm => ?_
      obtain ⟨name, hna, hni⟩ := mem_map.mp hm
      exact (h name hna).1 (map_eq_nil_iff.mp hni)
    · rw [hn, map_map]
      exact map_congr_left fun name _ => congrArg Text.asBytes (map_swapNull_swapNull name)
    · intro hnu
      rw [hn]
      rcases hli : path.names with _ | ⟨name, names⟩
      · rfl
      have hna : '\x00' ∉ name := by
        have := all_eq_true.mp hnu name (by simp [hli])
        simpa using this
      exact isWindowsDriveUriSegment_swapNull hna
    · show some ('/' :: intercalate ['/'] (map (·.map swapNull) (Url.names _))) = _
      have hba : (path.names.map (·.map swapNull)).map (·.map swapNull) = path.names := by
        rw [map_map]
        exact map_id'' map_swapNull_swapNull path.names
      rw [hn, hba]
      rfl

end Codex
