import Codex.Text

/-! # File URIs: `PathUri` of `utils/path-uri/src/lib.rs`, over the `url`, `urlencoding` and `base64` crates -/

namespace Codex

open Codex.Text

inductive PathConvention where
  | posix
  | windows
deriving DecidableEq

/-- A `file:` URL without credentials, port, query and fragment. Its path is `/` and the segments. -/
structure Url where
  host : Option Text
  segments : List Text
deriving DecidableEq

namespace Url

def path (url : Url) : Text := '/' :: List.intercalate ['/'] url.segments

def asStr (url : Url) : Text := "file://".toList ++ url.host.getD [] ++ url.path

def root : Url := { host := none, segments := [[]] }

def names (url : Url) : List Text := url.segments.filter (!·.isEmpty)

end Url

/-- `push`, `pop`, `popIfEmpty` and `clear` are those of `path_segments_mut`, `decodeBinary` and `decode` those
of `urlencoding`, and `base64` is `URL_SAFE_NO_PAD`. -/
structure UrlCrates where
  push : Url → Text → Url
  pop : Url → Url
  popIfEmpty : Url → Url
  clear : Url → Url
  setHost : Url → Text → Option Url
  decodeBinary : Text → List UInt8
  decode : Text → Option Text
  base64Encode : List UInt8 → Text
  base64Decode : Text → Option (List UInt8)

/-! ## Text and bytes -/

namespace Text

def asBytes (s : Text) : List UInt8 := s.flatMap String.utf8EncodeChar

/-- `str::encode_utf16` as little-endian bytes. -/
def utf16LeBytes (s : Text) : List UInt8 :=
  let unit (n : Nat) : List UInt8 := [.ofNat (n % 256), .ofNat (n / 256)]
  s.flatMap fun c =>
    if c.toNat < 0x10000 then unit c.toNat
    else unit (0xD800 + (c.toNat - 0x10000) / 0x400) ++ unit (0xDC00 + (c.toNat - 0x10000) % 0x400)

def eqIgnoreAsciiCase (s t : Text) : Bool := s.map Char.toLower = t.map Char.toLower

end Text

def toAsciiLowercase (b : UInt8) : UInt8 := if 65 ≤ b ∧ b ≤ 90 then b + 32 else b

/-- The UTF-16LE code units of bytes, an odd byte at the end left off. -/
def wideUnits : List UInt8 → List Nat
  | low :: high :: bytes => (low.toNat + 256 * high.toNat) :: wideUnits bytes
  | _ => []

def isWindowsSeparatorChar (c : Char) : Bool := c = '\\' || c = '/'

def isWindowsSeparatorUnit (n : Nat) : Bool := n = 92 || n = 47

def isAsciiAlphabeticUnit (n : Nat) : Bool := (65 ≤ n && n ≤ 90) || (97 ≤ n && n ≤ 122)

inductive PathUriParseError where
  | invalidFileUriPath (path : Text)
  | joinPathMustBeDescendant (path : Text)
deriving DecidableEq

structure PathUri where
  url : Url
deriving DecidableEq

/-! ## Shapes of URLs -/

def badPathUriPrefix : Text := "file:///%00/bad/path/"

section

variable (c : UrlCrates)

def decodeBadPathUri (url : Url) : Option (List UInt8) := do
  let encodedPath ← stripPrefix badPathUriPrefix url.asStr
  if encodedPath.isEmpty || encodedPath.contains '/' then none
  else
    let pathBytes ← c.base64Decode encodedPath
    if c.base64Encode pathBytes = encodedPath then some pathBytes else none

def isWindowsDriveUriSegment : Text → Bool
  | [drive, ':'] => drive.isAlpha
  | [drive, '%', '3', 'A'] => drive.isAlpha
  | [drive, '%', '3', 'a'] => drive.isAlpha
  | _ => false

def hasEncodedSeparator (convention : PathConvention) (segments : List Text) : Bool :=
  segments.any fun segment => (c.decodeBinary segment).any fun byte =>
    byte = 47 || (convention = .windows && byte = 92)

def containmentPathSegments (url : Url) (convention : PathConvention) : Option (List Text) :=
  if hasEncodedSeparator c convention url.names then none else some url.names

def decodeUriPath (path : Text) : Text := (c.decode path).getD path

def nativePathSegmentsStartWith (pathSegments baseSegments : List Text) : PathConvention → Bool
  | .posix => baseSegments.length ≤ pathSegments.length &&
      (pathSegments.zip baseSegments).all fun (path, base) => c.decodeBinary path = c.decodeBinary base
  | .windows => baseSegments.length ≤ pathSegments.length &&
      (pathSegments.zip baseSegments).all fun (path, base) =>
        path.eqIgnoreAsciiCase base || (decodeUriPath c path).eqIgnoreAsciiCase (decodeUriPath c base)

def inferOpaquePathConvention (pathBytes : List UInt8) : Option PathConvention :=
  -- A UTF-16LE slash starts with `/` and a null byte, unlike a POSIX root.
  if pathBytes.head? = some 47 ∧ pathBytes.take 2 ≠ [47, 0] then some .posix
  else if pathBytes.length % 2 ≠ 0 then none
  else match wideUnits pathBytes with
    | first :: second :: _ =>
      if (isAsciiAlphabeticUnit first && second = 58) ||
          (isWindowsSeparatorUnit first && isWindowsSeparatorUnit second) then some .windows else none
    | _ => none

/-! ## Validation -/

def validateFileUrl (url : Url) : Except PathUriParseError Unit :=
  if (c.decodeBinary url.path).contains 0 && (decodeBadPathUri c url).isNone then
    .error (.invalidFileUriPath url.asStr)
  else .ok ()

end

def withoutLocalhostAuthority (url : Url) : Url :=
  if url.host = some "localhost".toList then { url with host := none } else url

def upperDrive : List Text → List Text
  | [] => []
  | [] :: segments => [] :: upperDrive segments
  | (letter :: rest) :: segments =>
    if isWindowsDriveUriSegment (letter :: rest) then (letter.toUpper :: rest) :: segments
    else (letter :: rest) :: segments

def withNormalizedWindowsDriveLetter (url : Url) : Url :=
  if url.host.isSome then url else { url with segments := upperDrive url.segments }

namespace PathUri

section

variable (c : UrlCrates)

def tryFrom (url : Url) : Except PathUriParseError PathUri := do
  validateFileUrl c url
  return ⟨withNormalizedWindowsDriveLetter (withoutLocalhostAuthority url)⟩

section

variable (uri : PathUri)

def toText : Text := uri.url.asStr

/-! ## Inspection -/

def opaqueFallbackBytes : Option (List UInt8) := decodeBadPathUri c uri.url

def isOpaque : Bool := (uri.opaqueFallbackBytes c).isSome

def inferPathConvention : Option PathConvention :=
  match uri.opaqueFallbackBytes c with
  | some pathBytes => inferOpaquePathConvention pathBytes
  | none =>
    if uri.url.host.isSome then some .windows
    else if uri.url.names.head?.any isWindowsDriveUriSegment then some .windows
    else some .posix

def windowsIdentityPathBytes : Option (List UInt8) :=
  if uri.inferPathConvention c ≠ some .windows ∨ uri.isOpaque c ∨
      hasEncodedSeparator c .windows uri.url.segments then none
  else some (c.decodeBinary uri.url.path)

def eq (uri other : PathUri) : Bool :=
  uri.url = other.url ||
    match uri.windowsIdentityPathBytes c, other.windowsIdentityPathBytes c with
    | some path, some otherPath =>
      uri.url.host = other.url.host && path.map toAsciiLowercase = otherPath.map toAsciiLowercase
    | _, _ => false

inductive Identity where
  | url (url : Url)
  | windows (host : Option Text) (path : List UInt8)
deriving DecidableEq

def identity : Identity :=
  match uri.windowsIdentityPathBytes c with
  | none => .url uri.url
  | some path => .windows uri.url.host (path.map toAsciiLowercase)

end

end

variable {c : UrlCrates} {uri : PathUri}

section

variable (c : UrlCrates)

section

variable (uri : PathUri)

def basename : Option Text :=
  if uri.isOpaque c then none else uri.url.names.getLast?.map (decodeUriPath c)

def lexicalDepth : Option Nat := do
  if uri.isOpaque c then none
  else
    let convention ← uri.inferPathConvention c
    return (← containmentPathSegments c uri.url convention).length

/-- A drive root and a share root keep one segment. -/
def anchorDepth : PathConvention → Nat
  | .posix => 0
  | .windows => 1

def parent : Option PathUri := do
  if uri.isOpaque c then none
  else
    let convention ← uri.inferPathConvention c
    if uri.url.names.length ≤ anchorDepth convention then none
    else return ⟨c.pop (c.popIfEmpty uri.url)⟩

def successors (c : UrlCrates) : Nat → PathUri → List PathUri
  | 0, uri => [uri]
  | bound + 1, uri => uri :: (uri.parent c).elim [] (successors c bound)

def ancestors : List PathUri := successors c uri.url.segments.length uri

def startsWith (uri base : PathUri) : Bool :=
  uri.eq c base ||
    (!uri.isOpaque c && !base.isOpaque c && decide (uri.url.host = base.url.host) &&
      decide (uri.inferPathConvention c = base.inferPathConvention c) &&
      let convention := (uri.inferPathConvention c).getD .posix
      match containmentPathSegments c uri.url convention, containmentPathSegments c base.url convention with
      | some pathSegments, some baseSegments =>
        nativePathSegmentsStartWith c pathSegments baseSegments convention
      | _, _ => false)

def relativePathFrom (uri base : PathUri) : Option Text :=
  if uri.eq c base then some []
  else if uri.isOpaque c ∨ base.isOpaque c ∨ uri.url.host ≠ base.url.host ∨
      uri.inferPathConvention c ≠ base.inferPathConvention c then none
  else do
    let convention ← uri.inferPathConvention c
    let pathSegments ← containmentPathSegments c uri.url convention
    let baseSegments ← containmentPathSegments c base.url convention
    if nativePathSegmentsStartWith c pathSegments baseSegments convention then
      let separator := match convention with
        | .posix => ['/']
        | .windows => ['\\']
      return List.intercalate separator ((pathSegments.drop baseSegments.length).map (decodeUriPath c))
    else none

/-! ## Native paths -/

/-- The URI of a path without a URI of its own: `file:///%00/bad/path/` and the encoded bytes. -/
def fromOpaquePathBytes (pathBytes : List UInt8) : PathUri :=
  ⟨{ host := none, segments := ["%00".toList, "bad".toList, "path".toList, c.base64Encode pathBytes] }⟩

section

variable (path : Text)

def windowsOpaquePathUri : PathUri := fromOpaquePathBytes c path.utf16LeBytes

structure Normalized where
  segments : List Text := []
  hasTrailingSeparator : Bool := false

def Normalized.add (anchor : Nat) (n : Normalized) (segment : Text) : Normalized :=
  if segment = [] then { n with hasTrailingSeparator := true }
  else if segment = ['.'] then { n with hasTrailingSeparator := false }
  else if segment = ['.', '.'] then
    { segments := if n.segments.length > anchor then n.segments.dropLast else n.segments
      hasTrailingSeparator := false }
  else { segments := n.segments ++ [segment], hasTrailingSeparator := false }

def pathUriFromSegments (convention : PathConvention) (host : Option Text)
    (segments : List Text) : Option PathUri := do
  let url ← match host with
    | none => some Url.root
    | some host => c.setHost Url.root host
  let n := segments.foldl (Normalized.add (anchorDepth convention)) {}
  let segments :=
    if n.hasTrailingSeparator ∨
        (convention = .windows ∧ host.isNone ∧ n.segments.length = anchorDepth convention) then
      n.segments ++ [[]]
    else n.segments
  (tryFrom c (segments.foldl c.push (c.clear url))).toOption

def parsePosixPath : Option PathUri := do
  let rest ← stripPrefix ['/'] path
  if rest.contains '\x00' then some (fromOpaquePathBytes c path.asBytes)
  else pathUriFromSegments c .posix none (rest.splitOn '/')

def isWindowsDriveAbsolutePath : Text → Bool
  | drive :: ':' :: separator :: _ => drive.isAlpha && isWindowsSeparatorChar separator
  | _ => false

def normalizeWindowsDevicePath : Option Text :=
  let drive (devicePrefix : Text) := (stripPrefix devicePrefix path).filter isWindowsDriveAbsolutePath
  ((stripPrefix "\\\\?\\UNC\\" path).map ("\\\\".toList ++ ·)).or <|
    ((stripPrefix "\\\\.\\UNC\\" path).map ("\\\\".toList ++ ·)).or <|
    (drive "\\\\?\\").or (drive "\\\\.\\")

/-- `\\?\` or `\\.\` at the start, with either separator. -/
def usesNamespace : Text → Bool
  | first :: second :: kind :: separator :: _ =>
    isWindowsSeparatorChar first && isWindowsSeparatorChar second && (kind = '.' || kind = '?') &&
      isWindowsSeparatorChar separator
  | _ => false

def isDots (name : Text) : Bool := name = ['.'] || name = ['.', '.']

def parseUncPath (path rest : Text) : Option PathUri :=
  match rest.splitOnP isWindowsSeparatorChar with
  | host :: share :: components =>
    if host.isEmpty || share.isEmpty then none
    else if isDots host || isDots share then some (windowsOpaquePathUri c path)
    else
      ((pathUriFromSegments c .windows (some host) (share :: components)).filter fun uri =>
        uri.url.host.any (·.eqIgnoreAsciiCase host)).or (some (windowsOpaquePathUri c path))
  | _ => none

def parseUnnormalizedWindowsPath : Option PathUri :=
  if usesNamespace path || path.contains '\x00' then some (windowsOpaquePathUri c path)
  else if isWindowsDriveAbsolutePath path then
    pathUriFromSegments c .windows none (path.take 2 :: (path.drop 3).splitOnP isWindowsSeparatorChar)
  else match path with
    | first :: second :: rest =>
      if isWindowsSeparatorChar first && isWindowsSeparatorChar second then parseUncPath c path rest else none
    | _ => none

def hasUncNames (uncPath : Text) : Bool :=
  match uncPath.splitOnP isWindowsSeparatorChar with
  | host :: share :: _ => !(host.isEmpty || isDots host || share.isEmpty || isDots share)
  | _ => false

def parseWindowsPath : Option PathUri :=
  match normalizeWindowsDevicePath path with
  | none => parseUnnormalizedWindowsPath c path
  | some normalizedPath =>
    let unc := stripPrefix "\\\\" normalizedPath
    if unc.any (!hasUncNames ·) then some (windowsOpaquePathUri c path)
    else
      some <| ((parseUnnormalizedWindowsPath c normalizedPath).filter fun uri =>
        uri.inferPathConvention c = some .windows && !uri.isOpaque c &&
          (unc.isNone || uri.url.host.any (!·.isEmpty))).getD (windowsOpaquePathUri c path)

def fromAbsoluteNativePath (convention : PathConvention) : Option PathUri := do
  let uri ← match convention with
    | .posix => parsePosixPath c path
    | .windows => parseWindowsPath c path
  if uri.url.host ≠ some [] ∧ uri.inferPathConvention c = some convention then return uri
  else match convention with
    | .posix => return fromOpaquePathBytes c path.asBytes
    | .windows => return windowsOpaquePathUri c path

/-! ## Joining -/

def joinComponent (anchor : Nat) (place : Url × Nat) (component : Text) : Url × Nat :=
  if component = [] ∨ component = ['.'] then place
  else if component = ['.', '.'] then
    if place.2 > anchor then (c.pop place.1, place.2 - 1) else place
  else (c.push place.1 component, place.2 + 1)

def stripSameDrive : Text → Except PathUriParseError Text
  | drive :: ':' :: rest =>
    if drive.isAlpha then
      if uri.url.names.head?.any fun segment => isWindowsDriveUriSegment segment &&
          segment.head?.any fun letter => letter.toLower = drive.toLower then .ok rest
      else .error (.invalidFileUriPath (drive :: ':' :: rest))
    else .ok (drive :: ':' :: rest)
  | path => .ok path

def isWindowsRootRelative : Text → Bool
  | first :: second :: _ => isWindowsSeparatorChar first && !isWindowsSeparatorChar second
  | [first] => isWindowsSeparatorChar first
  | [] => false

def joinRelative (convention : PathConvention) (path : Text) : Except PathUriParseError PathUri :=
  let anchor := anchorDepth convention
  let depth := uri.url.names.length
  let url := c.popIfEmpty uri.url
  let start :=
    if convention = .windows ∧ isWindowsRootRelative path then (c.pop^[depth - anchor] url, min depth anchor)
    else (url, depth)
  let components := match convention with
    | .posix => path.splitOn '/'
    | .windows => path.splitOnP isWindowsSeparatorChar
  tryFrom c (components.foldl (joinComponent c anchor) start).1

def join : Except PathUriParseError PathUri :=
  if path.contains '\x00' then .error (.invalidFileUriPath path)
  else if path.isEmpty then .ok uri
  else match uri.inferPathConvention c with
    | none => .error (.invalidFileUriPath uri.toText)
    | some convention =>
      match fromAbsoluteNativePath c path convention with
      | some absolute => .ok absolute
      | none => do
        let path ← if convention = .windows then stripSameDrive uri path else .ok path
        if uri.isOpaque c then .error (.invalidFileUriPath uri.toText)
        else joinRelative c uri convention path

def joinDescendant : Except PathUriParseError PathUri := do
  let descendant ← uri.join c path
  let windows := uri.inferPathConvention c = some .windows
  if path.head? = some '/' ∨
      (windows ∧ (path.head? = some '\\' ∨ (path.splitOnP isWindowsSeparatorChar).any (·.contains ':'))) ∨
      !descendant.startsWith c uri then
    .error (.joinPathMustBeDescendant path)
  else return descendant

end

end

end

end PathUri

/-! ## Plain names -/

namespace UrlCrates

/-- The crates on names that no encoding changes. -/
def plain : UrlCrates where
  push url segment :=
    { url with segments := if url.segments = [[]] then [segment] else url.segments ++ [segment] }
  pop url := { url with segments := if url.segments.length ≤ 1 then [[]] else url.segments.dropLast }
  popIfEmpty url :=
    { url with
      segments := if url.segments.length > 1 ∧ url.segments.getLast? = some [] then url.segments.dropLast
        else url.segments }
  clear url := { url with segments := [[]] }
  setHost url host := some { url with host := some host }
  decodeBinary := Text.asBytes
  decode := some
  base64Encode _ := []
  base64Decode _ := none

end UrlCrates

def plainUri (path : Text) : PathUri := ((PathUri.mk Url.root).join .plain path).toOption.getD ⟨Url.root⟩

end Codex
