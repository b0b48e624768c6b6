import Codex.PathUri.NativePath

/-!
# Paths in configurations

`utils/path-uri/src/config_path.rs`: which directories may stand in a glob unchanged.
-/

namespace Codex

open Codex.Text

namespace PathConvention

def isSeparator : PathConvention → Char → Bool
  | posix, c => c = '/'
  | windows, c => isWindowsSeparatorChar c

def pathSegments (convention : PathConvention) (path : Text) : List Text :=
  path.splitOnP convention.isSeparator

/-- What follows the `~` of a path in the home directory. -/
def homeRelativeSuffix (convention : PathConvention) (path : Text) : Option Text := do
  let suffix ← stripPrefix ['~'] path
  if suffix.isEmpty || suffix.head?.any convention.isSeparator then some suffix else none

end PathConvention

/-- `LegacyAppPathStringError` as far as paths in configurations raise it. -/
inductive ConfigPathError where
  | incompatibleConvention (path : Text) (convention : PathConvention)
  | invalidFileUriPath (path : Text)
  | notRendered (path : Text) (convention : PathConvention)
  | unsupportedConfigPath (path : Text) (convention : PathConvention)
deriving DecidableEq

def isUtf8 (bytes : List UInt8) : Bool := (fromUtf8Lossy bytes).asBytes = bytes

namespace PathUri

def decodedPathBytes (c : UrlCrates) (uri : PathUri) : List UInt8 := c.decodeBinary uri.url.path

def containsGlobMetacharacter (path : Text) : Bool :=
  path.any fun character => character ∈ ['*', '?', '[', ']', '{', '}']

def hasWindowsComponentColon (nativeInput : Text) : Bool :=
  match PathConvention.windows.pathSegments nativeInput with
  | (drive :: ':' :: first) :: rest =>
    (if drive.isAlpha then first else drive :: ':' :: first).contains ':' || rest.any (·.contains ':')
  | segments => segments.any (·.contains ':')

def hasMixedHomeSeparators (input : Text) : Bool :=
  (PathConvention.windows.homeRelativeSuffix input).any fun suffix =>
    (suffix.head? = some '/' && (suffix.dropWhile (· = '/')).head? = some '\\') ||
      (suffix.head? = some '\\' && (suffix.dropWhile (· = '\\')).head? = some '/')

def isBareWindowsDrive : Text → Bool
  | [drive, ':'] => drive.isAlpha
  | _ => false

def validateConfigPathText (input : Text) (convention : PathConvention) : Except ConfigPathError Unit :=
  let nativeInput := (normalizeWindowsDevicePath input).getD input
  if input.contains '\x00' || (convention = .windows &&
      (hasWindowsComponentColon nativeInput || hasMixedHomeSeparators input || isBareWindowsDrive nativeInput)) then
    .error (.unsupportedConfigPath input convention)
  else .ok ()

def validateConfigPath (c : UrlCrates) (uri : PathUri) (convention : PathConvention) : Except ConfigPathError Unit :=
  if uri.inferPathConvention c ≠ some convention then .error (.incompatibleConvention uri.toText convention)
  else if (uri.lexicalDepth c).isNone || (uri.decodedPathBytes c).contains 0 ||
      !isUtf8 (uri.decodedPathBytes c) then .error (.invalidFileUriPath uri.toText)
  else match uri.toNativeText c convention with
    | none => .error (.notRendered uri.toText convention)
    | some path => validateConfigPathText path convention

def validateGlobDirectory (c : UrlCrates) (uri : PathUri) (convention : PathConvention) :
    Except ConfigPathError Unit := do
  validateConfigPath c uri convention
  match uri.toNativeText c convention with
  | none => .error (.notRendered uri.toText convention)
  | some path =>
    if containsGlobMetacharacter path || (convention = .posix && path.contains '\\') then
      .error (.unsupportedConfigPath path convention)
    else .ok ()

end PathUri

end Codex
