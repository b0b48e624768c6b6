import Codex.PathUri.Basic

/-! # Native path texts: `LegacyAppPathString::from_path_uri` of `utils/path-uri/src/api_path_string.rs` -/

namespace Codex

open Codex.Text

/-! ## Lossy decoding -/

def replacementChar : Char := '\uFFFD'

def isContinuation (b : UInt8) : Bool := 0x80 ≤ b && b ≤ 0xBF

def isSecondByte (first second : UInt8) : Bool :=
  if first = 0xE0 then 0xA0 ≤ second && second ≤ 0xBF
  else if first = 0xED then 0x80 ≤ second && second ≤ 0x9F
  else if first = 0xF0 then 0x90 ≤ second && second ≤ 0xBF
  else if first = 0xF4 then 0x80 ≤ second && second ≤ 0x8F
  else isContinuation second

def firstByte (b : UInt8) : Option (Nat × Nat) :=
  if b < 0x80 then some (0, b.toNat)
  else if 0xC2 ≤ b && b ≤ 0xDF then some (1, b.toNat % 32)
  else if 0xE0 ≤ b && b ≤ 0xEF then some (2, b.toNat % 16)
  else if 0xF0 ≤ b && b ≤ 0xF4 then some (3, b.toNat % 8)
  else none

/-- The first character of bytes and the number of further bytes it takes; a broken start is one replacement. -/
def firstUtf8Char (first : UInt8) (rest : List UInt8) : Char × Nat :=
  match firstByte first with
  | none => (replacementChar, 0)
  | some (count, bits) =>
    let follow := match rest with
      | [] => []
      | second :: rest => if isSecondByte first second then second :: rest.takeWhile isContinuation else []
    let taken := follow.take count
    if taken.length = count then (.ofNat (taken.foldl (fun n b => n * 64 + b.toNat % 64) bits), count)
    else (replacementChar, taken.length)

def firstUtf16Char (first : Nat) (rest : List Nat) : Char × Nat :=
  if 0xD800 ≤ first && first ≤ 0xDBFF then
    match rest with
    | low :: _ =>
      if 0xDC00 ≤ low && low ≤ 0xDFFF then (.ofNat (0x10000 + (first - 0xD800) * 0x400 + (low - 0xDC00)), 1)
      else (replacementChar, 0)
    | [] => (replacementChar, 0)
  else if 0xDC00 ≤ first && first ≤ 0xDFFF then (replacementChar, 0)
  else (.ofNat first, 0)

/-- Characters one after another; the counter holds the units that belong to the last one. -/
def decodeChars {α : Type} (first : α → List α → Char × Nat) : Nat → List α → Text
  | _, [] => []
  | 0, a :: rest => (first a rest).1 :: decodeChars first (first a rest).2 rest
  | skip + 1, _ :: rest => decodeChars first skip rest

def fromUtf8Lossy (bytes : List UInt8) : Text := decodeChars firstUtf8Char 0 bytes

def fromUtf16Lossy (units : List Nat) : Text := decodeChars firstUtf16Char 0 units

namespace PathUri

/-! ## Rendering -/

def renderWindowsOpaqueFallback (pathBytes : List UInt8) : Option Text :=
  if pathBytes.length % 2 ≠ 0 then none
  else
    let pathWide := wideUnits pathBytes
    let hasDriveRoot := match pathWide with
      | drive :: colon :: separator :: _ =>
        isAsciiAlphabeticUnit drive && colon = 58 && isWindowsSeparatorUnit separator
      | _ => false
    let hasNamespaceOrUncRoot := match pathWide with
      | first :: second :: _ => isWindowsSeparatorUnit first && isWindowsSeparatorUnit second
      | _ => false
    if hasDriveRoot || hasNamespaceOrUncRoot then some (fromUtf16Lossy pathWide) else none

def renderOpaqueFallback (pathBytes : List UInt8) : PathConvention → Option Text
  | .posix => if pathBytes.head? = some 47 then some (fromUtf8Lossy pathBytes) else none
  | .windows => renderWindowsOpaqueFallback pathBytes

def decodeNativeSegment (c : UrlCrates) (segment : Text) : Text := fromUtf8Lossy (c.decodeBinary segment)

section

variable (c : UrlCrates) (uri : PathUri)

def renderPosixPath : Option Text :=
  if uri.url.host.isSome then none
  else some (uri.url.segments.flatMap fun segment => '/' :: decodeNativeSegment c segment)

def closeDriveRoot (rendered : Text) : Text :=
  match rendered with
  | [drive, ':'] => [drive, ':', '\\']
  | _ => rendered

def renderWindowsPath : Option Text :=
  match uri.url.segments.map (decodeNativeSegment c) with
  | [] => none
  | first :: segments =>
    let rest := segments.flatMap ('\\' :: ·)
    match uri.url.host with
    | some host =>
      if first.isEmpty then none else some ("\\\\".toList ++ host ++ '\\' :: first ++ rest)
    | none => match first with
      | [drive, ':'] => if drive.isAlpha then some (closeDriveRoot (first ++ rest)) else none
      | _ => none

/-- `LegacyAppPathString::from_path_uri`, without the texts of its errors. -/
def toNativeText (convention : PathConvention) : Option Text :=
  match uri.opaqueFallbackBytes c with
  | some pathBytes => renderOpaqueFallback pathBytes convention
  | none => match convention with
    | .posix => renderPosixPath c uri
    | .windows => renderWindowsPath c uri

def inferredNativePathString : Text :=
  ((uri.inferPathConvention c).bind (uri.toNativeText c)).getD uri.toText

end

end PathUri

end Codex
