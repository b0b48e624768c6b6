import Codex.Base64
import Codex.Entries
import Codex.Network.Policy

/-!
# Credentials of requests

`network-proxy/src/credential_broker/registry.rs`, `providers.rs` and the builtin providers. The parsing of
URLs and the destinations of configured providers are parameters.
-/

namespace Codex.Credentials

open Codex.Entries Codex.Network

abbrev Bytes := List UInt8

def ascii (text : String) : Bytes := text.toList.map fun c => UInt8.ofNat c.toNat

def space : UInt8 := 32

def colon : UInt8 := 58

def splitOnce (separator : UInt8) (bytes : Bytes) : Option (Bytes × Bytes) :=
  match bytes.dropWhile (· ≠ separator) with
  | [] => none
  | _ :: rest => some (bytes.takeWhile (· ≠ separator), rest)

def blank (byte : UInt8) : Bool := byte = 32 ∨ byte = 9

def trim (bytes : Bytes) : Bytes := ((bytes.dropWhile blank).reverse.dropWhile blank).reverse

def toAsciiLowercase (byte : UInt8) : UInt8 := if 65 ≤ byte ∧ byte ≤ 90 then byte + 32 else byte

def eqIgnoreAsciiCase (left right : Bytes) : Bool := left.map toAsciiLowercase = right.map toAsciiLowercase

abbrev HeaderValue := Bytes

abbrev HeaderMap := List (Text × HeaderValue)

def authorization : Text := "authorization".toList

def HeaderValue.toStr (value : HeaderValue) : Option Bytes :=
  if value.all fun byte => byte = 9 ∨ 32 ≤ byte ∧ byte < 127 then some value else none

def HeaderValue.fromStr (text : Bytes) : Option HeaderValue :=
  if text.all fun byte => byte = 9 ∨ 32 ≤ byte ∧ byte ≠ 127 then some text else none

/-! ## Providers -/

inductive CredentialProvider where
  | github | openai
  deriving DecidableEq

/-- The whole of Basic credentials, or a field of them, is exchanged. -/
def translateBasic (decoded expected replacement : Bytes) : Option Bytes :=
  if decoded = expected then some replacement
  else
    (splitOnce colon decoded).bind fun (username, password) =>
      if username ≠ expected ∧ password ≠ expected then none
      else some ((if username = expected then replacement else username) ++
        colon :: (if password = expected then replacement else password))

def translateRequestHeader (headers : HeaderMap) (expected replacement : Bytes) :
    CredentialProvider → Option HeaderValue
  | .github =>
    ((get headers authorization).bind HeaderValue.toStr).bind fun header =>
      (splitOnce space header).bind fun (scheme, value) =>
        if eqIgnoreAsciiCase scheme (ascii "basic") then
          (Base64.decode (trim value)).bind fun decoded =>
            (translateBasic decoded expected replacement).bind fun translated =>
              HeaderValue.fromStr (scheme ++ space :: Base64.encode translated)
        else if (eqIgnoreAsciiCase scheme (ascii "bearer") ∨ eqIgnoreAsciiCase scheme (ascii "token")) ∧
            trim value = expected then
          HeaderValue.fromStr (scheme ++ space :: replacement)
        else none
  | .openai =>
    ((get headers authorization).bind HeaderValue.toStr).bind fun header =>
      if expected <:+: header then HeaderValue.fromStr (ascii "Bearer " ++ replacement) else none

/-! ## Records and the requests they are bound to -/

structure Url where
  scheme : Text
  hostStr : Option Text

inductive CredentialHostBinding (Destination : Type) where
  | exactHost (host : Text)
  | exactHosts (hosts : List Text)
  | hostPattern (exactHosts suffixes : List Text)
  | configuredHosts (destinations : List Destination)

structure CredentialRecord (Destination : Type) where
  provider : CredentialProvider
  hostBinding : CredentialHostBinding Destination
  additionalHostBindings : List (CredentialHostBinding Destination)
  environmentId : Option Text
  realValue : Bytes
  dummyValue : Bytes

structure Parsers (Destination : Type) where
  parseUrl : Text → Option Url
  matchesDestination : Destination → Text → Option Url → Bool

section

variable {Destination : Type}

namespace CredentialHostBinding

def matchesRequest (parsers : Parsers Destination) (host : Text) (request : Option Url) :
    CredentialHostBinding Destination → Bool
  | configuredHosts destinations => destinations.any (parsers.matchesDestination · host request)
  | exactHost expected => request.all (·.scheme = "https".toList) && host = expected
  | exactHosts hosts => request.all (·.scheme = "https".toList) && hosts.contains host
  | hostPattern hosts suffixes =>
    request.all (·.scheme = "https".toList) && (hosts.contains host || suffixes.any fun suffix => suffix <:+ host)

end CredentialHostBinding

def CredentialRecord.hostBindings (record : CredentialRecord Destination) : List (CredentialHostBinding Destination) :=
  record.hostBinding :: record.additionalHostBindings

def CredentialRecord.belongsToEnvironment (record : CredentialRecord Destination) (environmentId : Option Text) :
    Bool :=
  record.environmentId = environmentId

def readDestination (parsers : Parsers Destination) (destination : Text) : Option (Text × Option Url) :=
  if "://".toList <:+: destination then
    (parsers.parseUrl destination).map fun request => (normalizeHost (request.hostStr.getD destination), some request)
  else some (normalizeHost destination, none)

def CredentialRecord.boundTo (parsers : Parsers Destination) (environmentId : Option Text) (host : Text)
    (request : Option Url) (record : CredentialRecord Destination) : Bool :=
  record.belongsToEnvironment environmentId && record.hostBindings.any (·.matchesRequest parsers host request)

/-! ## Selection -/

abbrev Translation (Destination : Type) := CredentialRecord Destination × Text × HeaderValue

def sameTranslation (left right : Translation Destination) : Bool :=
  left.1.provider = right.1.provider ∧ left.1.realValue = right.1.realValue ∧ left.2 = right.2

def pushNew (translations : List (Translation Destination)) (translation : Translation Destination) :
    List (Translation Destination) :=
  if translations.any (sameTranslation · translation) then translations else translations ++ [translation]

def allTranslations (headers : HeaderMap) (bound : List (CredentialRecord Destination)) :
    List (Translation Destination) :=
  bound.flatMap fun credential =>
    (bound.filter fun candidate => candidate.provider = credential.provider ∧
        candidate.realValue = credential.realValue).flatMap fun candidate =>
      (translateRequestHeader headers candidate.dummyValue credential.realValue credential.provider).toList.map
        fun value => (credential, authorization, value)

def decodeBasic (header : HeaderValue) : Option (Bytes × Bytes) :=
  header.toStr.bind fun text =>
    (splitOnce space text).bind fun (scheme, value) =>
      if eqIgnoreAsciiCase scheme (ascii "basic") then (Base64.decode (trim value)).bind (splitOnce colon) else none

def mergedFields (original left right : Bytes × Bytes) : Option (Bytes × Bytes) :=
  if left.1 ≠ original.1 ∧ left.2 = original.2 ∧ right.1 = original.1 ∧ right.2 ≠ original.2 then some (left.1, right.2)
  else if right.1 ≠ original.1 ∧ right.2 = original.2 ∧ left.1 = original.1 ∧ left.2 ≠ original.2 then
    some (right.1, left.2)
  else none

def mergeBasicAuthFields (original left right : HeaderValue) : Option HeaderValue :=
  (decodeBasic original).bind fun original =>
    (decodeBasic left).bind fun left =>
      (decodeBasic right).bind fun right =>
        (mergedFields original left right).bind fun (user, password) =>
          HeaderValue.fromStr (ascii "Basic " ++ Base64.encode (user ++ colon :: password))

structure Selection (Destination : Type) where
  selected : List (Translation Destination)
  ambiguousHeaders : List Text

def swapRemove {α : Type} (items : List α) (index : Nat) : List α :=
  match items.getLast? with
  | none => items
  | some last => (items.set index last).dropLast

def Selection.add (headers : HeaderMap) (state : Selection Destination)
    (translation : Translation Destination) : Selection Destination :=
  let name := translation.2.1
  if state.ambiguousHeaders.contains name then state
  else
    match state.selected.findIdx? (·.2.1 = name) with
    | none => { state with selected := state.selected ++ [translation] }
    | some index =>
      match state.selected[index]? with
      | none => state
      | some existing =>
        if sameTranslation existing translation then state
        else
          let merged := if name = authorization then (get headers authorization).bind fun original =>
            mergeBasicAuthFields original existing.2.2 translation.2.2 else none
          match merged with
          | some value => { state with selected := state.selected.set index (existing.1, existing.2.1, value) }
          | none => ⟨swapRemove state.selected index, state.ambiguousHeaders ++ [name]⟩

def selectCredentials (parsers : Parsers Destination) (headers : HeaderMap) (destination : Text)
    (credentials : List (CredentialRecord Destination)) (environmentId : Option Text) :
      List (Translation Destination) :=
  match readDestination parsers destination with
  | none => []
  | some (host, request) =>
    let bound := credentials.filter (·.boundTo parsers environmentId host request)
    let translations := (allTranslations headers bound).foldl pushNew []
    (translations.foldl (Selection.add headers) ⟨[], []⟩).selected

end

end Codex.Credentials
