import Codex.Config.Layers
import Codex.Permissions.Policy

/-!
# Permission profiles and what they inherit

`config/src/permissions_toml.rs`. A profile is the table as which it is written; how the fields that are only merged
are read is a parameter.
-/

namespace Codex.Config

open Codex.Entries Codex.Network Codex.Permissions List

def filesystemKey : Text := "filesystem".toList

def networkKey : Text := "network".toList

def domainsKey : Text := "domains".toList

def globScanMaxDepthKey : Text := "glob_scan_max_depth".toList

/-! ## Reading -/

def readMode : TomlValue → Option FileSystemAccessMode
  | .string text =>
    if text = "read".toList then some .read
    else if text = "write".toList then some .write
    else if text = "deny".toList ∨ text = "none".toList then some .deny
    else none
  | _ => none

def readDomain : TomlValue → Option NetworkDomainPermission
  | .string text => if text = "allow".toList then some .allow else if text = "deny".toList then some .deny else none
  | _ => none

def readsPermission : TomlValue → Bool
  | .table table => table.all fun e => (readMode e.2).isSome
  | value => (readMode value).isSome

def readsFilesystem : TomlValue → Bool
  | .table table => table.all fun e =>
      if e.1 = globScanMaxDepthKey then (match e.2 with | .integer depth => decide (0 ≤ depth) | _ => false)
      else readsPermission e.2
  | _ => false

def readsDomains : TomlValue → Bool
  | .table table => table.all fun e => (readDomain e.2).isSome
  | _ => false

def readsNetwork : TomlValue → Bool
  | .table table => (get table domainsKey).all readsDomains
  | _ => false

def readsProfile (readsOther : TomlTable → Bool) (table : TomlTable) : Bool :=
  (get table filesystemKey).all readsFilesystem && (get table networkKey).all readsNetwork && readsOther table

structure PermissionProfileToml where
  table : TomlTable
  distinct : (TomlValue.table table).DistinctKeys
  filesystem : (get table filesystemKey).all readsFilesystem = true
  network : (get table networkKey).all readsNetwork = true

def PermissionProfileToml.extendsName (profile : PermissionProfileToml) : Option Text :=
  (get profile.table "extends".toList).bind (·.asStr)

/-! ## Merging -/

def inKeyOrder (table : TomlTable) : TomlTable := table.mergeSort fun a b => a.1 ≤ b.1

def domainsOfProfile (profile : TomlTable) : Option TomlTable :=
  match (get profile networkKey).bind (·.member domainsKey) with
  | some (.table domains) => some domains
  | _ => none

def normalizeProfileNetworkDomains (profile : TomlTable) : TomlTable :=
  match get profile networkKey with
  | some (.table network) =>
    match get network domainsKey with
    | some (.table domains) =>
      insert profile networkKey (.table (insert network domainsKey (.table (rekey normalizeHost (inKeyOrder domains)))))
    | _ => profile
  | _ => profile

inductive PermissionProfileResolutionError where
  | undefinedProfile (profileName : Text)
  | undefinedParent (profileName parentProfileName : Text)
  | unsupportedBuiltInParent (profileName parentProfileName : Text)
  | cycle (names : List Text)
  | deserializeProfileToml

/-- The parent as it is merged: description and inheritance belong to the selected profile. -/
def mergedParent (parent child : TomlTable) : TomlTable :=
  let inherited := remove (remove parent "description".toList) "extends".toList
  if (domainsOfProfile parent).isSome && (domainsOfProfile child).isSome then normalizeProfileNetworkDomains inherited
  else inherited

def mergedChild (parent child : TomlTable) : TomlTable :=
  if (domainsOfProfile parent).isSome && (domainsOfProfile child).isSome then normalizeProfileNetworkDomains child
  else child

def mergePermissionProfiles (context : MergeContext) (readsOther : TomlTable → Bool) (parent child : TomlTable) :
    Except PermissionProfileResolutionError TomlTable :=
  match mergeTomlValues context (.table (mergedParent parent child)) (.table (mergedChild parent child)) with
  | .table merged => if readsProfile readsOther merged then .ok merged else .error .deserializeProfileToml
  | _ => .error .deserializeProfileToml

def missingProfile (referencedBy : Option Text) (name : Text) : PermissionProfileResolutionError :=
  match referencedBy with
  | none => .undefinedProfile name
  | some child => if name.head? = some ':' then .unsupportedBuiltInParent child name else .undefinedParent child name

def collectNext (lookup : Text → Option PermissionProfileToml) (names : List Text) (referencedBy : Option Text)
    (name : Text) (further : Text → Except PermissionProfileResolutionError (Option (List PermissionProfileToml))) :
    Except PermissionProfileResolutionError (Option (List PermissionProfileToml)) :=
  if names.contains name then .error (.cycle (names.dropWhile (· ≠ name) ++ [name]))
  else
    match lookup name with
    | none => .error (missingProfile referencedBy name)
    | some profile =>
      match profile.extendsName with
      | none => .ok (some [profile])
      | some parent => (further parent).map (·.map (profile :: ·))

/-- The profiles from the selected one to the one that extends nothing; `fuel` bounds how many are looked at. -/
def collectProfiles (lookup : Text → Option PermissionProfileToml) : Nat → List Text → Option Text → Text →
    Except PermissionProfileResolutionError (Option (List PermissionProfileToml))
  | 0, _, _, _ => .ok none
  | fuel + 1, names, referencedBy, name =>
    collectNext lookup names referencedBy name (collectProfiles lookup fuel (names ++ [name]) (some name))

/-- Parents come before their children. -/
def mergeChain (context : MergeContext) (readsOther : TomlTable → Bool) :
    List PermissionProfileToml → Except PermissionProfileResolutionError TomlTable
  | [] => .error .deserializeProfileToml
  | [profile] => .ok profile.table
  | child :: rest =>
    match mergeChain context readsOther rest with
    | .ok parent => mergePermissionProfiles context readsOther parent child.table
    | .error error => .error error

def resolveProfile (context : MergeContext) (readsOther : TomlTable → Bool)
    (lookup : Text → Option PermissionProfileToml)
    (fuel : Nat) (name : Text) : Except PermissionProfileResolutionError (Option TomlTable) :=
  match collectProfiles lookup fuel [] none name with
  | .error error => .error error
  | .ok none => .ok none
  | .ok (some chain) => (mergeChain context readsOther chain).map some

/-! ## Chains -/

/-- The profiles from a name up to one that extends none. -/
inductive ExtendsChain (lookup : Text → Option PermissionProfileToml) :
    Text → List Text → List PermissionProfileToml → Prop
  | last {name : Text} {profile : PermissionProfileToml} (hlookup : lookup name = some profile)
      (hextends : profile.extendsName = none) : ExtendsChain lookup name [name] [profile]
  | extend {name parent : Text} {profile : PermissionProfileToml} {names : List Text}
      {rest : List PermissionProfileToml} (hlookup : lookup name = some profile)
      (hextends : profile.extendsName = some parent) (hrest : ExtendsChain lookup parent names rest)
      (hacyclic : name ∉ names) : ExtendsChain lookup name (name :: names) (profile :: rest)

variable {lookup : Text → Option PermissionProfileToml} {name : Text} {names : List Text}
  {chain : List PermissionProfileToml}

lemma ExtendsChain.collect (h : ExtendsChain lookup name names chain) (hfu : chain.length ≤ fuel)
    (hb : ∀ n ∈ names, n ∉ pre)
    (referencedBy : Option Text) :
    collectProfiles lookup fuel pre referencedBy name = .ok (some chain) := by
  induction h generalizing fuel pre referencedBy with
  | @last name profile hl he =>
    obtain ⟨fuel, rfl⟩ : ∃ n, fuel = n + 1 := Nat.exists_eq_add_one.mpr hfu
    show collectNext .. = _
    have hf : pre.contains name = false := by simpa using hb _ mem_cons_self
    simp only [collectNext, hf, Bool.false_eq_true, if_false, hl, he]
  | @extend name parent profile names rest hl he _ ha ih => ?_
  obtain ⟨fuel, rfl⟩ : ∃ n, fuel = n + 1 := Nat.exists_eq_add_one.mpr (Nat.lt_of_lt_of_le (Nat.succ_pos _) hfu)
  show collectNext .. = _
  have hf : pre.contains name = false := by simpa using hb _ mem_cons_self
  simp only [collectNext, hf, hl, he]
  rw [ih (Nat.le_of_succ_le_succ hfu)]
  · rfl
  · intro n hn hm
    rcases mem_append.mp hm with hm | hm
    · exact hb n (mem_cons_of_mem _ hn) hm
    · exact ha (mem_singleton.mp hm ▸ hn)

end Codex.Config
