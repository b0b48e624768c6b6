import Mathlib
import Codex.Entries
import Codex.Text

/-!
# TOML values, and the keys that have another name

The values of the `toml` crate, which keep the order of a table's entries, and `config/src/key_aliases.rs`.
-/

namespace Codex.Config

open Codex.Entries List

inductive TomlValue where
  | string (text : Text)
  | integer (value : Int)
  | float (bits : UInt64)
  | boolean (value : Bool)
  | datetime (text : Text)
  | array (items : List TomlValue)
  | table (entries : List (Text × TomlValue))

abbrev TomlTable := List (Text × TomlValue)

namespace TomlValue

def isTable : TomlValue → Bool
  | table _ => true
  | _ => false

def asArray : TomlValue → Option (List TomlValue)
  | array items => some items
  | _ => none

def asStr : TomlValue → Option Text
  | string text => some text
  | _ => none

def member : TomlValue → Text → Option TomlValue
  | table entries, key => get entries key
  | _, _ => none

def lookup (value : TomlValue) : List Text → Option TomlValue
  | [] => some value
  | key :: path => (value.member key).bind fun child => child.lookup path

inductive DistinctKeys : TomlValue → Prop
  | string (text : Text) : DistinctKeys (string text)
  | integer (value : Int) : DistinctKeys (integer value)
  | float (bits : UInt64) : DistinctKeys (float bits)
  | boolean (value : Bool) : DistinctKeys (boolean value)
  | datetime (text : Text) : DistinctKeys (datetime text)
  | array (items : List TomlValue) : (∀ item ∈ items, DistinctKeys item) → DistinctKeys (array items)
  | table (entries : TomlTable) : (entries.map (·.1)).Nodup → (∀ e ∈ entries, DistinctKeys e.2) →
      DistinctKeys (table entries)

lemma DistinctKeys.member {value child : TomlValue} (h : value.DistinctKeys)
    (hm : value.member key = some child) : child.DistinctKeys := by
  cases h with
  | table entries _ ha => exact ha _ (mem_of_get hm)
  | _ => cases hm

end TomlValue

structure TomlDocument where
  value : TomlValue
  distinct : value.DistinctKeys

/-! ## Aliases -/

structure ConfigKeyAlias where
  legacy : List Text
  canonical : List Text

def configKeyAliases : List ConfigKeyAlias :=
  [⟨["tui", "whimsy"], ["tui", "effects", "starfield"]⟩,
    ⟨["memories", "no_memories_if_mcp_or_web_search"], ["memories", "disable_on_external_context"]⟩,
    ⟨["agents", "max_threads"], ["agents", "max_concurrent_threads_per_session"]⟩]

/-- A value is put at a path within a table unless something is there, or the path leads through no table. -/
def orInsertAt (value : TomlValue) : List Text → Text → TomlTable → TomlTable
  | [], key, destination => if (get destination key).isSome then destination else insert destination key value
  | parent :: parents, key, destination =>
    match (get destination parent).getD (.table []) with
    | .table child => insert destination parent (.table (orInsertAt value parents key child))
    | _ => destination

def stripped : List Text → List Text → Option (List Text)
  | path, [] => some path
  | key :: path, start :: starts => if key = start then stripped path starts else none
  | [], _ :: _ => none

def normalizeTableKeyAlias (path : List Text) (table : TomlTable) (entry : ConfigKeyAlias) : TomlTable :=
  match entry.legacy.getLast? with
  | none => table
  | some legacyKey =>
    if path = entry.legacy.dropLast then
      match stripped entry.canonical entry.legacy.dropLast, get table legacyKey with
      | some canonicalPath, some value =>
        match canonicalPath.getLast? with
        | none => remove table legacyKey
        | some key => orInsertAt value canonicalPath.dropLast key (remove table legacyKey)
      | _, _ => table
    else table

def normalizeTableKeyAliases (path : List Text) (table : TomlTable) : TomlTable :=
  configKeyAliases.foldl (normalizeTableKeyAlias path) table

def leadsToAlias (path : List Text) : Bool := configKeyAliases.any fun entry => path.isPrefixOf entry.legacy

mutual

def normalizeKeyAliasesAtPath (path : List Text) : TomlValue → TomlValue
  | .table entries =>
    if leadsToAlias path then .table (normalizeTableKeyAliases path (normalizeEntries path entries))
    else .table entries
  | .array items => if leadsToAlias path then .array (normalizeItems path items) else .array items
  | value => value

def normalizeEntries (path : List Text) : List (Text × TomlValue) → List (Text × TomlValue)
  | [] => []
  | (key, child) :: entries =>
    (key, normalizeKeyAliasesAtPath (path ++ [key]) child) :: normalizeEntries path entries

def normalizeItems (path : List Text) : List TomlValue → List TomlValue
  | [] => []
  | item :: items => normalizeKeyAliasesAtPath path item :: normalizeItems path items

end

def normalizeKeyAliases (value : TomlValue) : TomlValue := normalizeKeyAliasesAtPath [] value

mutual

/-- Only tables that the overlay reaches are normalised in the base. -/
def normalizeBaseKeyAliases (path : List Text) (base : TomlValue) : TomlValue → TomlValue
  | .table overlay =>
    match base with
    | .table table => .table (normalizeBaseEntries path (normalizeTableKeyAliases path table) overlay)
    | other => other
  | _ => base

def normalizeBaseEntries (path : List Text) (base : TomlTable) : List (Text × TomlValue) → TomlTable
  | [] => base
  | (key, value) :: overlay =>
    match get base key with
    | some existing =>
      normalizeBaseEntries path (insert base key (normalizeBaseKeyAliases (path ++ [key]) existing value)) overlay
    | none => normalizeBaseEntries path base overlay

end

/-! ## Paths no alias is about -/

lemma normalizeTableKeyAliases_of_length (h : path.length ≠ 1) (table : TomlTable) :
    normalizeTableKeyAliases path table = table := by
  have ho : ∀ (key legacy : Text) canonical, normalizeTableKeyAlias path table ⟨[key, legacy], canonical⟩ = table := by
    intro key legacy canonical
    have hp : ¬ path = [key] := fun heq => h (by rw [heq]; rfl)
    simp [normalizeTableKeyAlias, hp]
  simp [normalizeTableKeyAliases, configKeyAliases, ho]

def unaliased (key : Text) : Prop := ∀ entry ∈ configKeyAliases, entry.legacy.head? ≠ some key

instance (key : Text) : Decidable (unaliased key) := by unfold unaliased; infer_instance

variable {key : Text}

lemma normalizeTableKeyAliases_of_unaliased (h : unaliased key) (path : List Text) (table : TomlTable) :
    normalizeTableKeyAliases (key :: path) table = table := by
  by_cases hl : path = []
  · subst hl
    have ho : ∀ (start legacy : Text) canonical, ⟨[start, legacy], canonical⟩ ∈ configKeyAliases →
        normalizeTableKeyAlias [key] table ⟨[start, legacy], canonical⟩ = table := by
      intro start legacy canonical hm
      have hp : ¬ key = start := fun heq => h _ hm (by rw [heq]; rfl)
      simp [normalizeTableKeyAlias, hp]
    unfold normalizeTableKeyAliases configKeyAliases
    rw [foldl_cons, ho _ _ _ (by simp [configKeyAliases]), foldl_cons,
      ho _ _ _ (by simp [configKeyAliases]), foldl_cons, ho _ _ _ (by simp [configKeyAliases]),
      foldl_nil]
  · exact normalizeTableKeyAliases_of_length (by simpa using hl) table

lemma leadsToAlias_of_unaliased (h : unaliased key) (path : List Text) :
    leadsToAlias (key :: path) = false := by
  unfold leadsToAlias
  rw [any_eq_false]
  intro entry hm hp
  obtain ⟨_, hr⟩ := isPrefixOf_iff_prefix.mp hp
  exact h entry hm (by rw [← hr]; rfl)

lemma normalizeKeyAliasesAtPath_of_unaliased (h : unaliased key) (path : List Text) (value : TomlValue) :
    normalizeKeyAliasesAtPath (key :: path) value = value := by
  cases value with
  | table entries | array items => rw [normalizeKeyAliasesAtPath, leadsToAlias_of_unaliased h]; rfl
  | _ => rw [normalizeKeyAliasesAtPath] <;> simp

lemma get_normalizeEntries (path : List Text) (entries : TomlTable) (key : Text) :
    get (normalizeEntries path entries) key = (get entries key).map (normalizeKeyAliasesAtPath (path ++ [key])) := by
  induction entries with
  | nil => rfl
  | cons e entries ih => ?_
  obtain ⟨name, _⟩ := e
  rw [normalizeEntries, get_cons, get_cons, ih]
  by_cases h : name = key
  · subst h
    simp
  · simp [h]

lemma keys_normalizeEntries (path : List Text) (entries : TomlTable) :
    (normalizeEntries path entries).map (·.1) = entries.map (·.1) := by
  induction entries with
  | nil => rfl
  | cons e entries ih => rw [normalizeEntries, map_cons, map_cons, ih]

lemma normalizeKeyAliases_table (entries : TomlTable) :
    normalizeKeyAliases (.table entries) = .table (normalizeEntries [] entries) := by
  rw [normalizeKeyAliases, normalizeKeyAliasesAtPath, if_pos (by rfl), normalizeTableKeyAliases_of_length (by simp)]

lemma get_normalizeKeyAliases (h : unaliased key) (entries : TomlTable) :
    get (normalizeEntries [] entries) key = get entries key := by
  rw [get_normalizeEntries]
  cases get entries key with
  | none => rfl
  | some child => exact congrArg some (normalizeKeyAliasesAtPath_of_unaliased h [] child)

mutual

variable {key : Text}

theorem normalizeBaseKeyAliases_of_unaliased (h : unaliased key) (path : List Text) (base : TomlValue) :
    ∀ overlay, normalizeBaseKeyAliases (key :: path) base overlay = base
  | .table overlay => by
    cases base with
    | table table =>
      rw [normalizeBaseKeyAliases, normalizeTableKeyAliases_of_unaliased h,
        normalizeBaseEntries_of_unaliased h path table overlay]
    | _ => simp [normalizeBaseKeyAliases]
  | .string _ | .integer _ | .float _ | .boolean _ | .datetime _ | .array _ => by
    simp [normalizeBaseKeyAliases]

theorem normalizeBaseEntries_of_unaliased (h : unaliased key) (path : List Text) (base : TomlTable) :
    ∀ overlay, normalizeBaseEntries (key :: path) base overlay = base
  | [] => by rw [normalizeBaseEntries]
  | (name, value) :: overlay => by
    rw [normalizeBaseEntries]
    rcases hget : get base name with _ | existing
    · exact normalizeBaseEntries_of_unaliased h path base overlay
    have hsame := normalizeBaseKeyAliases_of_unaliased h (path ++ [name]) existing value
    simp only [cons_append]
    rw [hsame, insert_of_get hget]
    exact normalizeBaseEntries_of_unaliased h path base overlay

end

lemma get_normalizeBaseEntries (h : unaliased key) (base overlay : TomlTable) :
    get (normalizeBaseEntries [] base overlay) key = get base key := by
  induction overlay generalizing base with
  | nil => rw [normalizeBaseEntries]
  | cons e overlay ih => ?_
  obtain ⟨name, value⟩ := e
  rw [normalizeBaseEntries]
  rcases hg : get base name with _ | existing
  · exact ih base
  simp only [nil_append]
  rw [ih, get_insert]
  split
  · rename_i heq
    subst heq
    rw [normalizeBaseKeyAliases_of_unaliased h, hg]
  · rfl

end Codex.Config
