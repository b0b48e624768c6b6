import Codex.Config.Toml
import Codex.Network.Policy

/-!
# Merging configuration layers

`config/src/merge.rs`. How the standard library lowers a text, and whether the system is Windows, are parameters.
-/

namespace Codex.Config

open Codex.Entries Codex.Network

structure MergeContext where
  toLowercase : Text → Text
  windows : Bool

inductive ShellEnvironmentPolicyFilterRepresentation where
  | filters | legacy
  deriving DecidableEq

namespace ShellEnvironmentPolicyFilterRepresentation

def fromPolicy : TomlValue → Option ShellEnvironmentPolicyFilterRepresentation
  | .table policy =>
    if (get policy "filters").isSome then some filters
    else if (get policy "exclude").isSome ∨ (get policy "include_only").isSome then some legacy
    else none
  | _ => none

def displacedFields : ShellEnvironmentPolicyFilterRepresentation → List Text
  | filters => ["exclude", "include_only"]
  | legacy => ["filters"]

end ShellEnvironmentPolicyFilterRepresentation

def structuredFeatures : List Text :=
  ["code_mode", "computer_use", "multi_agent_v2", "network_proxy", "sleep_tool", "runtime_agent_instances"]

def isStructuredFeaturePath : List Text → Bool
  | [profiles, _, features, feature] =>
    profiles == "profiles" && features == "features" && structuredFeatures.contains feature
  | [features, feature] => features == "features" && structuredFeatures.contains feature
  | _ => false

def isShellEnvironmentFiltersPath : List Text → Bool
  | [policy, filters] => policy == "shell_environment_policy" && filters == "filters"
  | _ => false

def isNetworkDomainsPath : List Text → Bool
  | [permissions, _, network, domains] =>
    permissions == "permissions" && network == "network" && domains == "domains"
  | [application, network, domains] =>
    application == "application" && network == "network" && domains == "domains"
  | _ => false

def isCredentialsPath (path : List Text) : Bool :=
  path.getLast? == some "credentials".toList && isStructuredFeaturePath path.dropLast

def replaceShellEnvironmentPolicyFilterRepresentation (base overlay : TomlValue) (path : List Text) : TomlValue :=
  if path = ["shell_environment_policy".toList] then
    match ShellEnvironmentPolicyFilterRepresentation.fromPolicy overlay, base with
    | some representation, .table table => .table (representation.displacedFields.foldl remove table)
    | _, _ => base
  else base

/-- A switch over the settings of a structured feature sets its `enabled` and ends the merge there. -/
def switchedFeature (path : List Text) : TomlValue → TomlValue → Option TomlValue
  | .table table, .boolean enabled =>
    if isStructuredFeaturePath path then some (.table (insert table "enabled" (.boolean enabled))) else none
  | _, _ => none

/-- A switch under settings of a structured feature becomes settings too. -/
def expandedFeature (path : List Text) : TomlValue → TomlValue → TomlValue
  | .boolean enabled, .table _ =>
    if isStructuredFeaturePath path then .table [("enabled", .boolean enabled)] else .boolean enabled
  | base, _ => base

def normalizeNetworkDomainKeys (table : TomlTable) : TomlTable := rekey normalizeHost table

section

variable (context : MergeContext)

def normalizeCaseInsensitiveKeys (table : TomlTable) : TomlTable := rekey context.toLowercase table

def normalizeTableKeys (path : List Text) (table : TomlTable) : TomlTable :=
  if isNetworkDomainsPath path then normalizeNetworkDomainKeys table
  else if isShellEnvironmentFiltersPath path then normalizeCaseInsensitiveKeys context table
  else table

def envSources (provider : TomlValue) : Option (List TomlValue) := (provider.member "env").bind (·.asArray)

def sameSource (existing overlay : Text) : Bool :=
  existing == overlay || context.windows && existing.map Char.toLower == overlay.map Char.toLower

def readsSource (overlayTable : TomlTable) (overlaySources : List TomlValue) (existing : Text × TomlValue) : Bool :=
  let env := ((get overlayTable existing.1).bind (·.member "env")).or (existing.2.member "env")
  (env.bind (·.asArray)).any fun existingSources =>
    (existingSources.filterMap (·.asStr)).any fun existingSource =>
      (overlaySources.filterMap (·.asStr)).any fun overlaySource => sameSource context existingSource overlaySource

def retainProviders (overlayTable base : TomlTable) : TomlTable :=
  overlayTable.foldl (fun table provider =>
    match envSources provider.2 with
    | none => table
    | some sources => table.filter fun existing =>
        existing.1 == provider.1 || !readsSource context overlayTable sources existing) base

end

variable {table : TomlTable} {e : Text × TomlValue}

lemma mem_normalizeTableKeys (h : e ∈ normalizeTableKeys context path table) : ∃ e' ∈ table, e'.2 = e.2 := by
  unfold normalizeTableKeys at h
  split at h
  · obtain ⟨e', he', -, hv⟩ := mem_rekey _ h
    exact ⟨e', he', hv⟩
  split at h
  · obtain ⟨e', he', -, hv⟩ := mem_rekey _ h
    exact ⟨e', he', hv⟩
  · exact ⟨e, h, rfl⟩

lemma sizeOf_of_mem_normalizeTableKeys (h : e ∈ normalizeTableKeys context path table) :
    sizeOf e.2 < sizeOf (TomlValue.table table) := by
  obtain ⟨e', he', hv⟩ := mem_normalizeTableKeys h
  have he := List.sizeOf_lt_of_mem he'
  have hp : sizeOf e' = 1 + sizeOf e'.1 + sizeOf e'.2 := by
    rfl
  have ht := TomlValue.table.sizeOf_spec table
  rw [← hv]
  omega

def mergeTomlValuesAtPath (context : MergeContext) (base overlay : TomlValue) (path : List Text) : TomlValue :=
  let replaced := replaceShellEnvironmentPolicyFilterRepresentation base overlay path
  match switchedFeature path replaced overlay with
  | some merged => merged
  | none =>
    match expandedFeature path replaced overlay, overlay with
    | .table baseTable, .table overlayTable =>
      let entries := normalizeTableKeys context path overlayTable
      let normalized := normalizeTableKeys context path baseTable
      let retained := if isCredentialsPath path then retainProviders context entries normalized else normalized
      .table (entries.attach.foldl (fun table entry =>
        insert table entry.1.1 ((get table entry.1.1).elim entry.1.2 fun existing =>
          mergeTomlValuesAtPath context existing entry.1.2 (path ++ [entry.1.1]))) retained)
    | _, _ => overlay
termination_by sizeOf overlay
decreasing_by exact sizeOf_of_mem_normalizeTableKeys entry.2

/-- The overlay comes first wherever both say something. -/
def mergeTomlValues (context : MergeContext) (base overlay : TomlValue) : TomlValue :=
  let overlay := normalizeKeyAliases overlay
  mergeTomlValuesAtPath context (normalizeBaseKeyAliases [] base overlay) overlay []

/-! ## Paths without rules of their own -/

def plain (path : List Text) : Prop :=
  ∀ key ∈ path.head?, key ≠ "features" ∧ key ≠ "profiles" ∧ key ≠ "shell_environment_policy"

section

variable {context : MergeContext} {path : List Text}

lemma isStructuredFeaturePath_of_plain (h : plain path) : isStructuredFeaturePath path = false := by
  unfold isStructuredFeaturePath
  split
  · rename_i profiles _ _ _
    rw [beq_eq_false_iff_ne.mpr (h profiles rfl).2.1]
    rfl
  · rename_i features _
    rw [beq_eq_false_iff_ne.mpr (h features rfl).1]
    rfl
  · rfl

lemma plain_dropLast (h : plain path) : plain path.dropLast := by
  match path with
  | [] => exact h
  | [_] => intro key hk; cases hk
  | key :: _ :: _ => intro key' hk; exact h key' hk

lemma isCredentialsPath_of_plain (h : plain path) : isCredentialsPath path = false := by
  unfold isCredentialsPath
  rw [isStructuredFeaturePath_of_plain (plain_dropLast h), Bool.and_false]

lemma replaced_of_plain (h : plain path) (base overlay : TomlValue) :
    replaceShellEnvironmentPolicyFilterRepresentation base overlay path = base := by
  have hp : ¬ path = ["shell_environment_policy".toList] := by
    rintro rfl
    exact (h _ rfl).2.2 rfl
  unfold replaceShellEnvironmentPolicyFilterRepresentation
  rw [if_neg hp]

lemma expandedFeature_table (base overlay : TomlTable) :
    expandedFeature path (.table base) (.table overlay) = .table base := rfl

lemma merge_tables (h : plain path) (base overlay : TomlTable) :
    mergeTomlValuesAtPath context (.table base) (.table overlay) path =
      .table (overlaid (fun key existing value => mergeTomlValuesAtPath context existing value (path ++ [key]))
        (normalizeTableKeys context path base) (normalizeTableKeys context path overlay)) := by
  rw [mergeTomlValuesAtPath.eq_def]
  simp only [replaced_of_plain h, switchedFeature, expandedFeature_table, isCredentialsPath_of_plain h,
    Bool.false_eq_true, if_false]
  unfold overlaid
  conv_rhs => rw [← List.foldl_attach]

lemma merge_replaced (h : plain path) (ho : base.isTable = false ∨ overlay.isTable = false) :
    mergeTomlValuesAtPath context base overlay path = overlay := by
  rw [mergeTomlValuesAtPath.eq_def]
  have hs : switchedFeature path base overlay = none := by
    unfold switchedFeature
    split
    · rw [isStructuredFeaturePath_of_plain h]
      rfl
    · rfl
  have he : expandedFeature path base overlay = base := by
    unfold expandedFeature
    split
    · rw [isStructuredFeaturePath_of_plain h]
      rfl
    · rfl
  simp only [replaced_of_plain h, hs]
  cases base <;> cases overlay <;> simp_all [TomlValue.isTable]

end

end Codex.Config
