import Codex.Config.Merge

/-! # Network denials across layers: of the spellings of a host the last one stays, whatever it says -/

namespace Codex.Config

open Codex.Entries Codex.Network List

variable {context : MergeContext}

lemma member_eq_some {value child : TomlValue} (h : value.member key = some child) :
    ∃ entries, value = .table entries ∧ get entries key = some child := by
  cases value with
  | table entries => exact ⟨entries, rfl, h⟩
  | _ => cases h

variable {path : List Text}

lemma normalizeTableKeys_eq (hd : isNetworkDomainsPath path = false)
    (hf : isShellEnvironmentFiltersPath path = false) (table : TomlTable) :
    normalizeTableKeys context path table = table := by
  unfold normalizeTableKeys
  rw [hd, hf]
  rfl

lemma isShellEnvironmentFiltersPath_of_plain (h : plain path) :
    isShellEnvironmentFiltersPath path = false := by
  unfold isShellEnvironmentFiltersPath
  split
  · rename_i policy _
    rw [beq_eq_false_iff_ne.mpr (h policy rfl).2.2]
    rfl
  · rfl

lemma member_merge (hp : plain path) (hd : isNetworkDomainsPath path = false) (hdi : overlay.DistinctKeys)
    (hb : base.member key = some baseChild) (ho : overlay.member key = some overlayChild) :
    (mergeTomlValuesAtPath context base overlay path).member key =
      some (mergeTomlValuesAtPath context baseChild overlayChild (path ++ [key])) := by
  obtain ⟨_, rfl, hbg⟩ := member_eq_some hb
  obtain ⟨_, rfl, hog⟩ := member_eq_some ho
  have hf := isShellEnvironmentFiltersPath_of_plain hp
  cases hdi with
  | table _ hn _ =>
    rw [merge_tables hp, normalizeTableKeys_eq hd hf, normalizeTableKeys_eq hd hf]
    show get _ key = _
    rw [get_overlaid _ hn, hog, hbg]
    rfl

lemma lookup_merge (hpa : path ≠ []) (hp : plain path)
    (hdo : ∀ pre after, rest = pre ++ after → after ≠ [] → isNetworkDomainsPath (path ++ pre) = false)
    (hd : overlay.DistinctKeys) (hb : base.lookup rest = some baseValue)
    (ho : overlay.lookup rest = some overlayValue) :
    (mergeTomlValuesAtPath context base overlay path).lookup rest =
      some (mergeTomlValuesAtPath context baseValue overlayValue (path ++ rest)) := by
  -- Along the path: a merge at one table is a merge of the members one key further down.
  induction rest generalizing path base overlay with
  | nil =>
    cases hb
    cases ho
    rw [append_nil]
    rfl
  | cons key rest ih => ?_
  obtain ⟨baseChild, hbc, hb⟩ := Option.bind_eq_some_iff.mp hb
  obtain ⟨overlayChild, hoc, ho⟩ := Option.bind_eq_some_iff.mp ho
  have hh := hdo [] (key :: rest) rfl (by simp)
  rw [append_nil] at hh
  have hp' : plain (path ++ [key]) := by
    intro start hs
    rw [head?_append_of_ne_nil _ hpa] at hs
    exact hp start hs
  have hbe : ∀ pre after, rest = pre ++ after → after ≠ [] →
      isNetworkDomainsPath (path ++ [key] ++ pre) = false := by
    intro pre after heq ha
    have := hdo (key :: pre) after (by rw [heq]; rfl) ha
    simpa using this
  have hc := ih (by simp) hp' hbe (hd.member hoc) hb ho
  rw [TomlValue.lookup, member_merge hp hh hd hbc hoc]
  show (mergeTomlValuesAtPath context baseChild overlayChild (path ++ [key])).lookup rest = _
  rw [hc, append_assoc]
  rfl

lemma get_mergeTomlValues (context : MergeContext) (base : TomlTable) {overlay : TomlTable}
    (hn : (overlay.map (·.1)).Nodup) :
    ∃ merged, mergeTomlValues context (.table base) (.table overlay) = .table merged ∧ ∀ key, unaliased key →
      get merged key = match get overlay key with
        | some value => some ((get base key).elim value fun existing =>
            mergeTomlValuesAtPath context existing value [key])
        | none => get base key := by
  have ht : plain [] := by
    intro key hk
    cases hk
  have hn : ((normalizeEntries [] overlay).map (·.1)).Nodup := by
    rw [keys_normalizeEntries]
    exact hn
  refine ⟨overlaid (fun key existing value => mergeTomlValuesAtPath context existing value [key])
    (normalizeBaseEntries [] base (normalizeEntries [] overlay)) (normalizeEntries [] overlay), ?_, fun key hk => ?_⟩
  · simp only [mergeTomlValues]
    rw [normalizeKeyAliases_table, normalizeBaseKeyAliases, normalizeTableKeyAliases_of_length (by simp),
      merge_tables ht, normalizeTableKeys_eq rfl rfl, normalizeTableKeys_eq rfl rfl]
    rfl
  · rw [get_overlaid _ hn, get_normalizeKeyAliases hk, get_normalizeBaseEntries hk]
    cases get overlay key <;> rfl

lemma lookup_mergeTomlValues {key : Text} {rest : List Text} {base baseValue overlayValue : TomlValue}
    {overlay : TomlDocument} (hu : unaliased key) (hp : plain [key])
    (hdo : ∀ pre after, rest = pre ++ after → after ≠ [] → isNetworkDomainsPath (key :: pre) = false)
    (hb : base.lookup (key :: rest) = some baseValue)
    (ho : overlay.value.lookup (key :: rest) = some overlayValue) :
    (mergeTomlValues context base overlay.value).lookup (key :: rest) =
      some (mergeTomlValuesAtPath context baseValue overlayValue (key :: rest)) := by
  obtain ⟨baseChild, hbc, hbr⟩ := Option.bind_eq_some_iff.mp hb
  obtain ⟨overlayChild, hoc, hov⟩ := Option.bind_eq_some_iff.mp ho
  have hd := overlay.distinct.member hoc
  obtain ⟨baseTable, rfl, hbg⟩ := member_eq_some hbc
  obtain ⟨overlayTable, hv, hog⟩ := member_eq_some hoc
  have hn : (overlayTable.map (·.1)).Nodup := by
    have := overlay.distinct
    rw [hv] at this
    cases this with
    | table _ hn _ => exact hn
  obtain ⟨merged, hm, hg⟩ := get_mergeTomlValues context baseTable hn
  have hme : (mergeTomlValues context (.table baseTable) overlay.value).member key =
      some (mergeTomlValuesAtPath context baseChild overlayChild [key]) := by
    rw [hv, hm]
    show get merged key = _
    rw [hg key hu, hog, hbg]
    rfl
  rw [TomlValue.lookup, hme]
  show (mergeTomlValuesAtPath context baseChild overlayChild [key]).lookup rest = _
  rw [lookup_merge (by simp) hp hdo hd hbr hov]
  rfl

/-! ## Tables of domains -/

section

variable (table : TomlTable)

def lastSpelling (host : Text) : Option TomlValue := last normalizeHost table host

/-- No key of the table is the host. -/
def Unnamed (host : Text) : Prop := ∀ e ∈ table, normalizeHost e.1 ≠ host

def denied : TomlValue := .string "deny"

/-- Some key of the table denies the host. -/
def Denies (host : Text) : Prop := ∃ e ∈ table, normalizeHost e.1 = host ∧ e.2 = denied

lemma isNetworkDomainsPath_cases (h : isNetworkDomainsPath path) :
    (∃ profile, path = ["permissions".toList, profile, "network".toList, "domains".toList]) ∨
      path = ["application".toList, "network".toList, "domains".toList] := by
  unfold isNetworkDomainsPath at h
  split at h
  · simp only [Bool.and_eq_true, beq_iff_eq] at h
    obtain ⟨⟨rfl, rfl⟩, rfl⟩ := h
    exact .inl ⟨_, rfl⟩
  · simp only [Bool.and_eq_true, beq_iff_eq] at h
    obtain ⟨⟨rfl, rfl⟩, rfl⟩ := h
    exact .inr rfl
  · cases h

lemma isNetworkDomainsPath_append (h : isNetworkDomainsPath (path ++ more))
    (hm : more ≠ []) : isNetworkDomainsPath path = false := by
  rw [Bool.eq_false_iff]
  intro hp
  have hne : "permissions" ≠ "application".toList := by decide
  rcases isNetworkDomainsPath_cases hp with ⟨_, rfl⟩ | rfl
  · rcases isNetworkDomainsPath_cases h with ⟨other, heq⟩ | heq
    · have := congrArg List.length heq
      exact hm (length_eq_zero_iff.mp (by simpa using this))
    · exact hne (cons.inj heq).1
  rcases isNetworkDomainsPath_cases h with ⟨other, heq⟩ | heq
  · exact hne (cons.inj heq).1.symm
  · have := congrArg List.length heq
    exact hm (length_eq_zero_iff.mp (by simpa using this))

lemma domains_head (h : isNetworkDomainsPath path) :
    ∃ key rest, path = key :: rest ∧ unaliased key ∧ plain [key] := by
  have hpl : ∀ {key : Text}, key ≠ "features" → key ≠ "profiles" →
      key ≠ "shell_environment_policy" → plain [key] := by
    intro key hf hp hpo start hs
    cases hs
    exact ⟨hf, hp, hpo⟩
  rcases isNetworkDomainsPath_cases h with ⟨_, rfl⟩ | rfl
  all_goals exact ⟨_, _, rfl, by decide, hpl (by decide) (by decide) (by decide)⟩

lemma domains_merged {path : List Text} {base : TomlValue} {overlay : TomlDocument} {baseTable overlayTable : TomlTable}
    (hp : isNetworkDomainsPath path) (hb : base.lookup path = some (.table baseTable))
    (ho : overlay.value.lookup path = some (.table overlayTable)) :
    ∃ merged, (mergeTomlValues context base overlay.value).lookup path = some (.table merged) ∧
      ∀ host, Unnamed overlayTable host → get merged host = lastSpelling baseTable host := by
  obtain ⟨key, rest, rfl, hu, hpl⟩ := domains_head hp
  have ha : ∀ pre after, rest = pre ++ after → after ≠ [] → isNetworkDomainsPath (key :: pre) = false := by
    intro pre after heq haf
    apply isNetworkDomainsPath_append _ haf
    rw [cons_append, ← heq]
    exact hp
  have hl := @lookup_mergeTomlValues context _ _ _ _ _ _ hu hpl ha hb ho
  have hw : plain (key :: rest) := by
    intro start hs
    exact hpl start hs
  rw [merge_tables hw] at hl
  refine ⟨_, hl, fun host hun => ?_⟩
  simp only [normalizeTableKeys, hp, if_true, normalizeNetworkDomainKeys]
  rw [get_overlaid _ (nodup_rekey _), get_rekey, (last_eq_none_iff _).mpr hun, get_rekey]
  rfl

/-- What the base denies and the overlay does not name stays denied exactly if its last spelling is a denial. -/
theorem denials_kept_iff (context : MergeContext) (base overlay : TomlDocument) (path : List Text)
    (baseTable overlayTable : TomlTable) (hpath : isNetworkDomainsPath path = true)
    (hbase : base.value.lookup path = some (.table baseTable))
    (hoverlay : overlay.value.lookup path = some (.table overlayTable)) :
    (∃ merged, (mergeTomlValues context base.value overlay.value).lookup path = some (.table merged) ∧
        ∀ host, Unnamed overlayTable host → Denies baseTable host → get merged host = some denied) ↔
      ∀ host, Unnamed overlayTable host → Denies baseTable host → lastSpelling baseTable host = some denied := by
  obtain ⟨merged, hm, hh⟩ := @domains_merged context _ _ _ _ _ hpath hbase hoverlay
  constructor
  · rintro ⟨_, ho, hk⟩ host hu hd
    obtain rfl := TomlValue.table.inj (Option.some.inj (hm.symm.trans ho))
    rw [← hh host hu]
    exact hk host hu hd
  intro hl
  refine ⟨merged, hm, fun host hu hd => ?_⟩
  rw [hh host hu]
  exact hl host hu hd

def domainsOf : TomlValue :=
  .table [("permissions", .table [("dev", .table [("network", .table [("domains", .table table)])])])]

lemma domainsOf_distinct {table : TomlTable} (hn : (table.map (·.1)).Nodup)
    (hv : ∀ e ∈ table, ∃ text, e.2 = .string text) : (domainsOf table).DistinctKeys := by
  have ho : ∀ (key : Text) (child : TomlValue), child.DistinctKeys → (TomlValue.table [(key, child)]).DistinctKeys := by
    intro key child hc
    refine .table _ (nodup_singleton _) fun e he => ?_
    obtain rfl := mem_singleton.mp he
    exact hc
  refine ho _ _ (ho _ _ (ho _ _ (ho _ _ (.table _ hn fun e he => ?_))))
  obtain ⟨text, ht⟩ := hv e he
  rw [ht]
  exact .string text

def devDomains : List Text := ["permissions", "dev", "network", "domains"]

lemma lookup_domainsOf : (domainsOf table).lookup devDomains = some (.table table) := rfl

end

lemma lastSpelling_pair (first : Text × TomlValue) (key : Text) (value : TomlValue) :
    lastSpelling [first, (key, value)] (normalizeHost key) = some value :=
  (@last_concat _ _ _ [first] _ normalizeHost (key, value)).trans (if_pos rfl)

def loweredAscii : MergeContext := ⟨(·.map Char.toLower), false⟩

def overlayOfOther : TomlDocument :=
  ⟨domainsOf [("other.org", .string "allow")], domainsOf_distinct (by decide) (by simp)⟩

def baseOfTwoSpellings : TomlDocument :=
  ⟨domainsOf [("example.com", denied), ("EXAMPLE.COM", .string "allow")],
    domainsOf_distinct (by decide) (by simp [denied])⟩

def baseOfOneDenial : TomlDocument :=
  ⟨domainsOf [("EXAMPLE.COM", .string "allow"), ("example.com", denied)],
    domainsOf_distinct (by decide) (by simp [denied])⟩

lemma spelled_alike : normalizeHost "EXAMPLE.COM" = "example.com" ∧ normalizeHost "example.com" = "example.com" ∧
    normalizeHost "other.org" = "other.org" := by decide

lemma unnamed_by_other : Unnamed [("other.org", .string "allow")] "example.com" := by
  intro e he
  obtain rfl := mem_singleton.mp he
  exact spelled_alike.2.2 ▸ by decide

theorem last_denial_kept : ∃ merged,
    (mergeTomlValues loweredAscii baseOfOneDenial.value overlayOfOther.value).lookup devDomains = some (.table merged) ∧
      ∀ host, Unnamed [("other.org", .string "allow")] host →
        Denies [("EXAMPLE.COM", .string "allow"), ("example.com", denied)] host →
        get merged host = some denied := by
  refine (denials_kept_iff loweredAscii baseOfOneDenial overlayOfOther devDomains _ _ (by decide)
    (lookup_domainsOf _) (lookup_domainsOf _)).mpr ?_
  rintro host - ⟨e, he, rfl, hd⟩
  have hl : e = ("example.com".toList, denied) := by
    rcases mem_cons.mp he with rfl | he
    · exact absurd (TomlValue.string.inj hd) (by decide)
    · exact mem_singleton.mp he
  rw [hl]
  exact lastSpelling_pair ..

theorem denial_of_first_spelling_lost : ¬ ∃ merged,
    (mergeTomlValues loweredAscii baseOfTwoSpellings.value overlayOfOther.value).lookup devDomains =
        some (.table merged) ∧
      ∀ host, Unnamed [("other.org", .string "allow")] host →
        Denies [("example.com", denied), ("EXAMPLE.COM", .string "allow")] host →
        get merged host = some denied := by
  rintro ⟨merged, hm, hk⟩
  obtain ⟨other, ho, hh⟩ :=
    @domains_merged loweredAscii devDomains baseOfTwoSpellings.value overlayOfOther _ _ (by decide)
      (lookup_domainsOf _) (lookup_domainsOf _)
  obtain rfl := TomlValue.table.inj (Option.some.inj (hm.symm.trans ho))
  have hd := hk _ unnamed_by_other ⟨_, mem_cons_self, spelled_alike.2.1, rfl⟩
  rw [hh _ unnamed_by_other] at hd
  have ha := lastSpelling_pair ("example.com", denied) "EXAMPLE.COM" (.string "allow")
  exact absurd (TomlValue.string.inj (Option.some.inj (ha.symm.trans hd))) (by decide)

end Codex.Config
