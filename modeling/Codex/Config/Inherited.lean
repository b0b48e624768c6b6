import Codex.Config.Profiles

/-!
# What a profile inherits

Along a chain, the profile that is closest to the selected one and has a rule should decide it.
-/

namespace Codex.Config

open Codex.Entries Codex.Network Codex.Permissions

/-! ## The closest that has a value -/

section

variable {α β : Type} {f g : α → Option β} {l : List α}

/-- The first element with a value, and those before it. -/
def First (f : α → Option β) (l closer : List α) (x : α) : Prop :=
  (∃ further, l = closer ++ x :: further) ∧ (∀ y ∈ closer, f y = none) ∧ f x ≠ none

lemma first_cons : First f (a :: l) closer x ↔
    (closer = [] ∧ x = a ∧ f a ≠ none) ∨ ∃ rest, closer = a :: rest ∧ f a = none ∧ First f l rest x := by
  constructor
  · rintro ⟨⟨further, heq⟩, hc, hx⟩
    rcases closer with _ | ⟨b, closer⟩
    · obtain ⟨rfl, -⟩ := List.cons.inj heq
      exact .inl ⟨rfl, rfl, hx⟩
    obtain ⟨rfl, hr⟩ := List.cons.inj heq
    exact .inr ⟨closer, rfl, hc _ List.mem_cons_self, ⟨further, hr⟩, fun y hy => hc y (List.mem_cons_of_mem _ hy), hx⟩
  rintro (⟨rfl, rfl, hx⟩ | ⟨rest, rfl, ha, ⟨further, rfl⟩, hc, hx⟩)
  · exact ⟨⟨l, rfl⟩, by simp, hx⟩
  · exact ⟨⟨further, rfl⟩, by simpa [ha] using hc, hx⟩

lemma exists_first (h : l.findSome? f ≠ none) : ∃ closer x, First f l closer x := by
  obtain ⟨_, hv⟩ := Option.ne_none_iff_exists'.mp h
  obtain ⟨closer, x, further, heq, hx, hc⟩ := List.findSome?_eq_some_iff.mp hv
  exact ⟨closer, x, ⟨further, heq⟩, hc, by simp [hx]⟩

lemma First.findSome? (h : First f l closer x) : l.findSome? f = f x := by
  obtain ⟨⟨_, rfl⟩, hc, hx⟩ := h
  rw [List.findSome?_append, List.findSome?_eq_none_iff.mpr hc, List.findSome?_cons]
  cases hb : f x with
  | none => exact absurd hb hx
  | some b => rfl

lemma findSome?_eq_iff (hs : ∀ x ∈ l, f x = none ↔ g x = none) :
    l.findSome? f = l.findSome? g ↔ ∀ closer x, First g l closer x → f x = g x := by
  have hf : ∀ closer x, First g l closer x → First f l closer x := by
    rintro closer x ⟨⟨further, rfl⟩, hc, hx⟩
    refine ⟨⟨further, rfl⟩, fun y hy => (hs y (by simp [hy])).mpr (hc y hy), ?_⟩
    exact fun hn => hx ((hs x (by simp)).mp hn)
  constructor
  · intro heq closer x hx
    rw [← (hf closer x hx).findSome?, heq, hx.findSome?]
  intro ha
  by_cases hn : l.findSome? g = none
  · rw [hn, List.findSome?_eq_none_iff]
    exact fun x hx => (hs x hx).mpr (List.findSome?_eq_none_iff.mp hn x hx)
  obtain ⟨closer, x, hx⟩ := exists_first hn
  rw [hx.findSome?, (hf closer x hx).findSome?]
  exact ha closer x hx

end

/-! ## Accesses -/

/-- What a profile declares for a key: one access, which is that of the subpath `.`, or accesses by subpath. -/
inductive Declared where
  | access (mode : FileSystemAccessMode)
  | byPath (rules : Text → Option FileSystemAccessMode)

namespace Declared

def rule (subpath : Text) : Option Declared → Option FileSystemAccessMode
  | none => none
  | some (access mode) => if subpath = "." then some mode else none
  | some (byPath rules) => rules subpath

def isByPath : Option Declared → Bool
  | some (byPath _) => true
  | _ => false

def overParent : Option Declared → Option Declared → Option Declared
  | none, parent => parent
  | some (byPath rules), some (byPath inherited) => some (byPath fun subpath => (rules subpath).or (inherited subpath))
  | some child, _ => some child

/-- Every profile closer than the one that decides a rule declares nothing for its key, or both declare tables. -/
def ShapesAgree (subpath : Text) (l : List (Option Declared)) : Prop :=
  ∀ closer v, First (rule subpath) l closer v → ∀ q ∈ closer, q ≠ none → isByPath q = true ∧ isByPath v = true

variable {subpath : Text} {v : Option Declared} {l closer : List (Option Declared)}

lemma isByPath_over (parent : Option Declared) :
    isByPath (overParent (some child) parent) = isByPath (some child) := by
  cases child with
  | access mode => rfl
  | byPath rules => ?_
  cases parent with
  | none => rfl
  | some parent => cases parent <;> rfl

lemma rule_overParent (h : rule subpath v = some mode) (parent : Option Declared) :
    rule subpath (overParent v parent) = some mode := by
  match v, parent with
  | none, _ => cases h
  | some (access _), none | some (access _), some _ | some (byPath _), none | some (byPath _), some (access _) =>
    exact h
  | some (byPath rules), some (byPath inherited) =>
    show (rules subpath).or _ = _
    rw [show rules subpath = some mode from h]
    rfl

lemma ShapesAgree.tail (h : ShapesAgree subpath (v :: l)) (hv : rule subpath v = none) : ShapesAgree subpath l := by
  intro closer w hf q hq
  exact h (v :: closer) w (first_cons.mpr (.inr ⟨closer, rfl, hv, hf⟩)) q (List.mem_cons_of_mem _ hq)

lemma ShapesAgree.isByPath (h : ShapesAgree subpath l) (hf : First (rule subpath) l closer w) :
    Declared.isByPath (l.foldr overParent none) = Declared.isByPath w := by
  induction l generalizing closer with
  | nil =>
    obtain ⟨⟨_, heq⟩, -⟩ := hf
    simp at heq
  | cons v l ih => ?_
  rw [List.foldr_cons]
  rcases first_cons.mp hf with ⟨rfl, rfl, hw⟩ | ⟨_, rfl, hv, hr⟩
  · cases w with
    | none => cases hw rfl
    | some child => exact isByPath_over _
  rcases v with _ | child
  · exact ih (h.tail hv) hr
  obtain ⟨hc, hw⟩ := h _ w hf (some child) List.mem_cons_self (by simp)
  rw [isByPath_over, hc, hw]

lemma rule_foldr_iff : rule subpath (l.foldr overParent none) = l.findSome? (rule subpath) ↔ ShapesAgree subpath l := by
  induction l with
  | nil =>
    refine ⟨fun _ closer v hf => ?_, fun _ => rfl⟩
    obtain ⟨⟨_, heq⟩, -⟩ := hf
    simp at heq
  | cons v l ih => ?_
  rw [List.foldr_cons, List.findSome?_cons]
  cases hv : rule subpath v with
  | some mode =>
    refine ⟨fun _ closer w hf => ?_, fun _ => rule_overParent hv _⟩
    rcases first_cons.mp hf with ⟨rfl, -⟩ | ⟨_, -, hn, -⟩
    · simp
    · rw [hv] at hn
      cases hn
  | none => ?_
  have hc : ShapesAgree subpath (v :: l) ↔ ∀ closer w, First (rule subpath) l closer w →
      ∀ q ∈ v :: closer, q ≠ none → isByPath q ∧ isByPath w := by
    constructor
    · exact fun h closer w hf => h _ w (first_cons.mpr (.inr ⟨closer, rfl, hv, hf⟩))
    intro h closer w hf
    rcases first_cons.mp hf with ⟨-, rfl, hw⟩ | ⟨rest, rfl, -, hr⟩
    · exact absurd hv hw
    · exact h rest w hr
  match v with
  | none =>
    refine ih.trans ⟨fun h => hc.mpr fun closer w hf q hq hne => ?_, fun h => h.tail hv⟩
    rcases List.mem_cons.mp hq with rfl | hq
    · cases hne rfl
    · exact h closer w hf q hq hne
  | some (access mode) =>
    -- One access covers no other subpath, so nothing below may have the rule.
    have hn : rule subpath (overParent (some (access mode)) (l.foldr overParent none)) = none := hv
    rw [hn]
    constructor
    · intro hr
      refine hc.mpr fun closer w hf => ?_
      rw [hf.findSome?] at hr
      exact absurd hr.symm hf.2.2
    intro h
    by_contra hr
    obtain ⟨closer, w, hf⟩ := exists_first (Ne.symm hr)
    exact absurd (hc.mp h closer w hf _ List.mem_cons_self (by simp)).1 (by simp [isByPath])
  | some (byPath rules) =>
    have hru : rules subpath = none := hv
    have hrul : rule subpath (overParent (some (byPath rules)) (l.foldr overParent none)) =
        if isByPath (l.foldr overParent none) then rule subpath (l.foldr overParent none) else none := by
      cases l.foldr overParent none with
      | none => simp [overParent, rule, hru]
      | some parent => cases parent <;> simp [overParent, rule, hru, isByPath]
    rw [hrul]
    constructor
    · intro heq
      refine hc.mpr fun closer w hf q hq hne => ?_
      have hs : l.findSome? (rule subpath) ≠ none := by
        rw [hf.findSome?]
        exact hf.2.2
      have hbp : isByPath (l.foldr overParent none) := by
        by_contra hbp
        rw [if_neg hbp] at heq
        exact hs heq.symm
      rw [if_pos hbp] at heq
      have ha := ih.mp heq
      have hw : isByPath w := (ha.isByPath hf).symm.trans hbp
      rcases List.mem_cons.mp hq with rfl | hq
      · exact ⟨rfl, hw⟩
      · exact ha closer w hf q hq hne
    intro h
    have ha := h.tail hv
    by_cases hn : l.findSome? (rule subpath) = none
    · rw [hn]
      split
      · rw [ih.mpr ha, hn]
      · rfl
    obtain ⟨closer, w, hf⟩ := exists_first hn
    have hw := (hc.mp h closer w hf _ List.mem_cons_self (by simp)).2
    rw [if_pos ((ha.isByPath hf).trans hw), ih.mpr ha]

end Declared

/-! ## Merging two profiles -/

section

variable {context : MergeContext} {key : Text}

def holdsRules (key : Text) : Prop := key = filesystemKey ∨ key = networkKey

lemma plain_of_holdsRules (h : holdsRules key) (rest : List Text) : plain (key :: rest) := by
  intro start hs
  cases hs
  rcases h with rfl | rfl <;> exact ⟨by decide, by decide, by decide⟩

lemma unaliased_of_holdsRules (h : holdsRules key) : unaliased key := by
  rcases h with rfl | rfl <;> decide

lemma notDomains_of_holdsRules (h : holdsRules key) (rest : List Text) :
    isNetworkDomainsPath (key :: rest) = false := by
  rw [Bool.eq_false_iff]
  intro hp
  rcases h with rfl | rfl
  all_goals
    rcases isNetworkDomainsPath_cases hp with ⟨_, heq⟩ | heq
    all_goals exact absurd (List.cons.inj heq).1 (by decide)

lemma merge_below (h : holdsRules key) (rest : List Text) (base overlay : TomlTable) :
    mergeTomlValuesAtPath context (.table base) (.table overlay) (key :: rest) =
      .table (overlaid
        (fun name existing value => mergeTomlValuesAtPath context existing value (key :: (rest ++ [name])))
        base overlay) := by
  have hd := notDomains_of_holdsRules h rest
  have hf := isShellEnvironmentFiltersPath_of_plain (plain_of_holdsRules h rest)
  rw [merge_tables (plain_of_holdsRules h rest), normalizeTableKeys_eq hd hf, normalizeTableKeys_eq hd hf]
  rfl

lemma get_merge_words (h : holdsRules key) (rest : List Text) {base overlay : TomlTable}
    (hn : (overlay.map (·.1)).Nodup) (hw : ∀ e ∈ overlay, e.2.isTable = false) (name : Text) :
    get (overlaid (fun name existing value => mergeTomlValuesAtPath context existing value (key :: (rest ++ [name])))
      base overlay) name = (get overlay name).or (get base name) := by
  rw [get_overlaid _ hn]
  rcases hg : get overlay name with _ | value
  · rfl
  cases get base name with
  | none => rfl
  | some existing =>
    exact congrArg some (merge_replaced (plain_of_holdsRules h _) (.inr (hw _ (mem_of_get hg))))

end

def declared : TomlValue → Option Declared
  | .table table => some (.byPath fun subpath => (get table subpath).bind readMode)
  | value => (readMode value).map .access

variable {domains profile : TomlTable} {value : TomlValue}

lemma isTable_of_readMode (h : (readMode value).isSome) : value.isTable = false := by
  cases value with
  | string text => rfl
  | _ => cases h

lemma declared_of_readMode (h : (readMode value).isSome) :
    ∃ mode, declared value = some (.access mode) := by
  obtain ⟨mode, hm⟩ := Option.isSome_iff_exists.mp h
  cases value with
  | string text => exact ⟨mode, by rw [declared, hm]; rfl; simp⟩
  | _ => cases h

lemma overParent_none (v : Option Declared) : Declared.overParent v none = v := by
  match v with
  | none | some (.access _) | some (.byPath _) => rfl

lemma TomlValue.DistinctKeys.nodup {table : TomlTable} (h : (TomlValue.table table).DistinctKeys) :
    (table.map (·.1)).Nodup := by
  cases h with
  | table _ hn _ => exact hn

lemma declared_merge (hpa : readsPermission parent) (hc : readsPermission child) (hdi : child.DistinctKeys) :
    declared (mergeTomlValuesAtPath context parent child (filesystemKey :: rest)) =
      Declared.overParent (declared child) (declared parent) := by
  have hp := plain_of_holdsRules (.inl rfl : holdsRules filesystemKey) rest
  by_cases hct : child.isTable
  · by_cases hpt : parent.isTable
    · cases child with
      | table childTable => ?_
      | _ => cases hct
      cases parent with
      | table parentTable => ?_
      | _ => cases hpt
      have hw : ∀ e ∈ childTable, e.2.isTable = false := fun e he =>
        isTable_of_readMode (List.all_eq_true.mp hc e he)
      rw [merge_below (.inl rfl)]
      simp only [declared, Declared.overParent]
      congr 2
      funext subpath
      rw [get_merge_words (.inl rfl) rest hdi.nodup hw]
      rcases hg : get childTable subpath with _ | value
      · rfl
      obtain ⟨mode, hm⟩ := Option.isSome_iff_exists.mp (List.all_eq_true.mp hc _ (mem_of_get hg))
      simp [hm]
    rw [merge_replaced hp (.inl (Bool.eq_false_iff.mpr hpt))]
    cases child with
    | table childTable => ?_
    | _ => cases hct
    have hm : (readMode parent).isSome := by
      cases parent with
      | table _ => cases hpt rfl
      | _ => exact hpa
    obtain ⟨mode, hd⟩ := declared_of_readMode hm
    rw [hd]
    rfl
  rw [merge_replaced hp (.inr (Bool.eq_false_iff.mpr hct))]
  have hm : (readMode child).isSome := by
    cases child with
    | table _ => cases hct rfl
    | _ => exact hc
  obtain ⟨mode, hd⟩ := declared_of_readMode hm
  rw [hd]
  cases declared parent <;> rfl

def view (profile : TomlTable) (key : Text) : Option Declared :=
  ((get profile filesystemKey).bind (·.member key)).bind declared

/-! ## What merging makes of accesses and of domains -/

lemma get_normalizeProfileNetworkDomains (profile : TomlTable) (hne : key ≠ networkKey) :
    get (normalizeProfileNetworkDomains profile) key = get profile key := by
  unfold normalizeProfileNetworkDomains
  split
  · split
    · rw [get_insert, if_neg hne]
    · rfl
  · rfl

lemma nodup_normalizeProfileNetworkDomains (h : (profile.map (·.1)).Nodup) :
    ((normalizeProfileNetworkDomains profile).map (·.1)).Nodup := by
  unfold normalizeProfileNetworkDomains
  split
  · split
    · exact nodup_insert h
    · exact h
  · exact h

variable {context : MergeContext} {readsOther : TomlTable → Bool} {parent merged : TomlTable}
  {child : PermissionProfileToml}

lemma mergePermissionProfiles_ok (h : mergePermissionProfiles context readsOther parent child.table = .ok merged) :
    readsProfile readsOther merged ∧ ∀ key, holdsRules key → get merged key =
      match get (mergedChild parent child.table) key with
      | some value => some ((get (mergedParent parent child.table) key).elim value fun existing =>
          mergeTomlValuesAtPath context existing value [key])
      | none => get (mergedParent parent child.table) key := by
  have hn : ((mergedChild parent child.table).map (·.1)).Nodup := by
    unfold mergedChild
    split
    · exact nodup_normalizeProfileNetworkDomains child.distinct.nodup
    · exact child.distinct.nodup
  obtain ⟨table, ht, hg⟩ := get_mergeTomlValues context (mergedParent parent child.table) hn
  have hm : mergePermissionProfiles context readsOther parent child.table =
      if readsProfile readsOther table then .ok table else .error .deserializeProfileToml := by
    unfold mergePermissionProfiles
    rw [ht]
  rw [hm] at h
  split at h
  · rename_i hr
    cases h
    exact ⟨hr, fun key hk => hg key (unaliased_of_holdsRules hk)⟩
  · cases h

lemma get_described (h : holdsRules key) : get (remove (remove parent "description") "extends") key =
    get parent key := by
  rcases h with rfl | rfl <;> rw [get_remove, if_neg (by decide), get_remove, if_neg (by decide)]

lemma get_mergedParent_filesystem : get (mergedParent parent child.table) filesystemKey = get parent filesystemKey := by
  have hr := @get_described parent filesystemKey (.inl rfl)
  simp only [mergedParent]
  split
  · rw [get_normalizeProfileNetworkDomains _ (by decide), hr]
  · exact hr

lemma get_mergedChild_filesystem :
    get (mergedChild parent child.table) filesystemKey = get child.table filesystemKey := by
  unfold mergedChild
  split
  · exact get_normalizeProfileNetworkDomains _ (by decide)
  · rfl

lemma table_of_readsFilesystem (h : readsFilesystem value) : ∃ table, value = .table table := by
  cases value with
  | table table => exact ⟨table, rfl⟩
  | _ => cases h

lemma readsPermission_of_get {table : TomlTable} (h : readsFilesystem (.table table))
    (hg : get table key = some value) :
    (key = globScanMaxDepthKey ∧ ∃ depth, value = .integer depth) ∨
      (key ≠ globScanMaxDepthKey ∧ readsPermission value) := by
  have := List.all_eq_true.mp h _ (mem_of_get hg)
  by_cases hk : key = globScanMaxDepthKey
  · rw [if_pos hk] at this
    cases value with
    | integer depth => exact .inl ⟨hk, depth, rfl⟩
    | _ => cases this
  · rw [if_neg hk] at this
    exact .inr ⟨hk, this⟩

lemma view_merge (h : mergePermissionProfiles context readsOther parent child.table = .ok merged)
    (hpa : (get parent filesystemKey).all readsFilesystem) (key : Text) :
    view merged key = Declared.overParent (view child.table key) (view parent key) := by
  have hg := (mergePermissionProfiles_ok h).2 filesystemKey (.inl rfl)
  rw [get_mergedChild_filesystem, get_mergedParent_filesystem] at hg
  unfold view
  rw [hg]
  have hch := child.filesystem
  rcases hc : get child.table filesystemKey with _ | childValue
  · rfl
  rw [hc] at hch
  obtain ⟨childTable, rfl⟩ := table_of_readsFilesystem hch
  have hd := child.distinct.member (show (TomlValue.table child.table).member _ = _ from hc)
  rcases hp : get parent filesystemKey with _ | parentValue
  · exact (overParent_none _).symm
  rw [hp] at hpa
  obtain ⟨parentTable, rfl⟩ := table_of_readsFilesystem hpa
  simp only [Option.elim_some]
  rw [merge_below (.inl rfl)]
  show (get _ key).bind declared = Declared.overParent ((get childTable key).bind declared)
    ((get parentTable key).bind declared)
  rw [get_overlaid _ hd.nodup]
  rcases hck : get childTable key with _ | value
  · rfl
  rcases hpk : get parentTable key with _ | existing
  · exact (overParent_none _).symm
  rcases readsPermission_of_get hch hck with ⟨rfl, _, rfl⟩ | ⟨hne, hr⟩
  · rcases readsPermission_of_get hpa hpk with ⟨-, _, rfl⟩ | ⟨hne, -⟩
    · simp only [Option.elim_some]
      rw [merge_replaced (plain_of_holdsRules (.inl rfl) _) (.inr rfl)]
      rfl
    · cases hne rfl
  rcases readsPermission_of_get hpa hpk with ⟨heq, -⟩ | ⟨-, hr'⟩
  · exact absurd heq hne
  · exact declared_merge hr' hr
      (hd.member (show (TomlValue.table childTable).member key = some value from hck))

def spelled (domains : TomlTable) (host : Text) : Option TomlValue := last normalizeHost (inKeyOrder domains) host

lemma domainsOfProfile_eq_some : domainsOfProfile profile = some domains ↔
    ∃ network, get profile networkKey = some (.table network) ∧ get network domainsKey = some (.table domains) := by
  unfold domainsOfProfile
  constructor
  · intro h
    split at h
    · rename_i hf
      cases h
      obtain ⟨value, hv, hm⟩ := Option.bind_eq_some_iff.mp hf
      obtain ⟨network, rfl, hg⟩ := member_eq_some hm
      exact ⟨network, hv, hg⟩
    · cases h
  · rintro ⟨network, hn, hd⟩
    rw [hn, Option.bind_some, show (TomlValue.table network).member domainsKey = _ from hd]

lemma readsNetwork_cases (h : (get profile networkKey).all readsNetwork) :
    get profile networkKey = none ∨ ∃ network, get profile networkKey = some (.table network) ∧
      ((domainsOfProfile profile = none ∧ get network domainsKey = none) ∨ ∃ domains,
        domainsOfProfile profile = some domains ∧ get network domainsKey = some (.table domains) ∧
        ∀ e ∈ domains, (readDomain e.2).isSome) := by
  rcases hg : get profile networkKey with _ | value
  · exact .inl rfl
  rw [hg] at h
  cases value with
  | table network => ?_
  | _ => cases h
  refine .inr ⟨network, rfl, ?_⟩
  have h : (get network domainsKey).all readsDomains := h
  rcases hd : get network domainsKey with _ | found
  · refine .inl ⟨?_, rfl⟩
    rcases hn : domainsOfProfile profile with _ | domains
    · rfl
    obtain ⟨_, ho, hs⟩ := domainsOfProfile_eq_some.mp hn
    obtain rfl := TomlValue.table.inj (Option.some.inj (hg.symm.trans ho))
    rw [hd] at hs
    cases hs
  rw [hd] at h
  cases found with
  | table domains =>
    exact .inr ⟨domains, domainsOfProfile_eq_some.mpr ⟨network, hg, hd⟩, rfl, List.all_eq_true.mp h⟩
  | _ => cases h

lemma domainsOfProfile_none (h : get profile networkKey = none) : domainsOfProfile profile = none := by
  unfold domainsOfProfile
  rw [h]
  rfl

lemma domainsOfProfile_table {network : TomlTable} (h : get profile networkKey = some (.table network)) :
    domainsOfProfile profile = match get network domainsKey with
      | some (.table domains) => some domains
      | _ => none := by
  unfold domainsOfProfile
  rw [h]
  rfl

lemma isTable_of_readDomain (h : (readDomain value).isSome) : value.isTable = false := by
  cases value with
  | string text => rfl
  | _ => cases h

lemma readable_of_profile (h : domainsOfProfile child.table = some domains) :
    ∀ e ∈ domains, (readDomain e.2).isSome := by
  rcases readsNetwork_cases child.network with hn | ⟨network, -, ⟨hn, -⟩ | ⟨_, hs, -, hr⟩⟩
  · rw [domainsOfProfile_none hn] at h
    cases h
  · rw [hn] at h
    cases h
  · obtain rfl := Option.some.inj (hs.symm.trans h)
    exact hr

lemma get_mergedParent_network (h : ¬ ((domainsOfProfile parent).isSome && (domainsOfProfile child.table).isSome)) :
    get (mergedParent parent child.table) networkKey = get parent networkKey := by
  simp only [mergedParent]
  rw [if_neg h, get_described (.inr rfl)]

lemma domains_merge_one (h : mergePermissionProfiles context readsOther parent child.table = .ok merged)
    (hp : (get parent networkKey).all readsNetwork)
    (ho : domainsOfProfile child.table = none ∨ domainsOfProfile parent = none) :
    domainsOfProfile merged = (domainsOfProfile child.table).or (domainsOfProfile parent) := by
  have hb : ¬ ((domainsOfProfile parent).isSome && (domainsOfProfile child.table).isSome) := by
    rcases ho with hn | hn <;> simp [hn]
  have hg := (mergePermissionProfiles_ok h).2 networkKey (.inr rfl)
  rw [get_mergedParent_network hb, mergedChild, if_neg hb] at hg
  rcases readsNetwork_cases child.network with hc | ⟨childNetwork, hc, hcd⟩
  · rw [hc] at hg
    rw [domainsOfProfile_none hc, Option.none_or]
    unfold domainsOfProfile
    rw [hg]
  rw [hc] at hg
  rcases readsNetwork_cases hp with hn | ⟨_, hs, hpd⟩
  · rw [hn] at hg
    rw [domainsOfProfile_none hn, Option.or_none]
    unfold domainsOfProfile
    rw [hg, hc]
    rfl
  have hnod := (child.distinct.member (show (TomlValue.table child.table).member _ = _ from hc)).nodup
  rw [hs] at hg
  simp only [Option.elim_some] at hg
  rw [merge_below (.inr rfl)] at hg
  rw [domainsOfProfile_table hg, get_overlaid _ hnod]
  rcases hcd with ⟨hno, hnd⟩ | ⟨_, hy, hyd, -⟩
  · rw [hno, hnd, Option.none_or, domainsOfProfile_table hs]
  rcases hpd with ⟨hno, hnd⟩ | ⟨_, hy', -, -⟩
  · rw [hy, hyd, hnd]
    rfl
  rcases ho with hn | hn
  · rw [hy] at hn
    cases hn
  · rw [hy'] at hn
    cases hn

lemma get_normalized_network {network : TomlTable}
    (hn : get profile networkKey = some (.table network))
    (hd : get network domainsKey = some (.table domains)) :
    get (normalizeProfileNetworkDomains profile) networkKey =
      some (.table (insert network domainsKey (.table (rekey normalizeHost (inKeyOrder domains))))) := by
  unfold normalizeProfileNetworkDomains
  simp only [hn, hd]
  rw [get_insert, if_pos rfl]

lemma domains_merge_both (h : mergePermissionProfiles context readsOther parent child.table = .ok merged)
    (hc : domainsOfProfile child.table = some childDomains) (hp : domainsOfProfile parent = some parentDomains) :
    ∃ domains, domainsOfProfile merged = some domains ∧ (domains.map (·.1)).Nodup ∧
      ∀ host, get domains host = (spelled childDomains host).or (spelled parentDomains host) := by
  have hb : ((domainsOfProfile parent).isSome && (domainsOfProfile child.table).isSome) := by
    simp [hc, hp]
  have hg := (mergePermissionProfiles_ok h).2 networkKey (.inr rfl)
  obtain ⟨childNetwork, hcn, hcd⟩ := domainsOfProfile_eq_some.mp hc
  obtain ⟨parentNetwork, hpn, hpd⟩ := domainsOfProfile_eq_some.mp hp
  have hr := (get_described (.inr rfl)).trans hpn
  simp only [mergedParent, mergedChild, if_pos hb] at hg
  rw [get_normalized_network hcn hcd, get_normalized_network hr hpd] at hg
  simp only [Option.elim_some] at hg
  have hn := (child.distinct.member (show (TomlValue.table child.table).member _ = _ from hcn)).nodup
  have hw : ∀ e ∈ rekey normalizeHost (inKeyOrder childDomains), e.2.isTable = false := by
    intro e he
    obtain ⟨e', he', -, hv⟩ := mem_rekey _ he
    rw [← hv]
    exact isTable_of_readDomain (readable_of_profile hc e' ((List.mergeSort_perm _ _).mem_iff.mp he'))
  rw [merge_below (.inr rfl)] at hg
  refine ⟨overlaid (fun name existing value =>
      mergeTomlValuesAtPath context existing value (networkKey :: ([domainsKey] ++ [name])))
    (rekey normalizeHost (inKeyOrder parentDomains)) (rekey normalizeHost (inKeyOrder childDomains)),
    ?_, nodup_overlaid _ (nodup_rekey _), fun host => ?_⟩
  · rw [domainsOfProfile_table hg, get_overlaid _ (nodup_insert hn), get_insert, get_insert, if_pos rfl, if_pos rfl]
    simp only [Option.elim_some, List.nil_append]
    rw [merge_below (.inr rfl)]
  · rw [get_merge_words (.inr rfl) [domainsKey] (nodup_rekey _) hw, get_rekey, get_rekey]
    rfl

/-! ## Rules of a chain -/

def filesystemRule (profile : TomlTable) (key subpath : Text) : Option FileSystemAccessMode :=
  Declared.rule subpath (view profile key)

/-- What a table says of a host under all its spellings: a denial wins. -/
def strongest (domains : TomlTable) (host : Text) : Option NetworkDomainPermission :=
  if domains.any fun e => normalizeHost e.1 = host ∧ readDomain e.2 = some .deny then some .deny
  else if domains.any fun e => normalizeHost e.1 = host ∧ readDomain e.2 = some .allow then some .allow
  else none

def domainRule (profile : TomlTable) (host : Text) : Option NetworkDomainPermission :=
  (domainsOfProfile profile).bind (strongest · host)

def lastWord (domains : TomlTable) (host : Text) : Option NetworkDomainPermission :=
  (spelled domains host).bind readDomain

def chainDomains (chain : List PermissionProfileToml) : List TomlTable :=
  chain.filterMap fun profile => domainsOfProfile profile.table

/-- Normalising a second time changes no host. -/
def Stable (domains : TomlTable) : Prop := ∀ e ∈ domains, normalizeHost (normalizeHost e.1) = normalizeHost e.1

def Readable (domains : TomlTable) : Prop := ∀ e ∈ domains, (readDomain e.2).isSome

lemma mem_inKeyOrder : e ∈ inKeyOrder domains ↔ e ∈ domains :=
  (List.mergeSort_perm _ _).mem_iff

lemma readDomain_cases (h : (readDomain value).isSome) :
    readDomain value = some .deny ∨ readDomain value = some .allow := by
  cases value with
  | string text => ?_
  | _ => cases h
  simp only [readDomain] at h ⊢
  by_cases ha : text = "allow"
  · exact .inr (if_pos ha)
  rw [if_neg ha] at h ⊢
  by_cases hd : text = "deny"
  · exact .inl (if_pos hd)
  · rw [if_neg hd] at h
    cases h

lemma lastWord_eq_none_iff (h : Readable domains) :
    lastWord domains host = none ↔ strongest domains host = none := by
  have hl : lastWord domains host = none ↔ ∀ e ∈ domains, normalizeHost e.1 ≠ host := by
    unfold lastWord spelled
    rcases hs : last normalizeHost (inKeyOrder domains) host with _ | value
    · have := (last_eq_none_iff _).mp hs
      exact ⟨fun _ e he => this e (mem_inKeyOrder.mpr he), fun _ => rfl⟩
    obtain ⟨e, he, hh, rfl⟩ := last_eq_some _ hs
    have he := mem_inKeyOrder.mp he
    obtain ⟨word, hw⟩ := Option.isSome_iff_exists.mp (h e he)
    refine ⟨fun hn => ?_, fun hal => absurd hh (hal e he)⟩
    rw [Option.bind_some, hw] at hn
    cases hn
  rw [hl]
  unfold strongest
  constructor
  · intro hal
    rw [if_neg (by simpa using fun a v he heq => absurd heq (hal _ he)),
      if_neg (by simpa using fun a v he heq => absurd heq (hal _ he))]
  intro hn e he hh
  split at hn
  · cases hn
  rename_i hd
  split at hn
  · cases hn
  rename_i ha
  rcases readDomain_cases (h e he) with hw | hw
  · exact hd (List.any_eq_true.mpr ⟨e, he, decide_eq_true ⟨hh, hw⟩⟩)
  · exact ha (List.any_eq_true.mpr ⟨e, he, decide_eq_true ⟨hh, hw⟩⟩)

lemma spelled_of_normal (hno : (domains.map (·.1)).Nodup) (hn : ∀ e ∈ domains, normalizeHost e.1 = e.1) (host : Text) :
    spelled domains host = get domains host := by
  unfold spelled
  rcases hs : last normalizeHost (inKeyOrder domains) host with _ | value
  · refine (get_eq_none_iff.mpr fun e he heq => ?_).symm
    exact (last_eq_none_iff _).mp hs e (mem_inKeyOrder.mpr he) ((hn e he).trans heq)
  obtain ⟨e, he, hh, rfl⟩ := last_eq_some _ hs
  have he := mem_inKeyOrder.mp he
  rw [← hh, hn e he, get_of_mem hno he]

lemma strongest_of_normal (hno : (domains.map (·.1)).Nodup)
    (hn : ∀ e ∈ domains, normalizeHost e.1 = e.1) (host : Text) :
    strongest domains host = (get domains host).bind readDomain := by
  have hw : ∀ word, (domains.any fun e => normalizeHost e.1 = host ∧ readDomain e.2 = some word) ↔
      (get domains host).bind readDomain = some word := by
    intro word
    rw [List.any_eq_true, Option.bind_eq_some_iff]
    constructor
    · rintro ⟨e, he, hde⟩
      obtain ⟨hh, hr⟩ := of_decide_eq_true hde
      exact ⟨e.2, by rw [← hh, hn e he, get_of_mem hno he], hr⟩
    · rintro ⟨value, hg, hr⟩
      exact ⟨_, mem_of_get hg, decide_eq_true ⟨hn _ (mem_of_get hg), hr⟩⟩
  unfold strongest
  split
  · rename_i hd
    exact ((hw _).mp hd).symm
  rename_i hd
  split
  · rename_i ha
    exact ((hw _).mp ha).symm
  rename_i ha
  rcases hg : (get domains host).bind readDomain with _ | word
  · rfl
  obtain ⟨value, -, hr⟩ := Option.bind_eq_some_iff.mp hg
  rcases readDomain_cases (by rw [hr]; rfl) with hw' | hw'
  · exact absurd ((hw _).mpr (hg.trans (hr.symm.trans hw'))) hd
  · exact absurd ((hw _).mpr (hg.trans (hr.symm.trans hw'))) ha

structure Resolved (chain : List PermissionProfileToml) (resolved : TomlTable) : Prop where
  filesystem : (get resolved filesystemKey).all readsFilesystem = true
  network : (get resolved networkKey).all readsNetwork = true
  views : ∀ key, view resolved key = (chain.map fun profile => view profile.table key).foldr Declared.overParent none
  few : (chainDomains chain).length < 2 → domainsOfProfile resolved = (chainDomains chain).head?
  many : 2 ≤ (chainDomains chain).length → ∃ domains, domainsOfProfile resolved = some domains ∧
    (domains.map (·.1)).Nodup ∧ ∀ host, get domains host = (chainDomains chain).findSome? (spelled · host)

variable {chain : List PermissionProfileToml} {resolved : TomlTable}

lemma normal_of_many {tables : List TomlTable} (hst : ∀ d ∈ tables, Stable d)
    (hg : ∀ host, get domains host = tables.findSome? (spelled · host)) :
    ∀ e ∈ domains, normalizeHost e.1 = e.1 := by
  intro e he
  obtain ⟨_, hv⟩ := get_isSome_of_mem he
  rw [hg] at hv
  obtain ⟨d, hd, hs⟩ := List.exists_of_findSome?_eq_some hv
  obtain ⟨e', he', hh, -⟩ := last_eq_some _ hs
  rw [← hh]
  exact hst d hd e' (mem_inKeyOrder.mp he')

lemma Resolved.merge (hr : Resolved rest parent)
    (hst : 2 ≤ (chainDomains rest).length → ∀ d ∈ chainDomains rest, Stable d)
    (h : mergePermissionProfiles context readsOther parent child.table = .ok merged) :
      Resolved (child :: rest) merged := by
  have hre := (mergePermissionProfiles_ok h).1
  simp only [readsProfile, Bool.and_eq_true] at hre
  have hd : chainDomains (child :: rest) = (domainsOfProfile child.table).toList ++ chainDomains rest := by
    unfold chainDomains
    rw [List.filterMap_cons]
    cases domainsOfProfile child.table <;> rfl
  refine ⟨hre.1.1, hre.1.2, fun key => ?_, fun hf => ?_, fun hm => ?_⟩
  · rw [view_merge h hr.filesystem, hr.views]
    rfl
  · rw [hd] at hf ⊢
    rcases hc : domainsOfProfile child.table with _ | domains
    · rw [hc] at hf
      rw [domains_merge_one h hr.network (.inl hc), hc, Option.none_or]
      exact hr.few hf
    rw [hc] at hf
    have hni : chainDomains rest = [] := by
      rw [← List.length_eq_zero_iff]
      simp only [Option.toList_some, List.length_append, List.length_singleton] at hf
      omega
    have hp := hr.few (by rw [hni]; decide)
    rw [hni] at hp
    rw [domains_merge_one h hr.network (.inr hp), hc]
    rfl
  · rw [hd] at hm ⊢
    rcases hc : domainsOfProfile child.table with _ | own
    · rw [hc] at hm
      obtain ⟨domains, hs, hsp⟩ := hr.many hm
      exact ⟨domains, by rw [domains_merge_one h hr.network (.inl hc), hc, Option.none_or, hs], hsp⟩
    rw [hc] at hm
    rcases Nat.lt_or_ge (chainDomains rest).length 2 with hlt | hge
    · obtain ⟨only, ho⟩ : ∃ only, chainDomains rest = [only] := by
        apply List.length_eq_one_iff.mp
        simp only [Option.toList_some, List.length_append, List.length_singleton] at hm
        omega
      have hp := hr.few hlt
      rw [ho] at hp
      obtain ⟨domains, hs, hn, hg⟩ := domains_merge_both h hc hp
      refine ⟨domains, hs, hn, fun host => ?_⟩
      rw [hg, ho]
      simp only [Option.toList_some, List.singleton_append, List.findSome?_cons]
      cases spelled own host <;> cases spelled only host <;> rfl
    obtain ⟨_, hp, hn, hi⟩ := hr.many hge
    obtain ⟨domains, hs, hn', hg⟩ := domains_merge_both h hc hp
    refine ⟨domains, hs, hn', fun host => ?_⟩
    rw [hg, spelled_of_normal hn (normal_of_many (hst hge) hi), hi]
    simp only [Option.toList_some, List.singleton_append, List.findSome?_cons]
    cases spelled own host <;> rfl

lemma Resolved.of_mergeChain
    (hs : 2 ≤ (chainDomains chain).length → ∀ d ∈ chainDomains chain, Stable d)
      (h : mergeChain context readsOther chain = .ok resolved) :
    Resolved chain resolved := by
  induction chain generalizing resolved with
  | nil => cases h
  | cons child rest ih => ?_
  match rest with
  | [] =>
    cases h
    refine ⟨child.filesystem, child.network, fun key => (overParent_none _).symm, fun _ => ?_, fun hm => ?_⟩
    · unfold chainDomains
      rw [List.filterMap_cons]
      cases domainsOfProfile child.table <;> rfl
    · have := List.length_filterMap_le (fun profile => domainsOfProfile profile.table) [child]
      exact absurd (Nat.le_trans hm this) (Nat.lt_irrefl 1)
  | next :: rest =>
    have hs' : 2 ≤ (chainDomains (next :: rest)).length → ∀ d ∈ chainDomains (next :: rest), Stable d := by
      have hsub : (chainDomains (next :: rest)).Sublist (chainDomains (child :: next :: rest)) :=
        (List.sublist_cons_self child (next :: rest)).filterMap _
      exact fun hm d hd => hs (hm.trans hsub.length_le) d (hsub.subset hd)
    rw [mergeChain] at h
    · split at h
      · rename_i hpa
        exact (ih hs' hpa).merge hs' h
      · cases h
    · simp

lemma readable_of_chain {chain : List PermissionProfileToml} : ∀ d ∈ chainDomains chain, Readable d := by
  intro d hd
  obtain ⟨profile, -, hp⟩ := List.mem_filterMap.mp hd
  exact readable_of_profile hp

lemma findSome?_domainRule (chain : List PermissionProfileToml) (host : Text) :
    chain.findSome? (fun profile => domainRule profile.table host) =
      (chainDomains chain).findSome? (strongest · host) := by
  unfold chainDomains domainRule
  induction chain with
  | nil => rfl
  | cons profile chain ih => ?_
  rw [List.findSome?_cons, List.filterMap_cons, ih]
  cases domainsOfProfile profile.table with
  | none => rfl
  | some domains => rw [List.findSome?_cons, Option.bind_some]

lemma Resolved.filesystemRule_iff (h : Resolved chain resolved) (key subpath : Text) :
    filesystemRule resolved key subpath = chain.findSome? (fun profile => filesystemRule profile.table key subpath) ↔
      Declared.ShapesAgree subpath (chain.map fun profile => view profile.table key) := by
  rw [← Declared.rule_foldr_iff, ← h.views, List.findSome?_map]
  rfl

lemma Resolved.domainRule_many (h : Resolved chain resolved)
    (hst : ∀ d ∈ chainDomains chain, Stable d) (hm : 2 ≤ (chainDomains chain).length) (host : Text) :
    domainRule resolved host = (chainDomains chain).findSome? (lastWord · host) := by
  obtain ⟨_, hso, hn, hg⟩ := h.many hm
  unfold domainRule
  rw [hso, Option.bind_some, strongest_of_normal hn (normal_of_many hst hg), hg]
  have hr := @readable_of_chain chain
  generalize chainDomains chain = tables at hr
  -- The table that has a spelling has a word, so that looking for either stops at the same table.
  induction tables with
  | nil => rfl
  | cons d tables ih => ?_
  rw [List.findSome?_cons, List.findSome?_cons]
  unfold lastWord at ih ⊢
  rcases hs : spelled d host with _ | value
  · exact ih fun d hd => hr d (List.mem_cons_of_mem _ hd)
  obtain ⟨e, he, -, rfl⟩ := last_eq_some _ hs
  obtain ⟨word, hw⟩ := Option.isSome_iff_exists.mp (hr d List.mem_cons_self e (mem_inKeyOrder.mp he))
  simp [hw]

lemma Resolved.domainRule_few (h : Resolved chain resolved) (hf : (chainDomains chain).length < 2) (host : Text) :
    domainRule resolved host = (chainDomains chain).findSome? (strongest · host) := by
  unfold domainRule
  rw [h.few hf]
  match hd : chainDomains chain with
  | [] => rfl
  | [d] =>
    simp only [List.head?_cons, Option.bind_some, List.findSome?_cons]
    cases strongest d host <;> rfl
  | _ :: _ :: _ =>
    rw [hd] at hf
    simp at hf

/-- Every rule is the closest profile's exactly if shapes agree and the last spelling of a host says what all say. -/
theorem inherited_iff (context : MergeContext) (readsOther : TomlTable → Bool)
    {lookup : Text → Option PermissionProfileToml} {name : Text} {names : List Text}
      {chain : List PermissionProfileToml}
    (hchain : ExtendsChain lookup name names chain) {fuel : Nat} (hfuel : chain.length ≤ fuel)
    (hstable : 2 ≤ (chainDomains chain).length → ∀ d ∈ chainDomains chain, Stable d) {resolved : TomlTable}
    (hresolved : resolveProfile context readsOther lookup fuel name = .ok (some resolved)) :
    ((∀ key subpath, filesystemRule resolved key subpath =
          chain.findSome? fun profile => filesystemRule profile.table key subpath) ∧
        ∀ host, domainRule resolved host = chain.findSome? fun profile => domainRule profile.table host) ↔
      (∀ key subpath, Declared.ShapesAgree subpath (chain.map fun profile => view profile.table key)) ∧
        (2 ≤ (chainDomains chain).length → ∀ host closer d, First (strongest · host) (chainDomains chain) closer d →
          lastWord d host = strongest d host) := by
  have hmer : mergeChain context readsOther chain = .ok resolved := by
    simp only [resolveProfile, hchain.collect hfuel (fun _ _ => List.not_mem_nil) none] at hresolved
    rcases hme : mergeChain context readsOther chain with error | merged
    · rw [hme] at hresolved
      cases hresolved
    rw [hme] at hresolved
    rw [Option.some.inj (Except.ok.inj hresolved)]
  have h := Resolved.of_mergeChain hstable hmer
  refine and_congr (forall_congr' fun key => forall_congr' fun subpath => h.filesystemRule_iff key subpath) ?_
  rcases Nat.lt_or_ge (chainDomains chain).length 2 with hf | hm
  · refine iff_of_true (fun host => ?_) fun hm => absurd hm (Nat.not_le.mpr hf)
    rw [h.domainRule_few hf, findSome?_domainRule]
  rw [forall_prop_of_true hm]
  refine forall_congr' fun host => ?_
  rw [h.domainRule_many (hstable hm) hm, findSome?_domainRule]
  exact findSome?_eq_iff fun d hd => lastWord_eq_none_iff (readable_of_chain d hd)

/-! ## A profile over one that scopes its key -/

def baseTable (value : TomlValue) : TomlTable :=
  [(filesystemKey, .table [("/a", value), ("/b", .string "read")])]

def baseProfile (value : TomlValue) (hdistinct : value.DistinctKeys) (hreads : readsPermission value = true) :
    PermissionProfileToml where
  table := baseTable value
  distinct := by
    refine .table _ (List.nodup_singleton _) fun e he => ?_
    obtain rfl := List.mem_singleton.mp he
    refine .table _ (show ["/a".toList, "/b".toList].Nodup by decide) fun e he => ?_
    rcases List.mem_cons.mp he with rfl | he
    · exact hdistinct
    · obtain rfl := List.mem_singleton.mp he
      exact .string _
  filesystem := by
    show (if "/a" = globScanMaxDepthKey then _ else readsPermission value) && true = true
    rw [if_neg (by decide), hreads]
    rfl
  network := rfl

def devProfile : PermissionProfileToml where
  table := [("extends", .string "base"), (filesystemKey, .table [("/a", .string "write")])]
  distinct := by
    refine .table _ (by decide) fun e he => ?_
    rcases List.mem_cons.mp he with rfl | he
    · exact .string _
    obtain rfl := List.mem_singleton.mp he
    refine .table _ (List.nodup_singleton _) fun e he => ?_
    obtain rfl := List.mem_singleton.mp he
    exact .string _
  filesystem := rfl
  network := rfl

def twoProfiles (base : PermissionProfileToml) (name : Text) : Option PermissionProfileToml :=
  if name = "dev" then some devProfile else if name = "base" then some base else none

lemma twoProfiles_chain {base : PermissionProfileToml} (h : base.extendsName = none) :
    ExtendsChain (twoProfiles base) "dev" ["dev", "base"] [devProfile, base] :=
  .extend rfl rfl (.last rfl h) (by decide)

lemma dev_over_base (value : TomlValue) : ∃ merged,
    mergePermissionProfiles loweredAscii (fun _ => true) (baseTable value) devProfile.table = .ok merged := by
  obtain ⟨merged, hm, hg⟩ := get_mergeTomlValues loweredAscii (baseTable value) devProfile.distinct.nodup
  have hf : get merged filesystemKey =
      some (.table [("/a", .string "write"), ("/b", .string "read")]) := by
    rw [hg filesystemKey (by decide)]
    show some (mergeTomlValuesAtPath loweredAscii (.table _) (.table _) [filesystemKey]) = _
    rw [merge_below (.inl rfl) []]
    show some (TomlValue.table [("/a", mergeTomlValuesAtPath _ value (.string _) _), _]) = _
    rw [merge_replaced (plain_of_holdsRules (.inl rfl) _) (.inr rfl)]
  have hn : get merged networkKey = none := hg networkKey (by decide)
  refine ⟨merged, ?_⟩
  have hr : readsProfile (fun _ => true) merged := by
    unfold readsProfile
    rw [hf, hn]
    rfl
  unfold mergePermissionProfiles
  rw [show mergedParent (baseTable value) devProfile.table = baseTable value from rfl,
    show mergedChild (baseTable value) devProfile.table = devProfile.table from rfl, hm]
  exact if_pos hr

lemma dev_resolved {base : PermissionProfileToml} (h : base.extendsName = none) {merged : TomlTable}
    (hm : mergePermissionProfiles loweredAscii (fun _ => true) base.table devProfile.table = .ok merged) :
    resolveProfile loweredAscii (fun _ => true) (twoProfiles base) 2 "dev" = .ok (some merged) := by
  simp only [resolveProfile, (twoProfiles_chain h).collect (Nat.le_refl 2) (fun _ _ => List.not_mem_nil) none,
    mergeChain, hm]
  rfl

def readBase : PermissionProfileToml := baseProfile (.string "read") (.string _) rfl

def scopedBase : PermissionProfileToml :=
  baseProfile (.table [(".", .string "read"), ("sub", .string "deny")])
    (.table _ (by decide) fun e he => by
      rcases List.mem_cons.mp he with rfl | he
      · exact .string _
      · obtain rfl := List.mem_singleton.mp he
        exact .string _) rfl

theorem inherited_over_read : ∃ resolved,
    resolveProfile loweredAscii (fun _ => true) (twoProfiles readBase) 2 "dev" = .ok (some resolved) ∧
      (∀ key subpath, filesystemRule resolved key subpath =
        [devProfile, readBase].findSome? fun profile => filesystemRule profile.table key subpath) ∧
      ∀ host, domainRule resolved host =
        [devProfile, readBase].findSome? fun profile => domainRule profile.table host := by
  obtain ⟨resolved, hm⟩ := dev_over_base (.string "read")
  have hr := @dev_resolved readBase rfl _ hm
  have hd : chainDomains [devProfile, readBase] = [] := rfl
  refine ⟨resolved, hr, (inherited_iff _ _ (@twoProfiles_chain readBase rfl) (Nat.le_refl 2) (by simp [hd])
    hr).mpr ⟨fun key subpath closer v hf q hq hne => ?_, fun hma => absurd hma (by decide)⟩⟩
  -- What stands before the profile that decides is the first, and it names only `/a`, which both write as one access.
  rcases first_cons.mp hf with ⟨rfl, -⟩ | ⟨closer, rfl, hn, hre⟩
  · cases hq
  rcases first_cons.mp hre with ⟨rfl, rfl, hru⟩ | ⟨_, -, -, ⟨_, hni⟩, -⟩
  · obtain rfl := List.mem_singleton.mp hq
    by_cases hk : "/a" = key
    · subst hk
      have hs : subpath ≠ "." := by
        rintro rfl
        cases hn
      exact absurd (if_neg hs) hru
    refine absurd ?_ hne
    show ((get [("/a".toList, TomlValue.string "write".toList)] key).bind declared) = none
    rw [get_cons, if_neg hk]
    rfl
  · simp at hni

theorem scoped_denial_dropped : ∃ resolved,
    resolveProfile loweredAscii (fun _ => true) (twoProfiles scopedBase) 2 "dev" = .ok (some resolved) ∧
      ([devProfile, scopedBase].findSome? fun profile => filesystemRule profile.table "/a" "sub") = some .deny ∧
      filesystemRule resolved "/a" "sub" = none := by
  obtain ⟨resolved, hm⟩ := dev_over_base (.table [(".", .string "read"), ("sub", .string "deny")])
  refine ⟨resolved, @dev_resolved scopedBase rfl _ hm, rfl, ?_⟩
  unfold filesystemRule
  rw [view_merge hm scopedBase.filesystem]
  rfl

end Codex.Config
