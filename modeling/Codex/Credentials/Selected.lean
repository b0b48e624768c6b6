import Codex.Credentials.Registry

/-!
# What is put into a request

Two translations of a header can be merged, a third never can, and their order does not matter.
-/

namespace Codex.Credentials

open Codex.Entries Codex.Network List Option HeaderValue

/-! ## Splitting -/

section

variable {separator : UInt8} {bytes left right : Bytes}

lemma splitOnce_append (h : separator ∉ left) :
    splitOnce separator (left ++ separator :: right) = some (left, right) := by
  have hne : ∀ byte ∈ left, decide (byte ≠ separator) := fun byte hb =>
    decide_eq_true fun heq => h (heq ▸ hb)
  unfold splitOnce
  rw [dropWhile_append_of_pos hne, takeWhile_append_of_pos hne, dropWhile_cons_of_neg (by simp),
    takeWhile_cons_of_neg (by simp), append_nil]

lemma splitOnce_eq_some (h : splitOnce separator bytes = some (left, right)) :
    separator ∉ left ∧ bytes = left ++ separator :: right := by
  unfold splitOnce at h
  split at h
  · cases h
  rename_i byte rest hd
  cases h
  have hb : byte = separator := by
    have := head?_dropWhile_not (fun b => decide (b ≠ separator)) bytes
    rw [hd] at this
    simpa using this
  refine ⟨fun hm => by simpa using mem_takeWhile_imp hm, ?_⟩
  rw [← hb, ← hd, hb, takeWhile_append_dropWhile]

end

lemma trim_of_graphic (h : ∀ byte ∈ bytes, 32 < byte ∧ byte < 127) : trim bytes = bytes := by
  have hb : ∀ byte ∈ bytes, blank byte = false := by
    intro byte hby
    have := (h byte hby).1
    unfold blank
    rw [decide_eq_false]
    rintro (rfl | rfl) <;> exact absurd this (by decide)
  have hd : ∀ l : Bytes, (∀ byte ∈ l, blank byte = false) → l.dropWhile blank = l := by
    intro l hl
    cases l with
    | nil => rfl
    | cons byte l => rw [dropWhile_cons_of_neg (by simp [hl byte mem_cons_self])]
  unfold trim
  rw [hd bytes hb, hd _ (by simpa using hb), reverse_reverse]

lemma HeaderValue.toStr_eq_some {value text : Bytes} (h : toStr value = some text) : text = value := by
  unfold toStr at h
  split at h
  · exact (some.inj h).symm
  · cases h

lemma HeaderValue.fromStr_eq_some {value text : Bytes} (h : fromStr text = some value) : value = text := by
  unfold fromStr at h
  split at h
  · exact (some.inj h).symm
  · cases h

section

variable {hea : HeaderMap} {original : HeaderValue} {user password : Bytes}

lemma decodeBasic_eq_some (h : decodeBasic original = some (user, password)) :
    original.toStr = some original ∧ ∃ scheme value, splitOnce space original = some (scheme, value) ∧
      eqIgnoreAsciiCase scheme (ascii "basic") ∧
      Base64.decode (trim value) = some (user ++ colon :: password) ∧ colon ∉ user := by
  obtain ⟨text, ht, hr⟩ := bind_eq_some_iff.mp h
  obtain rfl := toStr_eq_some ht
  obtain ⟨⟨scheme, value⟩, hs, hp⟩ := bind_eq_some_iff.mp hr
  simp only at hp
  split at hp
  · rename_i hb
    obtain ⟨decoded, hd, hf⟩ := bind_eq_some_iff.mp hp
    obtain ⟨hc, rfl⟩ := splitOnce_eq_some hf
    exact ⟨ht, scheme, value, hs, hb, hd, hc⟩
  · cases hp

lemma toStr_basic {scheme : Bytes} (hs : ∀ byte ∈ scheme, byte = 9 ∨ 32 ≤ byte ∧ byte < 127) (bytes : Bytes) :
    toStr (scheme ++ space :: Base64.encode bytes) = some (scheme ++ space :: Base64.encode bytes) := by
  unfold toStr
  rw [if_pos]
  rw [List.all_eq_true]
  intro byte hb
  rw [decide_eq_true_iff]
  rcases mem_append.mp hb with hb | hb
  · exact hs byte hb
  rcases mem_cons.mp hb with rfl | hb
  · exact .inr ⟨by decide, by decide⟩
  · have := Base64.encode_graphic bytes byte hb
    exact .inr ⟨UInt8.le_of_lt this.1, this.2⟩

lemma decodeBasic_encode (hsp : space ∉ scheme) (hs : ∀ byte ∈ scheme, byte = 9 ∨ 32 ≤ byte ∧ byte < 127)
    (hb : eqIgnoreAsciiCase scheme (ascii "basic")) (bytes : Bytes) :
    decodeBasic (scheme ++ space :: Base64.encode bytes) = splitOnce colon bytes := by
  unfold decodeBasic
  rw [toStr_basic hs, bind_some, splitOnce_append hsp, bind_some]
  simp only [hb, if_true]
  rw [trim_of_graphic (Base64.encode_graphic bytes), Base64.decode_encode, bind_some]

def exchanged (dummy real field : Bytes) : Bytes := if field = dummy then real else field

lemma fields_of_translated {dummy real value : Bytes} (ho : get hea authorization = some original)
    (hba : decodeBasic original = some (user, password)) (hdu : colon ∉ dummy)
    (h : translateRequestHeader hea dummy real provider = some value)
    (hf : decodeBasic value = some fields) : provider = .github ∧ (user = dummy ∨ password = dummy) ∧
      splitOnce colon (exchanged dummy real user ++ colon :: exchanged dummy real password) = some fields := by
  obtain ⟨hts, scheme, rest, hsp, hs, hd, hc⟩ := decodeBasic_eq_some hba
  cases provider with
  | openai =>
    simp only [translateRequestHeader, ho, bind_some, hts] at h
    split at h
    · obtain rfl := fromStr_eq_some h
      obtain ⟨-, scheme, rest, hsp, hs, -⟩ := decodeBasic_eq_some hf
      have hb := @splitOnce_append space (ascii "Bearer") real (by decide)
      obtain ⟨rfl, -⟩ := Prod.mk.inj (some.inj (hb.symm.trans hsp))
      cases hs
    · cases h
  | github => ?_
  have hne : user ++ colon :: password ≠ dummy := by
    rintro rfl
    exact hdu (by simp)
  simp only [translateRequestHeader, ho, bind_some, hts, hsp, hs, hd,
    translateBasic, if_neg hne, splitOnce_append hc] at h
  obtain ⟨translated, ht, hva⟩ := bind_eq_some_iff.mp h
  obtain rfl := fromStr_eq_some hva
  obtain ⟨hspa, ho'⟩ := splitOnce_eq_some hsp
  have hv : ∀ byte ∈ scheme, byte = 9 ∨ 32 ≤ byte ∧ byte < 127 := by
    intro byte hby
    unfold toStr at hts
    split at hts
    · rename_i ha
      exact of_decide_eq_true (all_eq_true.mp ha byte (by simp [ho', hby]))
    · cases hts
  rw [decodeBasic_encode hspa hv hs] at hf
  split at ht
  · cases ht
  rename_i hm
  cases ht
  refine ⟨rfl, ?_, hf⟩
  by_contra hn
  exact hm ⟨fun h => hn (.inl h), fun h => hn (.inr h)⟩

lemma user_exchanged (hu : colon ∉ user) (hd : colon ∉ dummy)
    (h : splitOnce colon (exchanged dummy real user ++ colon :: exchanged dummy real password) = some (user', password))
    (hne : user' ≠ user) : user = dummy ∧ user' = real := by
  by_cases heq : user = dummy
  · refine ⟨heq, ?_⟩
    rw [show exchanged dummy real user = real from if_pos heq] at h
    by_cases hc : colon ∈ real
    · -- A value with a separator shifts the rest into the second field, which then is too long or was the dummy.
      exfalso
      obtain ⟨hu', hs⟩ := splitOnce_eq_some h
      rcases append_eq_append_iff.mp hs with ⟨rest, rfl, -⟩ | ⟨second, rfl, hp⟩
      · exact hu' (mem_append_left _ hc)
      rcases second with _ | ⟨byte, second⟩
      · exact hu' (by simpa using hc)
      obtain ⟨rfl, ht⟩ := cons.inj hp
      have hp : password = second ++ colon :: exchanged dummy _ password := ht
      by_cases hpa : password = dummy
      · apply hd
        rw [← hpa, hp]
        exact mem_append_right _ mem_cons_self
      rw [show exchanged dummy _ password = password from if_neg hpa] at hp
      have := congrArg List.length hp
      simp only [length_append, length_cons] at this
      omega
    · rw [splitOnce_append hc] at h
      exact (Prod.mk.inj (some.inj h)).1.symm
  · rw [show exchanged dummy real user = user from if_neg heq, splitOnce_append hu] at h
    exact absurd (Prod.mk.inj (some.inj h)).1.symm hne

lemma password_exchanged (hu : colon ∉ user) (hne : user ≠ dummy)
    (h : splitOnce colon (exchanged dummy real user ++ colon :: exchanged dummy real password) = some (user, password'))
    (hc : password' ≠ password) : password = dummy ∧ password' = real := by
  rw [show exchanged dummy real user = user from if_neg hne, splitOnce_append hu] at h
  have hp := (Prod.mk.inj (some.inj h)).2
  by_cases heq : password = dummy
  · exact ⟨heq, hp.symm.trans (if_pos heq)⟩
  · exact absurd (hp.symm.trans (if_neg heq)) hc

/-! ## Translations -/

abbrev Key := CredentialProvider × Bytes × HeaderValue

def keyOf {Destination : Type} (translation : Translation Destination) : Key :=
  (translation.1.provider, translation.1.realValue, translation.2.2)

variable {Destination : Type} {bound : List (CredentialRecord Destination)}

def Makes (headers : HeaderMap) (record : CredentialRecord Destination) (key : Key) : Prop :=
  record.provider = key.1 ∧ record.realValue = key.2.1 ∧
    translateRequestHeader headers record.dummyValue key.2.1 key.1 = some key.2.2

lemma mem_allTranslations :
    translation ∈ allTranslations hea bound ↔ translation.1 ∈ bound ∧ translation.2.1 = authorization ∧
      ∃ record ∈ bound, Makes hea record (keyOf translation) := by
  unfold allTranslations
  simp only [mem_flatMap, mem_filter, List.mem_map, mem_toList, decide_eq_true_eq]
  constructor
  · rintro ⟨_, hc, record, ⟨hr, hp, hre⟩, _, hv, rfl⟩
    exact ⟨hc, rfl, record, hr, hp, hre, hv⟩
  · rintro ⟨hc, hn, record, hr, hp, hre, hv⟩
    exact ⟨_, hc, record, ⟨hr, hp, hre⟩, _, hv, by rw [← hn]; rfl⟩

lemma mem_keys : key ∈ (allTranslations hea bound).map keyOf ↔
    ∃ record ∈ bound, Makes hea record key := by
  constructor
  · intro hk
    obtain ⟨_, hme, rfl⟩ := mem_map.mp hk
    exact (mem_allTranslations.mp hme).2.2
  rintro ⟨record, hr, hm⟩
  have hk : keyOf (record, authorization, key.2.2) = key := by
    unfold keyOf
    rw [hm.1, hm.2.1]
  refine mem_map.mpr ⟨(record, authorization, key.2.2), mem_allTranslations.mpr ⟨hr, rfl, record, hr, ?_⟩, hk⟩
  rw [hk]
  exact hm

lemma foldl_pushNew (translations : List (Translation Destination)) {pushed : List (Translation Destination)}
    (hna : ∀ t ∈ pushed ++ translations, t.2.1 = authorization) (hn : (pushed.map keyOf).Nodup) :
    (∀ t ∈ translations.foldl pushNew pushed, t ∈ pushed ++ translations) ∧
      ((translations.foldl pushNew pushed).map keyOf).Nodup ∧
      ∀ key, key ∈ (translations.foldl pushNew pushed).map keyOf ↔ key ∈ (pushed ++ translations).map keyOf := by
  induction translations generalizing pushed with
  | nil => simpa using hn
  | cons t translations ih => ?_
  rw [foldl_cons]
  have hs : pushed.any (sameTranslation · t) ↔ keyOf t ∈ pushed.map keyOf := by
    rw [List.any_eq_true, List.mem_map]
    refine exists_congr fun other => and_congr_right fun ho => ?_
    have hnam := (hna other (mem_append_left _ ho)).trans (hna t (mem_append_right _ mem_cons_self)).symm
    have hv : other.2 = t.2 ↔ other.2.2 = t.2.2 := ⟨congrArg _, Prod.ext hnam⟩
    unfold sameTranslation keyOf
    simp only [decide_eq_true_eq, Prod.mk.injEq, hv]
  by_cases hm : keyOf t ∈ pushed.map keyOf
  · rw [show pushNew pushed t = pushed from if_pos (hs.mpr hm)]
    obtain ⟨hsu, hn', hk⟩ := ih (fun u hu => hna u (by simp at hu ⊢; tauto)) hn
    refine ⟨fun u hu => ?_, hn', fun key => (hk key).trans ?_⟩
    · have := hsu u hu
      simp only [mem_append] at this ⊢
      tauto
    simp only [map_append, map_cons, mem_append, mem_cons]
    constructor
    · rintro (h | h) <;> simp [h]
    rintro (h | rfl | h)
    · exact .inl h
    · exact .inl hm
    · exact .inr h
  rw [show pushNew pushed t = pushed ++ [t] from if_neg fun h => hm (hs.mp h)]
  have hn' : ((pushed ++ [t]).map keyOf).Nodup := by
    rw [map_append, map_singleton]
    exact nodup_append.mpr ⟨hn, nodup_singleton _, fun a ha b hb heq =>
      hm ((heq.trans (mem_singleton.mp hb)) ▸ ha)⟩
  have hr := ih (by rwa [append_assoc]) hn'
  rw [append_assoc] at hr
  exact hr

/-! ## Merging -/

lemma mergedFields_comm (fields left right : Bytes × Bytes) :
    mergedFields fields left right = mergedFields fields right left := by
  unfold mergedFields
  split
  · rename_i h
    rw [if_neg (fun h' => h'.1 h.2.2.1)]
  split <;> rfl

lemma mergeBasicAuthFields_comm (original left right : HeaderValue) :
    mergeBasicAuthFields original left right = mergeBasicAuthFields original right left := by
  unfold mergeBasicAuthFields
  rcases decodeBasic original with _ | fields
  · rfl
  rcases decodeBasic left with _ | left
  · cases decodeBasic right <;> rfl
  cases decodeBasic right with
  | none => rfl
  | some right => simp only [bind_some, mergedFields_comm fields left right]

lemma mergeBasicAuthFields_eq_some (h : mergeBasicAuthFields original left right = some merged) :
    ∃ fields fieldsLeft fieldsRight user' password',
      decodeBasic original = some fields ∧ decodeBasic left = some fieldsLeft ∧
      decodeBasic right = some fieldsRight ∧ mergedFields fields fieldsLeft fieldsRight = some (user', password') ∧
      merged = ascii "Basic" ++ space :: Base64.encode (user' ++ colon :: password') := by
  obtain ⟨fields, hf, h⟩ := bind_eq_some_iff.mp h
  obtain ⟨left, hl, h⟩ := bind_eq_some_iff.mp h
  obtain ⟨right, hr, h⟩ := bind_eq_some_iff.mp h
  obtain ⟨⟨user', password'⟩, hm, h⟩ := bind_eq_some_iff.mp h
  exact ⟨fields, left, right, user', password', hf, hl, hr, hm, fromStr_eq_some h⟩

structure MergedOf (headers : HeaderMap) (original : HeaderValue) (key other : Key)
    (ofUser ofPassword : CredentialRecord Destination) (user password : Bytes) : Prop where
  basic : decodeBasic original = some (user, password)
  makesUser : Makes headers ofUser key
  makesPassword : Makes headers ofPassword other
  userDummy : user = ofUser.dummyValue
  passwordDummy : password = ofPassword.dummyValue
  userChanged : ofUser.realValue ≠ user
  passwordChanged : ofPassword.realValue ≠ password
  userColon : colon ∉ ofUser.realValue

lemma mergedOf_of_fields {record record' : CredentialRecord Destination}
    (ho : get hea authorization = some original)
    (hb : decodeBasic original = some (user, password))
    (hm : Makes hea record key) (hm' : Makes hea record' other)
    (hd : colon ∉ record.dummyValue) (hd' : colon ∉ record'.dummyValue)
    (hne : record.dummyValue ≠ record'.dummyValue)
    (hl : decodeBasic key.2.2 = some (user', password))
    (hr : decodeBasic other.2.2 = some (user, password'))
    (hu : user' ≠ user) (hp : password' ≠ password) :
    MergedOf hea original key other record record' user password ∧ user' = record.realValue ∧
      password' = record'.realValue := by
  obtain ⟨-, -, -, -, -, -, hc⟩ := decodeBasic_eq_some hb
  obtain ⟨-, -, hf⟩ := fields_of_translated ho hb hd hm.2.2 hl
  obtain ⟨-, -, hf'⟩ := fields_of_translated ho hb hd' hm'.2.2 hr
  obtain ⟨hud, hur⟩ := user_exchanged hc hd hf hu
  obtain ⟨hpd, hpr⟩ := password_exchanged hc (fun h => hne (hud.symm.trans h)) hf' hp
  rw [← hm.2.1] at hur
  rw [← hm'.2.1] at hpr
  refine ⟨⟨hb, hm, hm', hud, hpd, hur ▸ hu, hpr ▸ hp, ?_⟩, hur, hpr⟩
  rw [← hur]
  exact (splitOnce_eq_some hf).1

/-- Records that can be told apart by their dummies, which are no pairs of fields. -/
structure Distinct (bound : List (CredentialRecord Destination)) : Prop where
  nodup : (bound.map (·.dummyValue)).Nodup
  colon : ∀ record ∈ bound, colon ∉ record.dummyValue

lemma Distinct.key_eq (h : Distinct bound) {record record' : CredentialRecord Destination} {key other : Key}
    (hr : record ∈ bound) (hr' : record' ∈ bound) (hd : record.dummyValue = record'.dummyValue)
    (hm : Makes hea record key) (hm' : Makes hea record' other) : key = other := by
  obtain rfl := inj_on_of_nodup_map h.nodup hr hr' hd
  obtain ⟨_, _, _⟩ := key
  obtain ⟨_, _, _⟩ := other
  obtain ⟨rfl, rfl, hv⟩ := hm
  obtain ⟨rfl, rfl, hv'⟩ := hm'
  obtain rfl := some.inj (hv.symm.trans hv')
  rfl

def mergedHeader (ofUser ofPassword : CredentialRecord Destination) : HeaderValue :=
  ascii "Basic" ++ space :: Base64.encode (ofUser.realValue ++ colon :: ofPassword.realValue)

lemma merged_spec (h : Distinct bound) (ho : get hea authorization = some original)
    (hk : ∃ record ∈ bound, Makes hea record key)
    (hoth : ∃ record ∈ bound, Makes hea record other) (hne : key ≠ other)
    (hme : mergeBasicAuthFields original key.2.2 other.2.2 = some merged) :
    ∃ ofUser ∈ bound, ∃ ofPassword ∈ bound, ∃ user password, merged = mergedHeader ofUser ofPassword ∧
      (MergedOf hea original key other ofUser ofPassword user password ∨
        MergedOf hea original other key ofUser ofPassword user password) := by
  obtain ⟨record, hr, hm⟩ := hk
  obtain ⟨record', hr', hm'⟩ := hoth
  have hd : record.dummyValue ≠ record'.dummyValue := fun heq => hne (h.key_eq hr hr' heq hm hm')
  obtain ⟨⟨user, password⟩, ⟨userL, passwordL⟩, ⟨userR, passwordR⟩, user', password', hb, hl, hri, hf,
      rfl⟩ :=
    mergeBasicAuthFields_eq_some hme
  unfold mergedFields at hf
  split at hf
  · rename_i hc
    obtain ⟨hu, rfl, rfl, hp⟩ := hc
    cases hf
    obtain ⟨hof, rfl, rfl⟩ := mergedOf_of_fields ho hb hm hm' (h.colon _ hr) (h.colon _ hr') hd hl hri hu hp
    exact ⟨record, hr, record', hr', _, _, rfl, .inl hof⟩
  split at hf
  · rename_i hc
    obtain ⟨hu, rfl, rfl, hp⟩ := hc
    cases hf
    obtain ⟨hof, rfl, rfl⟩ := mergedOf_of_fields ho hb hm' hm (h.colon _ hr') (h.colon _ hr) hd.symm hri hl hu hp
    exact ⟨record', hr', record, hr, _, _, rfl, .inr hof⟩
  · cases hf

lemma decodeBasic_mergedHeader {ofUser ofPassword : CredentialRecord Destination} (h : colon ∉ ofUser.realValue) :
    decodeBasic (mergedHeader ofUser ofPassword) = some (ofUser.realValue, ofPassword.realValue) := by
  have hv : (ascii "Basic").all (fun byte => byte = 9 ∨ 32 ≤ byte ∧ byte < 127) := rfl
  have hs : ∀ byte ∈ ascii "Basic", byte = 9 ∨ 32 ≤ byte ∧ byte < 127 := fun byte hb =>
    of_decide_eq_true (all_eq_true.mp hv byte hb)
  unfold mergedHeader
  rw [decodeBasic_encode (by decide) hs (by decide), splitOnce_append h]

lemma MergedOf.no_third (hof : MergedOf hea original key other ofUser ofPassword user password)
    (h : Distinct bound) (ho : get hea authorization = some original) (hou : ofUser ∈ bound)
    (hofp : ofPassword ∈ bound) (ht : ∃ record ∈ bound, Makes hea record third)
    (hne : third ≠ key) (hne' : third ≠ other) : third.2.2 ≠ mergedHeader ofUser ofPassword ∧
      mergeBasicAuthFields original (mergedHeader ofUser ofPassword) third.2.2 = none := by
  have hd := @decodeBasic_mergedHeader _ ofUser ofPassword hof.userColon
  constructor
  · intro heq
    obtain ⟨record, hr, hm⟩ := ht
    obtain ⟨-, hu | hp, -⟩ := fields_of_translated ho hof.basic (h.colon _ hr) hm.2.2 (heq ▸ hd)
    · exact hne (h.key_eq hr hou (hu.symm.trans hof.userDummy) hm hof.makesUser)
    · exact hne' (h.key_eq hr hofp (hp.symm.trans hof.passwordDummy) hm hof.makesPassword)
  unfold mergeBasicAuthFields
  rw [hof.basic, hd, bind_some, bind_some]
  rcases decodeBasic third.2.2 with _ | fields
  · rfl
  have hn : mergedFields (user, password) (ofUser.realValue, ofPassword.realValue) fields = none := by
    unfold mergedFields
    rw [if_neg (fun hc => hof.passwordChanged hc.2.1), if_neg (fun hc => hof.userChanged hc.2.2.1)]
  rw [bind_some, hn]
  rfl

/-! ## Selection -/

lemma add_fresh (t : Translation Destination) : Selection.add hea ⟨[], []⟩ t = ⟨[t], []⟩ := rfl

lemma foldl_ambiguous {translations : List (Translation Destination)} (h : ∀ t ∈ translations, t.2.1 = authorization) :
    translations.foldl (Selection.add hea) ⟨[], [authorization]⟩ = ⟨[], [authorization]⟩ := by
  induction translations with
  | nil => rfl
  | cons t translations ih => ?_
  have ht : Selection.add hea ⟨[], [authorization]⟩ t = ⟨[], [authorization]⟩ := by
    simp only [Selection.add]
    rw [if_pos (by simp [h t mem_cons_self])]
  rw [foldl_cons, ht]
  exact ih fun u hu => h u (mem_cons_of_mem _ hu)

lemma add_one {existing t : Translation Destination} (he : existing.2.1 = authorization)
    (ht : t.2.1 = authorization) (hne : keyOf existing ≠ keyOf t) :
    Selection.add hea ⟨[existing], []⟩ t =
      match (get hea authorization).bind fun original =>
        mergeBasicAuthFields original existing.2.2 t.2.2 with
      | some value => ⟨[(existing.1, authorization, value)], []⟩
      | none => ⟨[], [authorization]⟩ := by
  have hs : sameTranslation existing t = false := by
    rw [Bool.eq_false_iff]
    intro hs
    obtain ⟨hp, hr, hv⟩ := of_decide_eq_true hs
    exact hne (by unfold keyOf; rw [hp, hr, hv])
  have hf : findIdx? (fun u : Translation Destination => decide (u.2.1 = authorization)) [existing] = some 0 := by
    simp [he]
  simp only [Selection.add, ht, hf, getElem?_cons_zero, hs, he]
  cases (get hea authorization).bind fun original => mergeBasicAuthFields original existing.2.2 t.2.2 <;> rfl

def outcome (headers : HeaderMap) : List Key → List HeaderValue
  | [] => []
  | [key] => [key.2.2]
  | [key, other] => ((get headers authorization).bind fun original =>
      mergeBasicAuthFields original key.2.2 other.2.2).toList
  | _ => []

lemma selected_eq (h : Distinct bound) {translations : List (Translation Destination)}
    (hn : ∀ t ∈ translations, t.2.1 = authorization) (hnod : (translations.map keyOf).Nodup)
    (hma : ∀ t ∈ translations, ∃ record ∈ bound, Makes hea record (keyOf t)) :
    (translations.foldl (Selection.add hea) ⟨[], []⟩).selected.map (·.2) =
      (outcome hea (translations.map keyOf)).map (authorization, ·) := by
  match translations with
  | [] => rfl
  | [t] =>
    show [t.2] = [(authorization, t.2.2)]
    rw [← hn t mem_cons_self]
  | t :: u :: rest =>
    have ht := hn t (by simp)
    have hu := hn u (by simp)
    have hne : keyOf t ≠ keyOf u := by
      intro heq
      rw [map_cons, map_cons, heq] at hnod
      exact (nodup_cons.mp hnod).1 mem_cons_self
    rw [foldl_cons, add_fresh, foldl_cons, add_one ht hu hne]
    cases hm : (get hea authorization).bind fun original =>
        mergeBasicAuthFields original t.2.2 u.2.2 with
    | none =>
      rw [foldl_ambiguous fun v hv => hn v (by simp [hv])]
      cases rest with
      | nil => ?_
      | cons v rest => rfl
      simp only [map_cons, map_nil, outcome]
      rw [show ((get hea authorization).bind fun original =>
        mergeBasicAuthFields original (keyOf t).2.2 (keyOf u).2.2) = none from hm]
      rfl
    | some merged =>
      rcases rest with _ | ⟨v, rest⟩
      · simp only [map_cons, map_nil, outcome]
        rw [show ((get hea authorization).bind fun original =>
          mergeBasicAuthFields original (keyOf t).2.2 (keyOf u).2.2) = some merged from hm]
        rfl
      obtain ⟨original, ho, hme⟩ := bind_eq_some_iff.mp hm
      obtain ⟨ofUser, hou, ofPassword, hofp, _, _, rfl, hof⟩ :=
        merged_spec h ho (hma t (by simp)) (hma u (by simp)) hne hme
      have hth : ∀ w ∈ [t, u], keyOf v ≠ keyOf w := by
        intro w hw heq
        have := (nodup_append.mp (show ([t, u].map keyOf ++ (v :: rest).map keyOf).Nodup from hnod)).2.2
        exact this _ (mem_map_of_mem hw) _ mem_cons_self heq.symm
      have hno : (keyOf v).2.2 ≠ mergedHeader ofUser ofPassword ∧
          mergeBasicAuthFields original (mergedHeader ofUser ofPassword) (keyOf v).2.2 = none := by
        rcases hof with hof | hof
        · exact hof.no_third h ho hou hofp (hma v (by simp)) (hth t (by simp))
            (hth u (by simp))
        · exact hof.no_third h ho hou hofp (hma v (by simp)) (hth u (by simp))
            (hth t (by simp))
      rw [foldl_cons, add_one rfl (hn v (by simp)) (fun heq => hno.1 (congrArg (·.2.2) heq).symm), ho, bind_some]
      rw [show mergeBasicAuthFields original (mergedHeader ofUser ofPassword) v.2.2 = none from hno.2]
      rw [foldl_ambiguous fun w hw => hn w (by simp [hw])]
      rfl

lemma outcome_perm {keys keys' : List Key} (h : keys.Perm keys') :
    outcome hea keys = outcome hea keys' := by
  match keys with
  | [] => rw [h.nil_eq]
  | [key] => rw [singleton_perm.mp h]
  | [key, other] =>
    obtain ⟨first, _, rfl⟩ := length_eq_two.mp h.length_eq.symm
    have hf : first ∈ [key, other] := h.mem_iff.mpr mem_cons_self
    rcases mem_cons.mp hf with rfl | hf
    · rw [singleton_perm.mp ((perm_cons _).mp h)]
    obtain rfl := mem_singleton.mp hf
    have hs := singleton_perm.mp ((perm_cons _).mp ((List.Perm.swap key first []).trans h))
    obtain ⟨rfl, -⟩ := cons.inj hs
    simp only [outcome, @mergeBasicAuthFields_comm _ first.2.2]
  | _ :: _ :: _ :: _ =>
    have hl := h.length_eq
    rcases keys' with _ | ⟨_, _ | ⟨_, _ | ⟨_, _⟩⟩⟩
    · cases hl
    · cases hl
    · cases hl
    · rfl

/-! ## What stands in a request -/

def FieldReplaced (usable : CredentialRecord Destination → Prop) (field field' : Bytes) : Prop :=
  field' = field ∨ ∃ record, usable record ∧ record.provider = .github ∧ record.dummyValue = field ∧
    record.realValue = field'

/-- A header with dummies replaced by real values of usable records. The provider `openai` keeps nothing else of it. -/
inductive Replaced (usable : CredentialRecord Destination → Prop) (original : HeaderValue) :
    HeaderValue → Prop
  | token {scheme rest : Bytes} {record : CredentialRecord Destination}
      (hsplit : splitOnce space original = some (scheme, rest)) (husable : usable record)
      (hprovider : record.provider = .github) (hdummy : trim rest = record.dummyValue) :
      Replaced usable original (scheme ++ space :: record.realValue)
  | whole {scheme rest : Bytes} {record : CredentialRecord Destination}
      (hsplit : splitOnce space original = some (scheme, rest)) (husable : usable record)
      (hprovider : record.provider = .github) (hdummy : Base64.decode (trim rest) = some record.dummyValue) :
      Replaced usable original (scheme ++ space :: Base64.encode record.realValue)
  | fields {scheme scheme' rest user password user' password' : Bytes}
      (hsplit : splitOnce space original = some (scheme, rest)) (hscheme : scheme' = scheme ∨ scheme' = ascii "Basic")
      (hdecode : Base64.decode (trim rest) = some (user ++ colon :: password)) (hcolon : colon ∉ user)
      (huser : FieldReplaced usable user user') (hpassword : FieldReplaced usable password password') :
      Replaced usable original (scheme' ++ space :: Base64.encode (user' ++ colon :: password'))
  | openai {record : CredentialRecord Destination} (husable : usable record) (hprovider : record.provider = .openai)
      (hdummy : record.dummyValue <:+: original) :
      Replaced usable original (ascii "Bearer " ++ record.realValue)

variable {usable : CredentialRecord Destination → Prop}

lemma fieldReplaced_exchanged (hu : usable record) (hp : record.provider = .github) (field : Bytes) :
    FieldReplaced usable field (exchanged record.dummyValue record.realValue field) := by
  unfold exchanged
  split
  · rename_i heq
    exact .inr ⟨record, hu, hp, heq.symm, rfl⟩
  · exact .inl rfl

lemma replaced_of_makes (hu : usable record)
    (h : Makes hea record key) : ∃ original, get hea authorization = some original ∧
      Replaced usable original key.2.2 := by
  obtain ⟨provider, real, value⟩ := key
  obtain ⟨rfl, rfl, htr⟩ := h
  cases hp : record.provider with
  | openai =>
    rw [hp] at htr
    obtain ⟨hdr, hh, hv⟩ := bind_eq_some_iff.mp htr
    obtain ⟨original, ho, hts⟩ := bind_eq_some_iff.mp hh
    obtain rfl := toStr_eq_some hts
    split at hv
    · rename_i hd
      rw [fromStr_eq_some hv]
      exact ⟨hdr, ho, .openai hu hp hd⟩
    · cases hv
  | github => ?_
  rw [hp] at htr
  obtain ⟨hdr, hh, hsp⟩ := bind_eq_some_iff.mp htr
  obtain ⟨original, ho, hts⟩ := bind_eq_some_iff.mp hh
  obtain rfl := toStr_eq_some hts
  obtain ⟨⟨scheme, rest⟩, hs, hv⟩ := bind_eq_some_iff.mp hsp
  refine ⟨hdr, ho, ?_⟩
  simp only at hv
  split at hv
  · obtain ⟨decoded, hde, hb⟩ := bind_eq_some_iff.mp hv
    obtain ⟨translated, ht, hfs⟩ := bind_eq_some_iff.mp hb
    rw [fromStr_eq_some hfs]
    unfold translateBasic at ht
    split at ht
    · rename_i heq
      cases ht
      exact .whole hs hu hp (heq ▸ hde)
    obtain ⟨⟨user, password⟩, hf, he⟩ := bind_eq_some_iff.mp ht
    obtain ⟨hc, rfl⟩ := splitOnce_eq_some hf
    simp only at he
    split at he
    · cases he
    cases he
    exact .fields hs (.inl rfl) hde hc (fieldReplaced_exchanged hu hp user) (fieldReplaced_exchanged hu hp password)
  split at hv
  · rename_i hd
    rw [fromStr_eq_some hv]
    exact .token hs hu hp hd.2
  · cases hv

lemma MergedOf.replaced (hof : MergedOf hea original key other ofUser ofPassword user password)
    (ho : get hea authorization = some original) (hc : colon ∉ ofUser.dummyValue)
    (hc' : colon ∉ ofPassword.dummyValue) (hu : usable ofUser) (hu' : usable ofPassword)
    (hl : (decodeBasic key.2.2).isSome) (hr : (decodeBasic other.2.2).isSome) :
    Replaced usable original (mergedHeader ofUser ofPassword) := by
  obtain ⟨-, _, _, hs, -, hd, hus⟩ := decodeBasic_eq_some hof.basic
  obtain ⟨fields, hf⟩ := isSome_iff_exists.mp hl
  obtain ⟨_, hf'⟩ := isSome_iff_exists.mp hr
  have hg := (fields_of_translated ho hof.basic hc hof.makesUser.2.2 hf).1
  have hg' := (fields_of_translated ho hof.basic hc' hof.makesPassword.2.2 hf').1
  exact .fields hs (.inr rfl) hd hus (.inr ⟨ofUser, hu, hof.makesUser.1.trans hg, hof.userDummy.symm, rfl⟩)
    (.inr ⟨ofPassword, hu', hof.makesPassword.1.trans hg', hof.passwordDummy.symm, rfl⟩)

lemma outcome_replaced (h : Distinct bound) (hu : ∀ record ∈ bound, usable record) {keys : List Key}
    (hn : keys.Nodup) (hma : ∀ key ∈ keys, ∃ record ∈ bound, Makes hea record key)
    (hv : value ∈ outcome hea keys) : ∃ original, get hea authorization = some original ∧
      Replaced usable original value := by
  match keys with
  | [] => cases hv
  | [key] =>
    obtain rfl := mem_singleton.mp hv
    obtain ⟨record, hre, hmak⟩ := hma key mem_cons_self
    exact replaced_of_makes (hu record hre) hmak
  | [key, other] =>
    obtain ⟨original, ho, hm⟩ := bind_eq_some_iff.mp (mem_toList.mp hv)
    have hne : key ≠ other := fun heq => (nodup_cons.mp hn).1 (heq ▸ mem_cons_self)
    obtain ⟨_, _, _, _, _, -, hl, hr, -⟩ := mergeBasicAuthFields_eq_some hm
    have hl : (decodeBasic key.2.2).isSome := by rw [hl]; rfl
    have hr : (decodeBasic other.2.2).isSome := by rw [hr]; rfl
    obtain ⟨_, hou, _, hofp, _, _, rfl, hof | hof⟩ :=
      merged_spec h ho (hma key (by simp)) (hma other (by simp)) hne hm
    · exact ⟨original, ho, hof.replaced ho (h.colon _ hou) (h.colon _ hofp)
        (hu _ hou) (hu _ hofp) hl hr⟩
    · exact ⟨original, ho, hof.replaced ho (h.colon _ hou) (h.colon _ hofp)
        (hu _ hou) (hu _ hofp) hr hl⟩
  | _ :: _ :: _ :: _ => cases hv

lemma selection_spec (h : Distinct bound) :
    let translations := (allTranslations hea bound).foldl pushNew []
    (translations.map keyOf).Nodup ∧
      (∀ key, key ∈ translations.map keyOf ↔ ∃ record ∈ bound, Makes hea record key) ∧
      (translations.foldl (Selection.add hea) ⟨[], []⟩).selected.map (·.2) =
        (outcome hea (translations.map keyOf)).map (authorization, ·) := by
  have hn : ∀ t ∈ allTranslations hea bound, t.2.1 = authorization := fun t ht =>
    (mem_allTranslations.mp ht).2.1
  obtain ⟨hs, hno, hk⟩ := @foldl_pushNew _ (allTranslations hea bound) [] hn nodup_nil
  refine ⟨hno, fun key => (hk key).trans mem_keys, selected_eq h (fun t ht => hn t (hs t ht)) hno ?_⟩
  exact fun t ht => (mem_allTranslations.mp (hs t ht)).2.2

lemma length_outcome_le (keys : List Key) : (outcome hea keys).length ≤ 1 := by
  match keys with
  | [] => exact Nat.zero_le _
  | [_] => exact le_rfl
  | [key, other] =>
    simp only [outcome]
    cases (get hea authorization).bind fun original =>
      mergeBasicAuthFields original key.2.2 other.2.2 <;> simp
  | _ :: _ :: _ :: _ => exact Nat.zero_le _

lemma Distinct.filter (h : Distinct credentials)
    (keep : CredentialRecord Destination → Bool) : Distinct (credentials.filter keep) :=
  ⟨(filter_sublist.map _).nodup h.nodup, fun record hr => h.colon record (mem_filter.mp hr).1⟩

/-- A header put into a request has dummies replaced by real values of records bound to it, whatever their order. -/
theorem selected_bound (parsers : Parsers Destination) (headers : HeaderMap) (destination : Text)
    (environmentId : Option Text) {credentials : List (CredentialRecord Destination)} (h : Distinct credentials) :
    (∀ t ∈ selectCredentials parsers headers destination credentials environmentId, t.2.1 = authorization ∧
        ∃ host request original, readDestination parsers destination = some (host, request) ∧
          get headers authorization = some original ∧
          Replaced (fun record => record ∈ credentials ∧ record.belongsToEnvironment environmentId ∧
            ∃ binding ∈ record.hostBindings, binding.matchesRequest parsers host request) original t.2.2) ∧
      ((selectCredentials parsers headers destination credentials environmentId).map (·.2.1)).Nodup ∧
      ∀ credentials', credentials'.Perm credentials →
        (selectCredentials parsers headers destination credentials' environmentId).map (·.2) =
          (selectCredentials parsers headers destination credentials environmentId).map (·.2) := by
  unfold selectCredentials
  rcases hrea : readDestination parsers destination with _ | read
  · simp
  obtain ⟨host, request⟩ := read
  simp only
  set bound := credentials.filter (·.boundTo parsers environmentId host request)
  have hd : Distinct bound := h.filter _
  obtain ⟨hn, hk, hs⟩ := @selection_spec headers _ bound hd
  set selected := (((allTranslations headers bound).foldl pushNew []).foldl
    (Selection.add headers) ⟨[], []⟩).selected
  refine ⟨fun t ht => ?_, ?_, fun credentials' hp => ?_⟩
  · have hpa : t.2 ∈ selected.map (·.2) := mem_map_of_mem ht
    rw [hs] at hpa
    obtain ⟨_, hv, hpa⟩ := mem_map.mp hpa
    rw [← hpa]
    have hu : ∀ record ∈ bound, record ∈ credentials ∧ record.belongsToEnvironment environmentId ∧
        ∃ binding ∈ record.hostBindings, binding.matchesRequest parsers host request := by
      intro record hr
      obtain ⟨hm, hbt⟩ := mem_filter.mp hr
      unfold CredentialRecord.boundTo at hbt
      rw [Bool.and_eq_true, List.any_eq_true] at hbt
      exact ⟨hm, hbt⟩
    obtain ⟨original, ho, hre⟩ :=
      outcome_replaced hd hu hn (fun key hke => (hk key).mp hke) hv
    exact ⟨rfl, host, request, original, rfl, ho, hre⟩
  · have hl : (selected.map (·.2)).length ≤ 1 := by
      rw [hs, length_map]
      exact length_outcome_le _
    rw [length_map] at hl
    rcases Nat.le_one_iff_eq_zero_or_eq_one.mp hl with hz | hon
    · rw [length_eq_zero_iff.mp hz]
      exact nodup_nil
    obtain ⟨t, ht⟩ := length_eq_one_iff.mp hon
    rw [ht]
    exact nodup_singleton _
  · have hp' : (credentials'.filter (·.boundTo parsers environmentId host request)).Perm bound := hp.filter _
    have hd' : Distinct (credentials'.filter (·.boundTo parsers environmentId host request)) :=
      ⟨((hp'.map _).nodup_iff).mpr hd.nodup, fun record hr =>
        hd.colon record (hp'.mem_iff.mp hr)⟩
    obtain ⟨hn', hk', hs'⟩ := @selection_spec headers _ _ hd'
    rw [hs, hs']
    congr 1
    refine outcome_perm ((perm_ext_iff_of_nodup hn' hn).mpr fun key => ?_)
    rw [hk, hk']
    exact exists_congr fun record => and_congr_left fun _ => hp'.mem_iff

end

/-! ## Requests to the builtin hosts -/

def githubOnly : Parsers Unit := ⟨fun _ => none, fun _ _ _ => false⟩

def githubRecord (dummy real : String) : CredentialRecord Unit :=
  ⟨.github, .hostPattern ["api.github.com".toList, "github.com".toList, "uploads.github.com".toList]
    [".ghe.com".toList],
    [], none, ascii real, ascii dummy⟩

def openaiRecord : CredentialRecord Unit :=
  ⟨.openai, .exactHost "api.openai.com".toList, [], none, ascii "sk-real", ascii "sk-masked"⟩

/-- The credentials `a:b`. -/
def basicHeader : HeaderMap := [(authorization, ascii "Basic YTpi")]

theorem two_fields_selected : (selectCredentials githubOnly basicHeader "github.com".toList
      [githubRecord "a" "x", githubRecord "b" "y"] none).map (·.2) = [(authorization, ascii "Basic eDp5")] ∧
    (selectCredentials githubOnly basicHeader "github.com".toList
        [githubRecord "b" "y", githubRecord "a" "x"] none).map (·.2) =
      (selectCredentials githubOnly basicHeader "github.com".toList
        [githubRecord "a" "x", githubRecord "b" "y"] none).map (·.2) := by
  refine ⟨by decide +kernel, ?_⟩
  have hd : Distinct [githubRecord "a" "x", githubRecord "b" "y"] :=
    ⟨by decide, fun record hr => by
      rcases mem_cons.mp hr with rfl | hr
      · decide
      · obtain rfl := mem_singleton.mp hr
        decide⟩
  exact (selected_bound githubOnly basicHeader "github.com".toList none hd).2.2 _ (List.Perm.swap ..)

/-- The scheme `token` is not kept for `openai`, and the order of the records can matter. -/
theorem scheme_and_order_lost :
    (selectCredentials githubOnly [(authorization, ascii "token sk-masked")] "api.openai.com".toList
        [openaiRecord] none).map (·.2) = [(authorization, ascii "Bearer sk-real")] ∧
      (selectCredentials githubOnly basicHeader "github.com".toList
        [githubRecord "a:b" "b:b", githubRecord "b" "b:b", githubRecord "a" "b:b"] none).length = 1 ∧
      selectCredentials githubOnly basicHeader "github.com".toList
        [githubRecord "a:b" "b:b", githubRecord "a" "b:b", githubRecord "b" "b:b"] none = [] :=
  ⟨by decide +kernel, by decide +kernel, by decide +kernel⟩

end Codex.Credentials
