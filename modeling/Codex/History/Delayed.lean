import Codex.Eviction
import Codex.History.RetainedContext

/-! # Facts that are recorded late: an old one that fits may stay although a newer one was given up -/

namespace Codex.History

open Codex.Text Codex.Eviction RetainedContext List

/-- A family takes no more bytes than one that has all of its records. -/
structure JsonLen.Lawful (json : JsonLen) : Prop where
  answers : ∀ {l l' : List (Ordered VerifiedAnswer)}, l <+~ l' → json.answers l ≤ json.answers l'
  messages : ∀ {l l' : List (Ordered RetainedUserMessage)}, l <+~ l' → json.messages l ≤ json.messages l'

def fitsFamily {T : Type} (len : List (Ordered T) → Nat) (items : List (Ordered T)) : Bool :=
  items.length ≤ maxFamilyRecords && len items ≤ maxFamilyBytes

section

variable {T : Type} {len : List (Ordered T) → Nat}

def byKey (a b : Ordered T) : Prop := a.key ≤ b.key

instance : DecidableRel (byKey (T := T)) := fun a b => inferInstanceAs (Decidable (a.key ≤ b.key))
instance : Std.Total (byKey (T := T)) := ⟨fun a b => Nat.le_total a.key.position b.key.position⟩
instance : IsTrans (Ordered T) byKey := ⟨fun a b _ (hab : a.key.position ≤ b.key.position) hbc => hab.trans hbc⟩

lemma evict_eq (items : List (Ordered T)) (incomplete : Bool) :
    evict len items incomplete = (keep (fitsFamily len) items,
      incomplete || decide ((keep (fitsFamily len) items).length < items.length)) := by
  induction items generalizing incomplete with
  | nil => simp [evict, keep]
  | cons entry items ih => ?_
  have hl := (keep_suffix (fitsFamily len) items).length_le
  unfold evict keep
  by_cases h : fitsFamily len (entry :: items)
  · have hn : ¬ ((entry :: items).length > maxFamilyRecords ∨ len (entry :: items) > maxFamilyBytes) := by
      simp only [fitsFamily, Bool.and_eq_true, decide_eq_true_eq] at h
      omega
    rw [if_neg hn, if_pos h]
    simp
  have ho : (entry :: items).length > maxFamilyRecords ∨ len (entry :: items) > maxFamilyBytes := by
    simp only [fitsFamily, Bool.and_eq_true, decide_eq_true_eq] at h
    omega
  rw [if_pos ho, if_neg h, ih]
  simp [Nat.lt_succ_of_le hl]

lemma foldl_boundFamily (items : List (Ordered T)) :
    (items.foldl (arrive byKey (fitsFamily len)) []).length ≤ items.length ∧
    items.foldl (fun family entry => boundFamily len (family.1 ++ [entry]) family.2) ([], false) =
      (items.foldl (arrive byKey (fitsFamily len)) [],
        decide ((items.foldl (arrive byKey (fitsFamily len)) []).length < items.length)) := by
  induction items using reverseRecOn with
  | nil => exact ⟨le_rfl, rfl⟩
  | append_singleton items entry ih => ?_
  obtain ⟨hl, ih⟩ := ih
  simp only [foldl_concat, ih, length_append, length_singleton]
  generalize items.foldl (arrive byKey (fitsFamily len)) [] = kept at hl
  have hle := @length_arrive_le _ (fitsFamily len) byKey _ kept entry
  refine ⟨by omega, ?_⟩
  show evict len ((kept ++ [entry]).insertionSort byKey) _ = _
  rw [evict_eq, length_insertionSort, length_append, length_singleton]
  refine Prod.ext rfl ?_
  show (decide (kept.length < items.length) || decide
    ((arrive byKey (fitsFamily len) kept entry).length < kept.length + 1)) = _
  rw [← Bool.decide_or, decide_eq_decide]
  omega

end

/-! ## Families -/

section Family

variable {T V I : Type} {len : List (Ordered T) → Nat} {record : RetainedContext → U64 × V → RetainedContext}
  {family : RetainedContext → List (Ordered T) × Bool} {value : V → T} (identity : T → I) (plain : V → Prop)

def entryOf (value : V → T) (fact : U64 × V) : Ordered T := ⟨false, fact.1, value fact.2⟩

section

variable (len : List (Ordered T) → Nat) (value : V → T)

def newestRecords (facts : List (U64 × V)) : List (Ordered T) :=
  keep (fitsFamily len) (facts.map (entryOf value))

/-- In every order of recording the newest records stay, and the family is incomplete exactly if others went. -/
def NewestStay (record : RetainedContext → U64 × V → RetainedContext)
    (family : RetainedContext → List (Ordered T) × Bool) (facts : List (U64 × V)) : Prop :=
  ∀ items, items ~ facts → family (items.foldl record .empty) =
    (newestRecords len value facts, decide ((newestRecords len value facts).length < facts.length))

/-- No other record would fit beside the newest ones. -/
def NoneBeside (facts : List (U64 × V)) : Prop :=
  ∀ fact ∈ facts, entryOf value fact ∉ newestRecords len value facts →
    fitsFamily len (entryOf value fact :: newestRecords len value facts) = false

end

variable (hem : family .empty = ([], false))
  (hr : ∀ context fact, plain fact.2 → (∀ e ∈ (family context).1, identity e.value ≠ identity (value fact.2)) →
    family (record context fact) = boundFamily len ((family context).1 ++ [entryOf value fact]) (family context).2)

include hem hr

lemma family_recorded {items : List (U64 × V)} (hp : ∀ fact ∈ items, plain fact.2)
    (hids : (items.map fun fact => identity (value fact.2)).Nodup) :
    family (items.foldl record .empty) = ((items.map (entryOf value)).foldl (arrive byKey (fitsFamily len)) [],
      decide (((items.map (entryOf value)).foldl (arrive byKey (fitsFamily len)) []).length < items.length)) := by
  have hfo : family (items.foldl record .empty) = (items.map (entryOf value)).foldl
        (fun family entry => boundFamily len (family.1 ++ [entry]) family.2) ([], false) ∧
      (family (items.foldl record .empty)).1 ⊆ items.map (entryOf value) := by
    induction items using reverseRecOn with
    | nil => exact ⟨hem, by simp [hem]⟩
    | append_singleton items fact ih => ?_
    rw [map_append, nodup_append] at hids
    obtain ⟨hi, hfa⟩ := forall_mem_append.mp hp
    obtain ⟨hf, hsu⟩ := ih hi hids.1
    have hs := hr (items.foldl record .empty) fact (hfa fact (by simp)) fun e he => by
      obtain ⟨_, ho, rfl⟩ := mem_map.mp (hsu he)
      exact hids.2.2 _ (mem_map_of_mem ho) _ (by simp)
    rw [foldl_concat, hs, map_append, map_singleton, foldl_concat, ← hf]
    refine ⟨rfl, fun e he => ?_⟩
    unfold boundFamily at he
    rw [evict_eq] at he
    have hin := (perm_insertionSort _ _).subset ((keep_suffix _ _).subset he)
    rcases mem_append.mp hin with hin | hin
    · exact mem_append_left _ (hsu hin)
    · exact mem_append_right _ hin
  rw [hfo.1, (foldl_boundFamily _).2, length_map]

lemma delayed_iff (hm : ∀ {l l' : List (Ordered T)}, l <+~ l' → len l ≤ len l') (facts : List (U64 × V))
    (hp : ∀ fact ∈ facts, plain fact.2) (ho : facts.Pairwise (·.1 < ·.1))
    (hids : (facts.map fun fact => identity (value fact.2)).Nodup) :
    NewestStay len value record family facts ↔ NoneBeside len value facts := by
  have hfi : ∀ {l l' : List (Ordered T)}, l <+~ l' → fitsFamily len l' → fitsFamily len l := by
    intro l l' hsu h
    have := hsu.length_le
    have := hm hsu
    simp only [fitsFamily, Bool.and_eq_true, decide_eq_true_eq] at h ⊢
    omega
  have hk : ((facts.map (entryOf value)).map (·.key.position)).Pairwise (· < ·) := by
    rw [map_map, pairwise_map]
    exact ho.imp fun h => Nat.add_lt_add_left h _
  have han : ∀ a ∈ facts.map (entryOf value), ∀ b ∈ facts.map (entryOf value), byKey a b → byKey b a → a = b :=
    fun a ha b hb hab hba => inj_on_of_nodup_map hk.nodup ha hb (Nat.le_antisymm hab hba)
  have hs : (facts.map (entryOf value)).Pairwise byKey := (pairwise_map.mp hk).imp Nat.le_of_lt
  have hn : (facts.map (entryOf value)).Nodup := Nodup.of_map _ hk.nodup
  have hfa : ∀ {items}, items ~ facts → _ := fun hi =>
    family_recorded identity plain hem hr (fun fact hf => hp fact (hi.subset hf))
      ((hi.map fun fact => identity (value fact.2)).nodup_iff.mpr hids)
  constructor
  · intro h fact hf hno
    by_contra hbe
    rw [Bool.not_eq_false] at hbe
    obtain ⟨pre, after, rfl⟩ := append_of_mem hf
    have hi : pre ++ after ++ [fact] ~ pre ++ fact :: after :=
      (perm_append_singleton fact _).trans perm_middle.symm
    have hal : (pre ++ fact :: after).map (entryOf value) =
        pre.map (entryOf value) ++ entryOf value fact :: after.map (entryOf value) := by simp
    have hl := foldl_arrive_last hfi han hs hal hno hbe
    have heq := congrArg Prod.fst ((hfa hi).symm.trans (h _ hi))
    simp only [map_append, map_singleton] at heq
    rw [hl] at heq
    simp [newestRecords] at heq
  intro h items hi
  have hke := foldl_arrive_eq_keep hfi han hs hn (hi.map (entryOf value)) fun e he hno => by
    obtain ⟨fact, hf, rfl⟩ := mem_map.mp he
    exact h fact hf hno
  rw [hfa hi, hke, hi.length_eq]
  rfl

end Family

/-! ## Messages and answers -/

def recordMessage (json : JsonLen) (context : RetainedContext) (fact : U64 × RetainedUserMessage) : RetainedContext :=
  context.recordUserMessage json fact.2 (.localInput (some fact.1))

def recordAnswer (json : JsonLen) (context : RetainedContext) (fact : U64 × VerifiedAnswer) : RetainedContext :=
  context.record json (.verifiedAnswer fact.2 (some fact.1))

def messageFamily (context : RetainedContext) : List (Ordered RetainedUserMessage) × Bool :=
  (context.userMessages, context.userMessagesIncomplete)

def answerFamily (context : RetainedContext) : List (Ordered VerifiedAnswer) × Bool :=
  (context.verifiedAnswers, context.verifiedAnswersIncomplete)

variable {json : JsonLen} {context : RetainedContext}

lemma messageFamily_record (ho : fact.2.origin = .user)
    (hf : ∀ e ∈ context.userMessages, e.value.messageId ≠ (fact.2.bound json).messageId) :
    messageFamily (recordMessage json context fact) =
      boundFamily json.messages (context.userMessages ++ [entryOf (·.bound json) fact])
        context.userMessagesIncomplete := by
  have ho' : (fact.2.bound json).origin = .user := by
    unfold RetainedUserMessage.bound
    split <;> exact ho
  have hn : context.userMessages.find? (sameMessageId (fact.2.bound json)) = none := by
    rw [find?_eq_none]
    intro e he
    simp [sameMessageId, hf e he]
  simp [messageFamily, recordMessage, recordUserMessage, unchangedHeartbeat, ho', hn, pushUserMessage,
    takeOrder, recordOrder, entryOf]

def answerIds (answer : VerifiedAnswer) : Text × Text := (answer.turnId, answer.callId)

lemma answerFamily_record (hf : ∀ e ∈ context.verifiedAnswers, answerIds e.value ≠ answerIds (fact.2.bound json)) :
    answerFamily (recordAnswer json context fact) =
      boundFamily json.answers (context.verifiedAnswers ++ [entryOf (·.bound json) fact])
        context.verifiedAnswersIncomplete := by
  have hn : ∀ e ∈ context.verifiedAnswers,
      ¬ (decide (e.value.turnId = (fact.2.bound json).turnId) && decide (e.value.callId = (fact.2.bound json).callId))
        := by
    intro e he h
    simp only [Bool.and_eq_true, decide_eq_true_eq] at h
    exact hf e he (Prod.ext h.1 h.2)
  simp [answerFamily, recordAnswer, record, recordVerifiedAnswer, find?_eq_none.mpr hn, eraseP_of_forall_not hn,
    recordOrder, entryOf]

/-- **Late recording changes nothing** exactly if no fact that is given up would fit beside the newest ones. -/
theorem delayed_recording_iff (json : JsonLen) (hjson : json.Lawful) (messages : List (U64 × RetainedUserMessage))
    (answers : List (U64 × VerifiedAnswer)) (horigin : ∀ fact ∈ messages, fact.2.origin = .user)
    (hmessages : messages.Pairwise (·.1 < ·.1)) (hanswers : answers.Pairwise (·.1 < ·.1))
    (hmessageIds : (messages.map fun fact => (fact.2.bound json).messageId).Nodup)
    (hanswerIds : (answers.map fun fact => answerIds (fact.2.bound json)).Nodup) :
    (NewestStay json.messages (·.bound json) (recordMessage json) messageFamily messages ↔
        NoneBeside json.messages (·.bound json) messages) ∧
      (NewestStay json.answers (·.bound json) (recordAnswer json) answerFamily answers ↔
        NoneBeside json.answers (·.bound json) answers) := by
  constructor
  · exact delayed_iff (·.messageId) (·.origin = .user) rfl (fun _ _ => messageFamily_record)
      hjson.messages messages horigin hmessages hmessageIds
  · exact delayed_iff answerIds (fun _ => True) rfl (fun _ _ _ => answerFamily_record)
      hjson.answers answers (fun _ _ => trivial) hanswers hanswerIds

/-! ## An old message beside newer ones -/

lemma sum_le_of_subperm {α : Type} (f : α → Nat) {l l' : List α} (h : l <+~ l') : (l.map f).sum ≤ (l'.map f).sum := by
  obtain ⟨m, hp, hs⟩ := h
  rw [← (hp.map f).sum_eq]
  exact (hs.map f).sum_le_sum fun _ _ => Nat.zero_le _

lemma jsonArrayLen_le {α : Type} {f : α → Nat} {l l' : List α} (h : l <+~ l') :
    jsonArrayLen (l.map f) ≤ jsonArrayLen (l'.map f) := by
  have hs := sum_le_of_subperm f h
  have hl := h.length_le
  simp only [jsonArrayLen, length_map]
  omega

lemma serdeLen_lawful : serdeLen.Lawful := ⟨jsonArrayLen_le, jsonArrayLen_le⟩

def messageOf (id text : Text) : RetainedUserMessage := ⟨[], some id, text, true, .user, none⟩

/-- One message and one answer more than a family holds. -/
def shortMessages : List (U64 × RetainedUserMessage) :=
  (List.range 9).map fun i => (Fin.ofNat _ i, messageOf (Nat.toDigits 10 i) "hello")

def shortAnswers : List (U64 × VerifiedAnswer) :=
  (List.range 9).map fun i => (Fin.ofNat _ i, ⟨"turn", Nat.toDigits 10 i, [⟨"continue?", "yes"⟩]⟩)

theorem delayed_recording_short :
    NewestStay serdeLen.messages (·.bound serdeLen) (recordMessage serdeLen) messageFamily shortMessages ∧
      NewestStay serdeLen.answers (·.bound serdeLen) (recordAnswer serdeLen) answerFamily shortAnswers := by
  obtain ⟨hm, ha⟩ := delayed_recording_iff serdeLen serdeLen_lawful shortMessages shortAnswers (by decide) (by decide)
    (by decide) (by decide) (by decide)
  exact ⟨hm.mpr (by unfold NoneBeside; decide), ha.mpr (by unfold NoneBeside; decide)⟩

def longMessages (text : Text) : List (U64 × RetainedUserMessage) :=
  [(0, messageOf "a" []), (1, messageOf "b" text), (2, messageOf "c" text), (3, messageOf "d" text),
    (4, messageOf "e" text), (5, messageOf "f" text)]

section

variable (order : U64) (id text : Text)

lemma serdeLen_messageOf : serdeLen.message (messageOf id text) = 52 + jsonStringLen id + jsonStringLen text := by
  have ht : jsonStringLen "turn_id".toList = 9 := rfl
  have hi : jsonStringLen "message_id".toList = 12 := rfl
  have hx : jsonStringLen "text".toList = 6 := rfl
  have hc : jsonStringLen "complete".toList = 10 := rfl
  have hn : jsonStringLen [] = 2 := rfl
  simp only [serdeLen, jsonObjectLen, jsonArrayLen, messageFields, messageOf, if_true, append_nil, map_cons, map_nil,
    sum_cons, sum_nil, length_cons, length_nil, Option.elim_some, ht, hi, hx, hc, hn]
  omega

lemma jsonEntryLen_messageOf : jsonEntryLen messageFields ⟨false, order, messageOf id text⟩ =
    61 + (Nat.toDigits 10 order.val).length + jsonStringLen id + jsonStringLen text := by
  have hm := serdeLen_messageOf id text
  have ho : jsonStringLen "order".toList = 7 := rfl
  have hl : (messageFields (messageOf id text)).length = 4 := rfl
  simp only [serdeLen, jsonObjectLen, jsonArrayLen, length_map, hl] at hm
  simp only [jsonEntryLen, jsonObjectLen, jsonArrayLen, Bool.false_eq_true, if_false, nil_append, map_cons, sum_cons,
    length_cons, length_map, hl, ho]
  omega

end

lemma jsonStringLen_letter (h : c ∈ ['a', 'b', 'c', 'd', 'e', 'f']) : jsonStringLen [c] = 3 := by
  simp only [mem_cons, not_mem_nil, or_false] at h
  rcases h with rfl | rfl | rfl | rfl | rfl | rfl <;> rfl

lemma jsonStringLen_nil : jsonStringLen [] = 2 := rfl

lemma jsonStringLen_replicate (n : Nat) : jsonStringLen (replicate n 'x') = 2 + n := by
  rw [jsonStringLen, map_replicate, sum_replicate]
  exact congrArg (2 + ·) (Nat.mul_one n)

variable {text : Text}

lemma bound_longMessages (h : jsonStringLen text = 15002) :
    ∀ fact ∈ longMessages text, fact.2.bound serdeLen = fact.2 := by
  have hb : ∀ fact ∈ longMessages text, ¬ serdeLen.message fact.2 > maxRecordBytes := by
    simp [longMessages, serdeLen_messageOf, maxRecordBytes, h, jsonStringLen_letter, jsonStringLen_nil]
  exact fun fact hf => if_neg (hb fact hf)

lemma not_noneBeside (h : jsonStringLen text = 15002) :
    ¬ NoneBeside serdeLen.messages (·.bound serdeLen) (longMessages text) := by
  have he : ∀ fact ∈ longMessages text, entryOf (·.bound serdeLen) fact = entryOf id fact := by
    intro fact hfa
    simp only [entryOf, bound_longMessages h fact hfa, id]
  have hk : newestRecords serdeLen.messages (·.bound serdeLen) (longMessages text) =
      ((longMessages text).drop 2).map (entryOf id) := by
    rw [newestRecords, map_congr_left he]
    simp [longMessages, keep, fitsFamily, serdeLen, entryOf, jsonArrayLen, jsonEntryLen_messageOf, h, maxFamilyBytes,
      maxFamilyRecords, jsonStringLen_letter, jsonStringLen_nil, Nat.toDigits_of_lt_base]
  intro hn
  have hf := hn (0, messageOf "a" []) (by simp [longMessages])
  rw [hk, he _ (by simp [longMessages])] at hf
  simp [longMessages, fitsFamily, serdeLen, entryOf, jsonArrayLen, jsonEntryLen_messageOf, h, maxFamilyBytes,
    maxFamilyRecords, jsonStringLen_letter, jsonStringLen_nil, Nat.toDigits_of_lt_base] at hf

/-- Recorded last, the empty message stays although a newer one was given up. -/
theorem old_message_stays : ¬ NewestStay serdeLen.messages (·.bound serdeLen) (recordMessage serdeLen) messageFamily
    (longMessages (replicate 15000 'x')) := by
  have hl := jsonStringLen_replicate 15000
  generalize replicate 15000 'x' = text at hl
  refine mt (delayed_iff (·.messageId) (·.origin = .user) rfl (fun _ _ => messageFamily_record) serdeLen_lawful.messages
    _ (by simp [longMessages, messageOf]) (by simp [longMessages]) ?_).mp (not_noneBeside hl)
  rw [map_congr_left fun fact hf => congrArg (·.messageId) (bound_longMessages hl fact hf)]
  simp [longMessages, messageOf]

end Codex.History
