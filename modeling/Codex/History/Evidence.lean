import Codex.Run
import Codex.History.RetainedContext

/-! # While `user_messages_complete` holds, every instruction is represented by an entry -/

namespace Codex.History

open Codex.Text Codex.Run List Option

/-- What can happen to retained evidence. To restore an earlier checkpoint is to go on from there. -/
inductive EvidenceOp where
  | reserveOrder
  | recordUserMessage (message : RetainedUserMessage) (source : RetainedInputSource)
  | record (event : RetainedContextEvent)
  | recordAssistantMessage (message : RetainedUserMessage) (source : RetainedInputSource)
  | rollback (turnIds : List Text) (firstRemovedMessageId : Option Text) (source : RetainedInputSource)
  | restore (survivingItems : List ResponseItemEnvelope)

def RetainedContext.apply (json : JsonLen) (context : RetainedContext) : EvidenceOp → RetainedContext
  | .reserveOrder => context.reserveOrder.2
  | .recordUserMessage message source => context.recordUserMessage json message source
  | .record event => context.record json event
  | .recordAssistantMessage message source => context.recordAssistantMessage json message source
  | .rollback turnIds firstRemovedMessageId source => context.rollback turnIds firstRemovedMessageId source
  | .restore survivingItems => RetainedContext.restore json (some context) survivingItems

structure Instruction where
  message : RetainedUserMessage
  order : RetainedContextOrder
  deriving DecidableEq

structure Ledger where
  context : RetainedContext
  instructions : List Instruction

namespace Ledger

def empty : Ledger := ⟨.empty, []⟩

def accepted (context : RetainedContext) : RetainedInputSource → RetainedContextOrder
  | .inherited => .inherited context.nextInheritedOrder
  | .localInput order => .localOrder (order.getD context.nextOrder)

/-- The message is not recorded anew: an entry has its identity and says the same, or it is an unchanged heartbeat. -/
def stored (json : JsonLen) (context : RetainedContext) (message : RetainedUserMessage) (source : RetainedInputSource) :
    Bool :=
  context.unchangedHeartbeat (message.bound json) (source = .inherited) ||
    (context.userMessages.find? (RetainedContext.sameMessageId (message.bound json))).any fun entry =>
      entry.value = message.bound json && entry.inherited = decide (source = .inherited)

def place (json : JsonLen) (context : RetainedContext) (message : RetainedUserMessage) (source : RetainedInputSource) :
    RetainedContextOrder :=
  if stored json context message source then accepted context source
  else
    accepted { context with
      userMessages := context.userMessages.eraseP (RetainedContext.sameMessageId (message.bound json)) } source

/-- A later message with the same id takes the place of an earlier one. -/
def recorded (instructions : List Instruction) (message : RetainedUserMessage) (order : RetainedContextOrder) :
    List Instruction :=
  instructions.filter (fun earlier => message.messageId.isNone || earlier.message.messageId ≠ message.messageId) ++
    [⟨message, order⟩]

/-- Every local fact was accepted after whatever was inherited, also where that is no longer known. -/
def boundary (context : RetainedContext) (firstRemovedMessageId : Option Text) (source : RetainedInputSource) :
    Option RetainedContextOrder :=
  (context.rollbackBoundary firstRemovedMessageId source).or
    (if source = .inherited then some (.localOrder 0) else none)

def instructionsAfter (json : JsonLen) (ledger : Ledger) : EvidenceOp → List Instruction
  | .recordUserMessage message source =>
    recorded ledger.instructions message (place json ledger.context message source)
  | .rollback _ firstRemovedMessageId source =>
    ledger.instructions.filter fun instruction =>
      (boundary ledger.context firstRemovedMessageId source).all fun boundary => instruction.order < boundary
  | _ => ledger.instructions

def next (json : JsonLen) (ledger : Ledger) (op : EvidenceOp) : Ledger :=
  ⟨ledger.context.apply json op, ledger.instructionsAfter json op⟩

def step (json : JsonLen) (ledger : Ledger) (op : EvidenceOp) : Option Ledger := some (ledger.next json op)

def after (json : JsonLen) (ops : List EvidenceOp) : Ledger := ops.foldl (next json) .empty

end Ledger

open RetainedContext

open Ledger

def sameHeartbeat (a b : RetainedUserMessage) : Bool :=
  a.origin = .heartbeat && b.origin = .heartbeat &&
    (Heartbeat.parse a.text).any fun previous =>
      (Heartbeat.parse b.text).any fun current =>
        previous.automationId = current.automationId && previous.instructions = current.instructions

/-- An entry with the text and the turn of the instruction, or an equal heartbeat, that no rollback takes before it. -/
def Represented (context : RetainedContext) (instruction : Instruction) : Prop :=
  ∃ entry ∈ context.userMessages, entry.key ≤ instruction.order ∧
    (entry.value.text = instruction.message.text ∧ entry.value.turnId = instruction.message.turnId ∨
      sameHeartbeat entry.value instruction.message = true)

instance (context : RetainedContext) (instruction : Instruction) : Decidable (Represented context instruction) :=
  inferInstanceAs (Decidable (∃ entry ∈ context.userMessages, _))

/-- Nothing stands for a message that was accepted before it, and a message that is cut short keeps its id. -/
def Orderly (json : JsonLen) (context : RetainedContext) : EvidenceOp → Prop
  | .recordUserMessage message source =>
    (message.bound json).messageId = message.messageId ∧
    (∀ entry ∈ context.userMessages, entry.inherited = false →
      (entry.value = message.bound json ∨ sameHeartbeat entry.value message = true) →
      ∀ order, source = .localInput (some order) → entry.order ≤ order) ∧
    (∀ entry ∈ context.userMessages, entry.value.messageId.isSome → entry.value.messageId = message.messageId →
      entry.value.origin = .heartbeat → Ledger.stored json context message source = true)
  | _ => True

/-! ## Bounds -/

section
variable {T : Type} {len : List (Ordered T) → Nat}

variable {items : List (Ordered T)} {incomplete : Bool}

lemma mem_of_evict (h : x ∈ (evict len items incomplete).1) : x ∈ items := by
  induction items generalizing incomplete with
  | nil => exact h
  | cons entry items ih => ?_
  unfold evict at h
  split at h
  · exact mem_cons_of_mem _ (ih h)
  · exact h

lemma evict_incomplete (items : List (Ordered T)) : (evict len items true).2 := by
  induction items with
  | nil => rfl
  | cons entry items ih => ?_
  unfold evict
  split
  · exact ih
  · rfl

lemma evict_complete (h : (evict len items incomplete).2 = false) :
    incomplete = false ∧ (evict len items incomplete).1 = items := by
  rcases items with _ | ⟨entry, items⟩
  · exact ⟨h, rfl⟩
  by_cases hf : (entry :: items).length > maxFamilyRecords ∨ len (entry :: items) > maxFamilyBytes
  · rw [evict, if_pos hf, evict_incomplete] at h
    simp at h
  · rw [evict, if_neg hf] at h ⊢
    exact ⟨h, rfl⟩

lemma mem_of_boundFamily (h : x ∈ (boundFamily len items incomplete).1) : x ∈ items :=
  (mem_insertionSort _).mp (mem_of_evict h)

lemma boundFamily_complete (h : (boundFamily len items incomplete).2 = false) :
    incomplete = false ∧ ∀ x, x ∈ items → x ∈ (boundFamily len items incomplete).1 := by
  obtain ⟨hf, heq⟩ := evict_complete h
  refine ⟨hf, fun x hx => ?_⟩
  unfold boundFamily
  rw [heq]
  exact (mem_insertionSort _).mpr hx

end

lemma truncateBytes_twice (n : Nat) (s : Text) : truncateBytes n (truncateBytes n s) = truncateBytes n s := by
  induction s generalizing n with
  | nil => rfl
  | cons c s ih => ?_
  by_cases h : c.utf8Size ≤ n
  · simp only [truncateBytes, if_pos h, ih]
  · simp only [truncateBytes, if_neg h]

lemma bound_twice (json : JsonLen) (message : RetainedUserMessage) :
    (message.bound json).bound json = message.bound json := by
  by_cases h : json.message message > maxRecordBytes
  · have hb : message.bound json =
        ⟨truncateBytes 1024 message.turnId, message.messageId.map (truncateBytes 1024), [], false, message.origin,
          message.phase⟩ := if_pos h
    rw [hb]
    unfold RetainedUserMessage.bound
    split
    · simp only [truncateBytes_twice, Option.map_map, Function.comp_def]
    · rfl
  · have hb : message.bound json = message := if_neg h
    rw [hb, hb]

variable {message : RetainedUserMessage} {source : RetainedInputSource} {entry : Ordered RetainedUserMessage}
  {instruction : Instruction}

lemma bound_of_complete (h : (message.bound json).complete) :
    message.bound json = message := by
  unfold RetainedUserMessage.bound at h ⊢
  split at h
  · simp at h
  split
  · contradiction
  · rfl

/-! ## What keeps the messages -/

lemma U64.le_saturatingAdd (a b : U64) : a ≤ a.saturatingAdd b := by
  unfold U64.saturatingAdd
  split
  · exact Fin.le_def.mpr (Nat.le_add_right _ _)
  · exact Fin.le_def.mpr (by simp only; omega)

structure SameMessages (before after : RetainedContext) : Prop where
  messages : after.userMessages = before.userMessages
  incomplete : after.userMessagesIncomplete = before.userMessagesIncomplete
  counter : before.nextOrder ≤ after.nextOrder

namespace SameMessages

lemma refl (context : RetainedContext) : SameMessages context context := ⟨rfl, rfl, le_refl _⟩

lemma trans (hab : SameMessages a b) (hbc : SameMessages b c) : SameMessages a c :=
  ⟨hbc.messages.trans hab.messages, hbc.incomplete.trans hab.incomplete, hab.counter.trans hbc.counter⟩

end SameMessages

namespace RetainedContext

variable (json : JsonLen) (context : RetainedContext)

lemma recordOrder_same (order : Option U64) : SameMessages context (context.recordOrder order).2 :=
  ⟨rfl, rfl, le_max_left _ _⟩

lemma takeOrder_same (source : RetainedInputSource) : SameMessages context (context.takeOrder source).2 := by
  cases source with
  | inherited => exact .refl context
  | localInput order => exact context.recordOrder_same order

lemma recordAssistantMessage_same (message : RetainedUserMessage) (source : RetainedInputSource) :
    SameMessages context (context.recordAssistantMessage json message source) := by
  unfold recordAssistantMessage
  split
  · exact .refl context
  simp only
  split
  · exact .refl context
  have ht := takeOrder_same { context with
    assistantMessages := context.assistantMessages.eraseP (sameMessageId (message.bound json)) } source
  split <;> exact ⟨ht.messages, ht.incomplete, ht.counter⟩

lemma record_same (event : RetainedContextEvent) : SameMessages context (context.record json event) := by
  cases event with
  | verifiedAnswer answer order => ?_
  | deliveredAssistantMessage message order =>
    simp only [record]
    split
    · exact .refl context
    · exact recordAssistantMessage_same json context _ _
  simp only [record, recordVerifiedAnswer]
  split
  · exact .refl context
  · exact ⟨rfl, rfl, le_max_left _ _⟩

lemma recordSenderUserMessages_same (metadata : CodexHarnessMetadata) :
    SameMessages context (context.recordSenderUserMessages json metadata) := by
  unfold recordSenderUserMessages
  split
  · exact .refl context
  split
  · exact .refl context
  · exact ⟨rfl, rfl, le_max_left _ _⟩

lemma recordSenders_same (metadata : List CodexHarnessMetadata) :
    SameMessages context (metadata.foldl (recordSenderUserMessages json) context) := by
  induction metadata generalizing context with
  | nil => exact .refl context
  | cons entry metadata ih =>
    exact (context.recordSenderUserMessages_same json entry).trans (ih (context.recordSenderUserMessages json entry))

lemma le_past (nextOrder : U64) (orders : List U64) : nextOrder ≤ past nextOrder orders := by
  induction orders generalizing nextOrder with
  | nil => exact le_refl _
  | cons order orders ih => exact (le_max_left _ _).trans (ih _)

lemma le_nextInheritedOrder {context : RetainedContext} (h : entry ∈ context.userMessages)
    (hi : entry.inherited) :
    entry.order ≤ context.nextInheritedOrder := by
  have hm : ∀ (orders : List U64) (start : U64), start ≤ orders.foldl max start ∧
      ∀ order ∈ orders, order ≤ orders.foldl max start := by
    intro orders
    induction orders with
    | nil => exact fun start => ⟨le_refl _, by simp⟩
    | cons first orders ih => ?_
    intro start
    obtain ⟨hs, ha⟩ := ih (max start first)
    refine ⟨(le_max_left _ _).trans hs, fun order ho => ?_⟩
    rcases mem_cons.mp ho with rfl | hin
    · exact (le_max_right _ _).trans hs
    · exact ha order hin
  have hme : entry.order.saturatingAdd 1 ∈
      ((context.userMessages ++ context.assistantMessages).filter (·.inherited)).map
        fun entry => entry.order.saturatingAdd 1 :=
    mem_map.mpr ⟨entry, mem_filter.mpr ⟨mem_append_left _ h, hi⟩, rfl⟩
  exact (U64.le_saturatingAdd _ _).trans ((hm _ 0).2 _ hme)

end RetainedContext

/-! ## What stands for an instruction -/

def Stands (json : JsonLen) (value message : RetainedUserMessage) : Prop :=
  value = message.bound json ∨ value.complete = true ∧ sameHeartbeat value message = true

lemma origin_of_sameHeartbeat (h : sameHeartbeat a b) : a.origin = .heartbeat := by
  simp only [sameHeartbeat, Bool.and_eq_true, decide_eq_true_eq] at h
  exact h.1.1

lemma exists_of_unchangedIn (h : unchangedIn current entries) :
    ∃ entry ∈ entries, entry.value.complete ∧ ∃ previous, Heartbeat.parse entry.value.text = some previous ∧
      previous.automationId = current.automationId ∧ previous.instructions = current.instructions := by
  induction entries with
  | nil => simp [unchangedIn] at h
  | cons entry older ih => ?_
  unfold unchangedIn at h
  rcases hp : Heartbeat.parse entry.value.text with _ | previous
  · simp [hp] at h
  simp only [hp] at h
  by_cases hid : previous.automationId = current.automationId
  · simp only [if_pos hid, Bool.and_eq_true, decide_eq_true_eq] at h
    exact ⟨entry, by simp, h.1, previous, hp, hid, h.2⟩
  rw [if_neg hid] at h
  obtain ⟨found, hf, hr⟩ := ih h
  exact ⟨found, mem_cons_of_mem _ hf, hr⟩

lemma stands_of_unchangedHeartbeat {context : RetainedContext}
    (h : context.unchangedHeartbeat (message.bound json) inherited) :
    ∃ entry ∈ context.userMessages, entry.inherited = inherited ∧ entry.value.complete ∧
      sameHeartbeat entry.value message := by
  simp only [unchangedHeartbeat, Bool.and_eq_true] at h
  obtain ⟨⟨hc, ho⟩, h⟩ := h
  rw [bound_of_complete hc] at h ho
  rcases hp : Heartbeat.parse message.text with _ | current
  · simp [hp] at h
  simp only [hp] at h
  obtain ⟨entry, he, hf, _, hpr, hid, hi⟩ := exists_of_unchangedIn h
  simp only [mem_filter, mem_reverse, Bool.and_eq_true, decide_eq_true_eq] at he
  refine ⟨entry, he.1, he.2.1, hf, ?_⟩
  simp [sameHeartbeat, he.2.2, ho, hpr, hp, hid, hi]

lemma stands_of_stored {context : RetainedContext}
    (h : Ledger.stored json context message source) :
    ∃ entry ∈ context.userMessages, entry.inherited = decide (source = .inherited) ∧
      Stands json entry.value message := by
  simp only [Ledger.stored, Bool.or_eq_true, any_eq_true_iff_get] at h
  rcases h with hu | hs
  · obtain ⟨entry, he, hi, hst⟩ := stands_of_unchangedHeartbeat hu
    exact ⟨entry, he, hi, .inr hst⟩
  obtain ⟨_, hs⟩ := hs
  simp only [Bool.and_eq_true, decide_eq_true_eq] at hs
  exact ⟨_, get_find?_mem _, hs.2, .inl hs.1⟩

/-! ## The invariant -/

structure Honest (json : JsonLen) (ledger : Ledger) : Prop where
  bounded : ∀ entry ∈ ledger.context.userMessages, entry.value.bound json = entry.value
  counted : ∀ entry ∈ ledger.context.userMessages, entry.inherited = false → entry.order ≤ ledger.context.nextOrder
  ids : ∀ instruction ∈ ledger.instructions, (instruction.message.bound json).messageId = instruction.message.messageId
  standing : ledger.context.userMessagesIncomplete = false → ∀ instruction ∈ ledger.instructions,
    ∃ entry ∈ ledger.context.userMessages, entry.key ≤ instruction.order ∧ Stands json entry.value instruction.message

variable {json : JsonLen} {ledger : Ledger} {context : RetainedContext}

lemma honest_empty : Honest json .empty where
  bounded := by simp [Ledger.empty, RetainedContext.empty]
  counted := by simp [Ledger.empty, RetainedContext.empty]
  ids := by simp [Ledger.empty]
  standing := by simp [Ledger.empty]

lemma Honest.of_same (h : Honest json ledger) (hs : SameMessages ledger.context context) :
    Honest json ⟨context, ledger.instructions⟩ where
  bounded entry he := h.bounded entry (hs.messages ▸ he)
  counted entry he hl := (h.counted entry (hs.messages ▸ he) hl).trans hs.counter
  ids := h.ids
  standing hc instruction hin := by
    obtain ⟨entry, he, hst⟩ := h.standing (hs.incomplete ▸ hc) instruction hin
    exact ⟨entry, hs.messages ▸ he, hst⟩

lemma key_le_accepted (h : Honest json ledger) (he : entry ∈ ledger.context.userMessages)
    (hi : entry.inherited = decide (source = .inherited)) (hs : Stands json entry.value message)
    (hor : Orderly json ledger.context (.recordUserMessage message source)) :
    entry.key ≤ accepted ledger.context source := by
  cases source with
  | inherited =>
    have hk : entry.key = .inherited entry.order := if_pos (by simpa using hi)
    rw [hk]
    exact Fin.le_def.mp (le_nextInheritedOrder he (by simpa using hi))
  | localInput order => ?_
  have hl : entry.inherited = false := by simpa using hi
  have hk : entry.key = .localOrder entry.order := if_neg (by simp [hl])
  have hle : entry.order ≤ order.getD ledger.context.nextOrder := by
    rcases order with _ | order
    · exact h.counted entry he hl
    have hr : entry.value = message.bound json ∨ sameHeartbeat entry.value message :=
      hs.imp id And.right
    exact hor.2.1 entry he hl hr order rfl
  rw [hk]
  exact Nat.add_le_add_left (Fin.le_def.mp hle) _

/-! ## Recording an instruction -/

lemma recordUserMessage_stored (h : Ledger.stored json context message source) :
    SameMessages context (context.recordUserMessage json message source) := by
  unfold RetainedContext.recordUserMessage
  simp only
  split
  · exact .refl context
  rename_i hc
  rw [Ledger.stored, Bool.or_eq_true] at h
  obtain ⟨hf, hs⟩ := (any_eq_true_iff_get _ _).mp (h.resolve_left hc)
  simp only [Bool.and_eq_true, decide_eq_true_eq] at hs
  have hg := some_get hf
  rw [← hg]
  simp only [hs, and_self]
  exact ⟨rfl, rfl, le_refl _⟩

lemma recordUserMessage_new (h : Ledger.stored json context message source = false) :
    context.recordUserMessage json message source =
      pushUserMessage json { context with
        verifiedAnswersIncomplete := context.verifiedAnswersIncomplete || decide (source = .inherited)
        userMessages := context.userMessages.eraseP (sameMessageId (message.bound json)) }
        (message.bound json) source := by
  simp only [Ledger.stored, Bool.or_eq_false_iff] at h
  obtain ⟨hc, hs⟩ := h
  unfold RetainedContext.recordUserMessage
  simp only [hc, Bool.false_eq_true, if_false]
  rcases hf : context.userMessages.find? (sameMessageId (message.bound json)) with _ | entry
  · have he := eraseP_of_forall_not (find?_eq_none.mp hf)
    simp only [he]
  simp only [hf, any_some, Bool.and_eq_false_iff, decide_eq_false_iff_not] at hs
  have hn : ¬ (entry.value = message.bound json ∧ entry.inherited = decide (source = .inherited)) := by tauto
  simp only [if_neg hn]

lemma mem_recorded {instructions : List Instruction}
    (h : instruction ∈ Ledger.recorded instructions message order) :
    (instruction ∈ instructions ∧ (message.messageId.isSome → instruction.message.messageId ≠ message.messageId)) ∨
      instruction = ⟨message, order⟩ := by
  rw [Ledger.recorded, mem_append, mem_filter, mem_singleton, Bool.or_eq_true, decide_eq_true_eq,
    isNone_iff_eq_none] at h
  rcases h with ⟨hin, hid⟩ | rfl
  · refine .inl ⟨hin, fun hs => hid.resolve_left ?_⟩
    exact isSome_iff_ne_none.mp hs
  · exact .inr rfl

section Recording

variable (h : Honest json ledger) (hor : Orderly json ledger.context (.recordUserMessage message source))

include h hor

lemma honest_stored (hst : Ledger.stored json ledger.context message source) :
    Honest json ⟨ledger.context, Ledger.recorded ledger.instructions message (accepted ledger.context source)⟩ where
  bounded := h.bounded
  counted := h.counted
  ids instruction hin := by
    rcases mem_recorded hin with ⟨ho, -⟩ | rfl
    · exact h.ids instruction ho
    · exact hor.1
  standing hc instruction hin := by
    rcases mem_recorded hin with ⟨ho, -⟩ | rfl
    · exact h.standing hc instruction ho
    · obtain ⟨entry, he, hi, hs⟩ := stands_of_stored hst
      exact ⟨entry, he, key_le_accepted h he hi hs hor, hs⟩

-- An entry that the message takes the place of stands for nothing that still counts.
lemma mem_eraseP_of_stands (hst : Ledger.stored json ledger.context message source = false)
    (he : entry ∈ ledger.context.userMessages) (hin : instruction ∈ ledger.instructions)
    (hsta : Stands json entry.value instruction.message)
    (hid : message.messageId.isSome → instruction.message.messageId ≠ message.messageId) :
    entry ∈ ledger.context.userMessages.eraseP (sameMessageId (message.bound json)) := by
  apply (mem_eraseP_of_neg ?_).mpr he
  intro hs
  simp only [sameMessageId, hor.1, Bool.and_eq_true, decide_eq_true_eq] at hs
  obtain ⟨hso, heq⟩ := hs
  rcases hsta with hv | ⟨-, hbe⟩
  · apply hid hso
    rw [← h.ids instruction hin, ← hv, heq]
  have hn := hor.2.2 entry he (heq ▸ hso) heq (origin_of_sameHeartbeat hbe)
  rw [hst] at hn
  exact Bool.false_ne_true hn

end Recording

section

variable (room : RetainedContext) (message : RetainedUserMessage) (source : RetainedInputSource)

def newEntry : Ordered RetainedUserMessage :=
  ⟨decide (source = .inherited), (room.takeOrder source).1, message⟩

lemma key_newEntry :
    (newEntry room message source).key = accepted room source := by
  cases source <;> rfl

structure Pushed (room after : RetainedContext) (entry : Ordered RetainedUserMessage) : Prop where
  only : ∀ other ∈ after.userMessages, other ∈ room.userMessages ∨ other = entry
  counter : room.nextOrder ≤ after.nextOrder
  counted : entry.inherited = false → entry.order ≤ after.nextOrder
  complete : after.userMessagesIncomplete = false → room.userMessagesIncomplete = false ∧
    entry ∈ after.userMessages ∧ ∀ other ∈ room.userMessages, other ∈ after.userMessages

lemma pushUserMessage_pushed :
    Pushed room (room.pushUserMessage json message source) (newEntry room message source) := by
  have ht := room.takeOrder_same source
  refine ⟨fun other ho => ?_, ht.counter, fun hl => ?_, fun hc => ?_⟩
  · have hin := mem_of_boundFamily ho
    rwa [mem_append, mem_singleton, ht.messages] at hin
  · cases source with
    | inherited => simp [newEntry] at hl
    | localInput order => exact (U64.le_saturatingAdd _ 1).trans (le_max_right _ _)
  · obtain ⟨hf, ha⟩ := boundFamily_complete hc
    refine ⟨ht.incomplete ▸ hf, ha _ (by simp [newEntry]), fun other ho => ha other ?_⟩
    exact mem_append_left _ (ht.messages ▸ ho)

end

section Recording

variable (h : Honest json ledger) (hor : Orderly json ledger.context (.recordUserMessage message source))

include h hor

lemma honest_new (hs : Ledger.stored json ledger.context message source = false) :
    Honest json ⟨ledger.context.recordUserMessage json message source,
      Ledger.recorded ledger.instructions message (place json ledger.context message source)⟩ := by
  rw [recordUserMessage_new hs, place, hs, if_neg Bool.false_ne_true]
  let room : RetainedContext := { ledger.context with
    verifiedAnswersIncomplete := ledger.context.verifiedAnswersIncomplete || decide (source = .inherited)
    userMessages := ledger.context.userMessages.eraseP (sameMessageId (message.bound json)) }
  have hp := @pushUserMessage_pushed json room (message.bound json) source
  have hk := key_newEntry room (message.bound json) source
  refine ⟨fun entry he => ?_, fun entry he hl => ?_, fun instruction hin => ?_, fun hc instruction hin => ?_⟩
  · rcases hp.only entry he with ho | rfl
    · exact h.bounded entry (mem_of_mem_eraseP ho)
    · exact bound_twice json message
  · rcases hp.only entry he with ho | rfl
    · exact (h.counted entry (mem_of_mem_eraseP ho) hl).trans hp.counter
    · exact hp.counted hl
  · rcases mem_recorded hin with ⟨ho, -⟩ | rfl
    · exact h.ids instruction ho
    · exact hor.1
  · obtain ⟨hf, hn, ha⟩ := hp.complete hc
    rcases mem_recorded hin with ⟨ho, hid⟩ | rfl
    · obtain ⟨entry, he, hle, hst⟩ := h.standing hf instruction ho
      exact ⟨entry, ha entry (mem_eraseP_of_stands h hor hs he ho hst hid), hle, hst⟩
    · exact ⟨_, hn, le_of_eq (congrArg RetainedContextOrder.position hk), .inl rfl⟩

lemma honest_recordUserMessage :
    Honest json ⟨ledger.context.recordUserMessage json message source,
      Ledger.recorded ledger.instructions message (place json ledger.context message source)⟩ := by
  rcases hs : Ledger.stored json ledger.context message source with _ | _
  · exact honest_new h hor hs
  rw [place, hs, if_pos rfl]
  exact (honest_stored h hor hs).of_same (recordUserMessage_stored hs)

end Recording

/-! ## Rollback and checkpoints -/

lemma inherited_of_key_lt (h : entry.key < .localOrder 0) : entry.inherited := by
  by_contra hl
  have hk : entry.key = .localOrder entry.order := if_neg hl
  rw [hk] at h
  exact absurd h (Nat.not_lt.mpr (Nat.le_add_right _ _))

lemma mem_instructionsAfter_rollback
    (h : instruction ∈ ledger.instructionsAfter json (.rollback turnIds firstRemovedMessageId source)) :
    instruction ∈ ledger.instructions ∧
      ∀ boundary ∈ Ledger.boundary ledger.context firstRemovedMessageId source, instruction.order < boundary := by
  obtain ⟨ho, hb⟩ := mem_filter.mp h
  refine ⟨ho, fun boundary hbo => ?_⟩
  rw [mem_def.mp hbo, all_some] at hb
  exact of_decide_eq_true hb

lemma honest_rollback (h : Honest json ledger) (turnIds : List Text) (firstRemovedMessageId : Option Text)
    (source : RetainedInputSource) :
    Honest json ⟨ledger.context.rollback turnIds firstRemovedMessageId source,
      ledger.instructionsAfter json (.rollback turnIds firstRemovedMessageId source)⟩ := by
  have hlef : ∀ instruction ∈ ledger.instructionsAfter json (.rollback turnIds firstRemovedMessageId source),
      instruction ∈ ledger.instructions ∧
        ∀ boundary ∈ Ledger.boundary ledger.context firstRemovedMessageId source, instruction.order < boundary :=
    fun _ => mem_instructionsAfter_rollback
  have hi : ∀ instruction ∈ ledger.instructionsAfter json (.rollback turnIds firstRemovedMessageId source),
      (instruction.message.bound json).messageId = instruction.message.messageId :=
    fun instruction hin => h.ids instruction (hlef instruction hin).1
  unfold RetainedContext.rollback
  cases hbo : ledger.context.rollbackBoundary firstRemovedMessageId source with
  | some boundary =>
    refine ⟨fun entry he => ?_, fun entry he hl => ?_, hi, fun hc instruction hin => ?_⟩
    · exact h.bounded entry (mem_filter.mp he).1
    · exact h.counted entry (mem_filter.mp he).1 hl
    · obtain ⟨ho, hb⟩ := hlef instruction hin
      obtain ⟨entry, he, hle, hs⟩ := h.standing hc instruction ho
      have hk : entry.key < boundary :=
        Nat.lt_of_le_of_lt hle (hb boundary (by simp [Ledger.boundary, hbo]))
      exact ⟨entry, mem_filter.mpr ⟨he, decide_eq_true hk⟩, hle, hs⟩
  | none => ?_
  refine ⟨fun entry he => ?_, fun entry he hl => ?_, hi, fun hc instruction hin => ?_⟩
  · exact h.bounded entry (mem_filter.mp he).1
  · exact h.counted entry (mem_filter.mp he).1 hl
  · obtain ⟨ho, hb⟩ := hlef instruction hin
    simp only [Bool.or_eq_false_iff, List.any_eq_false, Bool.not_eq_true] at hc
    obtain ⟨entry, he, hle, hs⟩ := h.standing hc.1 instruction ho
    refine ⟨entry, mem_filter.mpr ⟨he, ?_⟩, hle, hs⟩
    simp only [Bool.and_eq_true, Bool.or_eq_true, decide_eq_true_eq, Bool.not_eq_true']
    refine ⟨?_, hc.2.2 entry he⟩
    by_cases hso : source = .inherited
    · have hl := hb (.localOrder 0) (by rw [Ledger.boundary, hbo, if_pos hso]; rfl)
      exact .inr (inherited_of_key_lt (Nat.lt_of_le_of_lt hle hl))
    · exact .inl hso

lemma honest_restore (h : Honest json ledger) (survivingItems : List ResponseItemEnvelope) :
    Honest json ⟨RetainedContext.restore json (some ledger.context) survivingItems, ledger.instructions⟩ := by
  have hb : ledger.context.userMessages.map (fun entry => { entry with value := entry.value.bound json }) =
      ledger.context.userMessages := by
    conv => rhs; rw [← List.map_id ledger.context.userMessages]
    apply map_congr_left
    intro entry he
    rw [h.bounded entry he]
    rfl
  unfold RetainedContext.restore
  simp only [getD_some, hb]
  generalize hs : foldl (recordSenderUserMessages json) _ _ = senders
  have hsa : SameMessages ledger.context senders := by
    rw [← hs]
    refine SameMessages.trans ⟨?_, ?_, ?_⟩ (recordSenders_same json _ _)
    · rfl
    · rfl
    · exact le_past _ _
  have h := h.of_same hsa
  refine ⟨fun entry he => ?_, fun entry he hl => ?_, h.ids, fun hc instruction hin => ?_⟩
  · exact h.bounded entry (mem_of_boundFamily he)
  · exact (h.counted entry (mem_of_boundFamily he) hl).trans (le_past _ _)
  · obtain ⟨hf, ha⟩ := boundFamily_complete hc
    obtain ⟨entry, he, hst⟩ := h.standing hf instruction hin
    exact ⟨entry, ha entry he, hst⟩

lemma honest_step (h : Honest json ledger) (hor : Orderly json ledger.context op) :
    Honest json ⟨ledger.context.apply json op, ledger.instructionsAfter json op⟩ := by
  cases op with
  | reserveOrder => exact h.of_same ⟨rfl, rfl, U64.le_saturatingAdd _ _⟩
  | recordUserMessage message source => exact honest_recordUserMessage h hor
  | record event => exact h.of_same (ledger.context.record_same json event)
  | recordAssistantMessage message source =>
    exact h.of_same (ledger.context.recordAssistantMessage_same json message source)
  | rollback turnIds firstRemovedMessageId source => exact honest_rollback h turnIds firstRemovedMessageId source
  | restore survivingItems => exact honest_restore h survivingItems

lemma honest_run (hor : Avoids (Ledger.step json) (fun ledger op => ¬ Orderly json ledger.context op) .empty ops)
    (hr : run (Ledger.step json) .empty ops = some ledger) : Honest json ledger := by
  induction ops using reverseRecOn generalizing ledger with
  | nil =>
    cases hr
    exact honest_empty
  | append_singleton ops op ih => ?_
  obtain ⟨middle, hm, hs⟩ := run_concat.mp hr
  have hb : Avoids (Ledger.step json) (fun ledger op => ¬ Orderly json ledger.context op) .empty ops :=
    fun before other after s heq => hor before other (after ++ [op]) s (by simp [heq])
  have hop := not_not.mp (hor ops op [] middle rfl hm)
  cases hs
  exact honest_step (ih hb hm) hop

/-- While the evidence says that it is complete, every instruction that counts is represented. -/
theorem complete_evidence_represents {json : JsonLen} {ops : List EvidenceOp} {ledger : Ledger}
    (horderly : Avoids (Ledger.step json) (fun ledger op => ¬ Orderly json ledger.context op) .empty ops)
    (hrun : run (Ledger.step json) .empty ops = some ledger)
    (hcomplete : ledger.context.userMessagesComplete = true) :
    ∀ instruction ∈ ledger.instructions, Represented ledger.context instruction := by
  simp only [userMessagesComplete, Bool.and_eq_true, Bool.not_eq_true', List.all_eq_true] at hcomplete
  intro instruction hin
  obtain ⟨entry, he, hle, hs⟩ := (honest_run horderly hrun).standing hcomplete.1 instruction hin
  refine ⟨entry, he, hle, ?_⟩
  rcases hs with hv | ⟨-, hb⟩
  · have hf : (instruction.message.bound json).complete = true := hv ▸ hcomplete.2 entry he
    rw [bound_of_complete hf] at hv
    exact Or.inl ⟨by rw [hv], by rw [hv]⟩
  · exact Or.inr hb

/-! ## Two heartbeats -/

def invocation (messageId turnId time : String) : RetainedUserMessage where
  turnId := turnId.toList
  messageId := some messageId.toList
  text := "<heartbeat>\n  <automation_id>daily</automation_id>\n  <current_time_iso>".toList ++ time.toList ++
    "</current_time_iso>\n  <instructions>\nNever publish.\n  </instructions>\n</heartbeat>".toList
  complete := true
  origin := .heartbeat
  phase := none

def earlier : RetainedUserMessage := invocation "m5" "turn-1" "2026-01-01T00:00:00Z"
def later : RetainedUserMessage := invocation "m10" "turn-2" "2026-01-02T00:00:00Z"

def lateRecording : List EvidenceOp :=
  [.recordUserMessage later (.localInput (some 10)), .recordUserMessage earlier (.localInput (some 5)),
   .rollback ["turn-2".toList] (some "m10".toList) (.localInput (some 10))]

theorem late_invocation_lost :
    ∃ ledger, run (Ledger.step serdeLen) .empty lateRecording = some ledger ∧
      ledger.context.userMessagesComplete = true ∧ ledger.context.userMessages = [] ∧
      ∃ instruction ∈ ledger.instructions, instruction.message = earlier ∧
        ¬ Represented ledger.context instruction := by
  have hl : (Ledger.after serdeLen lateRecording).context.userMessagesComplete = true ∧
      (Ledger.after serdeLen lateRecording).context.userMessages = [] ∧
      ⟨earlier, .localOrder 5⟩ ∈ (Ledger.after serdeLen lateRecording).instructions ∧
      ¬ Represented (Ledger.after serdeLen lateRecording).context ⟨earlier, .localOrder 5⟩ := by decide +kernel
  exact ⟨_, rfl, hl.1, hl.2.1, _, hl.2.2.1, rfl, hl.2.2.2⟩

theorem invocations_represented :
    ∃ ledger, run (Ledger.step serdeLen) .empty
        [.recordUserMessage earlier (.localInput (some 5)), .recordUserMessage later (.localInput (some 10))] =
          some ledger ∧
      ledger.instructions.length = 2 ∧ ∀ instruction ∈ ledger.instructions, Represented ledger.context instruction := by
  have hf : Avoids (Ledger.step serdeLen) (fun ledger op => ¬ Orderly serdeLen ledger.context op) .empty
      [.recordUserMessage earlier (.localInput (some 5))] := by
    refine avoids_concat avoids_nil rfl (not_not.mpr ⟨?_, ?_, ?_⟩)
    · decide +kernel
    all_goals exact fun entry he => absurd he (by simp [Ledger.empty, RetainedContext.empty])
  have hs : Avoids (Ledger.step serdeLen) (fun ledger op => ¬ Orderly serdeLen ledger.context op) .empty
      [.recordUserMessage earlier (.localInput (some 5)), .recordUserMessage later (.localInput (some 10))] := by
    refine avoids_concat hf rfl (not_not.mpr ⟨?_, ?_, ?_⟩)
    · decide +kernel
    · rintro entry he - - _ ⟨⟩
      revert entry
      decide +kernel
    · decide +kernel
  exact ⟨_, rfl, by decide +kernel, complete_evidence_represents hs rfl (by decide +kernel)⟩

end Codex.History
