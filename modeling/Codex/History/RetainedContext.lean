import Codex.History.Items

/-!
# Retained evidence

`history/src/retained_context.rs` with assistant messages and heartbeats. Lengths of serialized records are a
parameter. The random revision of an entry and its source are left out.
-/

namespace Codex.History

open Codex.Text

def maxFamilyRecords : Nat := 8
def maxRecordBytes : Nat := 16384
def maxFamilyBytes : Nat := 65536

/-! ## Text by its bytes -/

def byteLen (s : Text) : Nat := (s.map Char.utf8Size).sum

/-- `s.truncate(s.floor_char_boundary(bytes))`. -/
def truncateBytes : Nat → Text → Text
  | _, [] => []
  | bytes, c :: s => if c.utf8Size ≤ bytes then c :: truncateBytes (bytes - c.utf8Size) s else []

def stripSuffix (suffix s : Text) : Option Text := (stripPrefix suffix.reverse s.reverse).map List.reverse

/-! ## Records -/

structure VerifiedQuestionAnswer where
  question : Text
  answer : Text
  deriving DecidableEq

structure VerifiedAnswer where
  turnId : Text
  callId : Text
  questions : List VerifiedQuestionAnswer
  deriving DecidableEq

inductive UserInputOrigin where
  | user | heartbeat
  deriving DecidableEq

inductive MessagePhase where
  | commentary | partialAnswer | finalAnswer
  deriving DecidableEq

structure RetainedUserMessage where
  turnId : Text
  messageId : Option Text
  text : Text
  complete : Bool
  origin : UserInputOrigin
  phase : Option MessagePhase
  deriving DecidableEq

/-- A fact of this thread, by its acceptance counter, or one that was copied from the parent. -/
inductive RetainedInputSource where
  | localInput (order : Option U64)
  | inherited
  deriving DecidableEq

namespace RetainedInputSource

def acceptanceOrder : RetainedInputSource → Option U64
  | localInput order => order
  | inherited => none

def fromMetadata (metadata : Option CodexHarnessMetadata) : RetainedInputSource :=
  if metadata.any (·.inheritedUserMessage) then inherited else localInput (metadata.bind (·.userInputOrder))

end RetainedInputSource

inductive RetainedContextOrder where
  | inherited (order : U64)
  | localOrder (order : U64)
  deriving DecidableEq

namespace RetainedContextOrder

def position : RetainedContextOrder → Nat
  | inherited order => order.val
  | localOrder order => 2 ^ 64 + order.val

instance : LE RetainedContextOrder := ⟨fun a b => a.position ≤ b.position⟩
instance : LT RetainedContextOrder := ⟨fun a b => a.position < b.position⟩
instance (a b : RetainedContextOrder) : Decidable (a ≤ b) := inferInstanceAs (Decidable (a.position ≤ b.position))
instance (a b : RetainedContextOrder) : Decidable (a < b) := inferInstanceAs (Decidable (a.position < b.position))

end RetainedContextOrder

structure Ordered (T : Type) where
  inherited : Bool
  order : U64
  value : T
  deriving DecidableEq

def Ordered.key {T : Type} (entry : Ordered T) : RetainedContextOrder :=
  if entry.inherited then .inherited entry.order else .localOrder entry.order

inductive RetainedContextEvent where
  | verifiedAnswer (answer : VerifiedAnswer) (acceptanceOrder : Option U64)
  | deliveredAssistantMessage (message : RetainedUserMessage) (acceptanceOrder : U64)

/-- The length in bytes of what `serde_json` writes for a record or a family. -/
structure JsonLen where
  answer : VerifiedAnswer → Nat
  message : RetainedUserMessage → Nat
  answers : List (Ordered VerifiedAnswer) → Nat
  messages : List (Ordered RetainedUserMessage) → Nat
  deliveries : List (Ordered SenderUserMessages) → Nat

/-! ## What `serde_json` writes -/

def jsonStringLen (s : Text) : Nat :=
  2 + (s.map fun c => if c ∈ ['"', '\\', '\n', '\r', '\t', '\x08', '\x0c'] then 2
    else if c.toNat < 0x20 then 6 else c.utf8Size).sum

def jsonArrayLen (items : List Nat) : Nat := 2 + items.sum + (items.length - 1)

/-- The length of an object with these fields, each with the length of its value. -/
def jsonObjectLen (fields : List (Text × Nat)) : Nat :=
  jsonArrayLen (fields.map fun field => jsonStringLen field.1 + 1 + field.2)

def answerFields (answer : VerifiedAnswer) : List (Text × Nat) :=
  [("turn_id", jsonStringLen answer.turnId), ("call_id", jsonStringLen answer.callId),
    ("questions", jsonArrayLen (answer.questions.map fun item =>
      jsonObjectLen [("question", jsonStringLen item.question), ("answer", jsonStringLen item.answer)]))]

/-- The origin is written unless it is the user, and the phase if there is one. -/
def messageFields (message : RetainedUserMessage) : List (Text × Nat) :=
  let origin := if message.origin = .user then [] else [("origin".toList, jsonStringLen "heartbeat")]
  let phase := match message.phase with
    | none => []
    | some .commentary => [("phase".toList, jsonStringLen "commentary")]
    | some .partialAnswer => [("phase".toList, jsonStringLen "partial_answer")]
    | some .finalAnswer => [("phase".toList, jsonStringLen "final_answer")]
  ("turn_id", jsonStringLen message.turnId) :: ("message_id", message.messageId.elim 4 jsonStringLen) ::
    ("text", jsonStringLen message.text) :: ("complete", if message.complete then 4 else 5) :: (origin ++ phase)

def deliveryFields (messages : SenderUserMessages) : List (Text × Nat) :=
  [("receiver_turn_id", jsonStringLen messages.receiverTurnId),
    ("receiver_message_id", jsonStringLen messages.receiverMessageId), ("text", jsonStringLen messages.text)]

/-- The fields of the record stand beside those of its entry. -/
def jsonEntryLen (fields : T → List (Text × Nat)) (entry : Ordered T) : Nat :=
  jsonObjectLen ((if entry.inherited then [("inherited".toList, 4)] else []) ++
    ("order".toList, (Nat.toDigits 10 entry.order.val).length) :: fields entry.value)

def serdeLen : JsonLen where
  answer answer := jsonObjectLen (answerFields answer)
  message message := jsonObjectLen (messageFields message)
  answers items := jsonArrayLen (items.map (jsonEntryLen answerFields))
  messages items := jsonArrayLen (items.map (jsonEntryLen messageFields))
  deliveries items := jsonArrayLen (items.map (jsonEntryLen deliveryFields))

structure RetainedContext where
  verifiedAnswers : List (Ordered VerifiedAnswer)
  verifiedAnswersIncomplete : Bool
  userMessages : List (Ordered RetainedUserMessage)
  userMessagesIncomplete : Bool
  assistantMessages : List (Ordered RetainedUserMessage)
  assistantMessagesIncomplete : Bool
  nextOrder : U64
  senderDeliveries : List (Ordered SenderUserMessages)

def RetainedContext.empty : RetainedContext := ⟨[], false, [], false, [], false, 0, []⟩

/-! ## Heartbeats -/

structure Heartbeat where
  automationId : Text
  timestamp : Text
  instructions : Text
  deriving DecidableEq

def Heartbeat.parse (text : Text) : Option Heartbeat := do
  if byteLen text + (lines text).length * 6 + 64 > 3600 then none
  let text := (stripSuffix "\n".toList text).getD text
  let text ← stripPrefix "<heartbeat>\n  <automation_id>".toList text
  let (automationId, text) ← splitOnce "</automation_id>\n  <current_time_iso>".toList text
  let (timestamp, text) ← splitOnce "</current_time_iso>\n  <instructions>\n".toList text
  let instructions ← stripSuffix "\n  </instructions>\n</heartbeat>".toList text
  if automationId.isEmpty || byteLen automationId > 128
      || !automationId.all (fun c => c.isAlphanum || c = '-' || c = '_')
      || timestamp.isEmpty || byteLen timestamp > 64
      || !timestamp.all (fun c => c.isDigit || c ∈ ['T', 'Z', ':', '.', '+', '-']) then none
  some ⟨automationId, timestamp, instructions⟩

/-! ## Limits -/

def evict {T : Type} (len : List (Ordered T) → Nat) : List (Ordered T) → Bool → List (Ordered T) × Bool
  -- An empty family is written as two bytes.
  | [], incomplete => ([], incomplete)
  | entry :: items, incomplete =>
    if (entry :: items).length > maxFamilyRecords ∨ len (entry :: items) > maxFamilyBytes then evict len items true
    else (entry :: items, incomplete)

def boundFamily {T : Type} (len : List (Ordered T) → Nat) (items : List (Ordered T)) (incomplete : Bool) :
    List (Ordered T) × Bool :=
  evict len (items.insertionSort fun a b => a.key ≤ b.key) incomplete

def RetainedUserMessage.bound (json : JsonLen) (message : RetainedUserMessage) : RetainedUserMessage :=
  if json.message message > maxRecordBytes then
    { message with
      text := []
      complete := false
      turnId := truncateBytes 1024 message.turnId
      messageId := message.messageId.map (truncateBytes 1024) }
  else message

def VerifiedAnswer.bound (json : JsonLen) (answer : VerifiedAnswer) : VerifiedAnswer :=
  if json.answer answer > maxRecordBytes then
    ⟨truncateBytes 1024 answer.turnId, truncateBytes 1024 answer.callId, []⟩
  else answer

def SenderUserMessages.bound (messages : SenderUserMessages) : SenderUserMessages where
  receiverTurnId := truncateBytes 128 messages.receiverTurnId
  receiverMessageId := truncateBytes 128 messages.receiverMessageId
  text :=
    if byteLen messages.text > 3600 then
      ("Host: Sender context exceeds the evidence budget. " ++
        "Do not infer permission from missing evidence.\n").toList
    else messages.text

namespace RetainedContext

variable (json : JsonLen)

/-! ## Recording -/

section

variable (context : RetainedContext)

def reserveOrder : U64 × RetainedContext :=
  (context.nextOrder, { context with nextOrder := context.nextOrder.saturatingAdd 1 })

def recordOrder (acceptanceOrder : Option U64) : U64 × RetainedContext :=
  let order := acceptanceOrder.getD context.nextOrder
  (order, { context with nextOrder := max context.nextOrder (order.saturatingAdd 1) })

def nextInheritedOrder : U64 :=
  (((context.userMessages ++ context.assistantMessages).filter (·.inherited)).map
    fun entry => entry.order.saturatingAdd 1).foldl max 0

/-- The order of a new fact, of which only the local ones take the counter on. -/
def takeOrder (source : RetainedInputSource) : U64 × RetainedContext :=
  match source with
  | .inherited => (context.nextInheritedOrder, context)
  | .localInput order => context.recordOrder order

def userMessagesComplete : Bool :=
  !context.userMessagesIncomplete && context.userMessages.all (·.value.complete)

/-- Whether the latest version of the automation has these instructions, the latest entry first. -/
def unchangedIn (current : Heartbeat) : List (Ordered RetainedUserMessage) → Bool
  | [] => false
  | entry :: older =>
    match Heartbeat.parse entry.value.text with
    | none => false
    | some previous =>
      if previous.automationId = current.automationId then
        entry.value.complete && previous.instructions = current.instructions
      else unchangedIn current older

def unchangedHeartbeat (message : RetainedUserMessage) (inherited : Bool) : Bool :=
  message.complete && message.origin = .heartbeat &&
    match Heartbeat.parse message.text with
    | none => false
    | some current =>
      unchangedIn current
        (context.userMessages.reverse.filter fun entry =>
          entry.inherited = inherited && entry.value.origin = .heartbeat)

end

def sameMessageId (message : RetainedUserMessage) (entry : Ordered RetainedUserMessage) : Bool :=
  message.messageId.isSome && entry.value.messageId = message.messageId

section

variable (context : RetainedContext) (message : RetainedUserMessage) (source : RetainedInputSource)

def pushUserMessage : RetainedContext :=
  let taken := context.takeOrder source
  let entry : Ordered RetainedUserMessage := ⟨source = .inherited, taken.1, message⟩
  let bounded := boundFamily json.messages (taken.2.userMessages ++ [entry]) taken.2.userMessagesIncomplete
  { taken.2 with
    userMessages := bounded.1
    userMessagesIncomplete := bounded.2 }

def recordUserMessage : RetainedContext :=
  let message := message.bound json
  let inherited := decide (source = .inherited)
  -- An unchanged invocation is not a new instruction.
  if context.unchangedHeartbeat message inherited then context
  else
    let context := { context with verifiedAnswersIncomplete := context.verifiedAnswersIncomplete || inherited }
    match context.userMessages.find? (sameMessageId message) with
    | none => context.pushUserMessage json message source
    | some entry =>
      if entry.value = message ∧ entry.inherited = inherited then context
      else
        let context := { context with userMessages := context.userMessages.eraseP (sameMessageId message) }
        context.pushUserMessage json message source

def recordAssistantMessage : RetainedContext :=
  if source = .localInput none then context
  else
    let message := message.bound json
    let empty := message.complete && message.text.isEmpty
    let inherited := decide (source = .inherited)
    let previous := context.assistantMessages.find? (sameMessageId message)
    if previous.any (fun entry => entry.value = message && entry.inherited = inherited && !empty) then context
    else
      let context := { context with assistantMessages := context.assistantMessages.eraseP (sameMessageId message) }
      let taken := context.takeOrder source
      if empty then taken.2
      else
        let bounded := boundFamily json.messages (taken.2.assistantMessages ++ [⟨inherited, taken.1, message⟩])
          taken.2.assistantMessagesIncomplete
        { taken.2 with
          assistantMessages := bounded.1
          assistantMessagesIncomplete := bounded.2 }

end

section

variable (context : RetainedContext)

def recordVerifiedAnswer (answer : VerifiedAnswer) (acceptanceOrder : Option U64) : RetainedContext :=
  let answer := answer.bound json
  let same (existing : Ordered VerifiedAnswer) : Bool :=
    existing.value.turnId = answer.turnId && existing.value.callId = answer.callId
  if (context.verifiedAnswers.find? same).any (fun existing => existing.value = answer) then context
  else
    let context := { context with verifiedAnswers := context.verifiedAnswers.eraseP same }
    let taken := context.recordOrder acceptanceOrder
    let bounded := boundFamily json.answers (taken.2.verifiedAnswers ++ [⟨false, taken.1, answer⟩])
      taken.2.verifiedAnswersIncomplete
    { taken.2 with
      verifiedAnswers := bounded.1
      verifiedAnswersIncomplete := bounded.2 }

def record (event : RetainedContextEvent) : RetainedContext :=
  match event with
  | .verifiedAnswer answer acceptanceOrder => context.recordVerifiedAnswer json answer acceptanceOrder
  | .deliveredAssistantMessage message acceptanceOrder =>
    let message := message.bound json
    if context.assistantMessages.any (fun entry =>
        sameMessageId message entry && entry.value = message && !entry.inherited) then context
    else context.recordAssistantMessage json message (.localInput (some acceptanceOrder))

def recordSenderUserMessages (metadata : CodexHarnessMetadata) : RetainedContext :=
  match metadata.senderUserMessages with
  | none => context
  | some messages =>
    if context.senderDeliveries.any (fun entry => entry.value.receiverMessageId = messages.receiverMessageId) then
      context
    else
      let taken := context.recordOrder metadata.userInputOrder
      { taken.2 with
        senderDeliveries :=
          (boundFamily json.deliveries (taken.2.senderDeliveries ++ [⟨false, taken.1, messages.bound⟩]) false).1 }

/-! ## Checkpoints and rollback -/

def past (nextOrder : U64) (orders : List U64) : U64 :=
  orders.foldl (fun next order => max next (order.saturatingAdd 1)) nextOrder

def restore (checkpoint : Option RetainedContext) (survivingItems : List ResponseItemEnvelope) : RetainedContext :=
  let context := checkpoint.getD { empty with userMessagesIncomplete := true }
  let metadata := survivingItems.filterMap (·.metadata)
  let context := { context with
    verifiedAnswers := context.verifiedAnswers.map fun entry => { entry with value := entry.value.bound json }
    userMessages := context.userMessages.map fun entry => { entry with value := entry.value.bound json }
    assistantMessages := context.assistantMessages.map fun entry => { entry with value := entry.value.bound json }
    verifiedAnswersIncomplete := context.verifiedAnswersIncomplete ||
      (context.userMessages ++ context.assistantMessages).any (·.inherited)
    senderDeliveries := (boundFamily json.deliveries
      (context.senderDeliveries.map fun entry => { entry with value := entry.value.bound }) false).1
    nextOrder := past context.nextOrder
      (context.verifiedAnswers.map (·.order) ++
        ((context.userMessages ++ context.assistantMessages).filter fun entry => !entry.inherited).map (·.order) ++
        context.senderDeliveries.map (·.order)) }
  let context := metadata.foldl (recordSenderUserMessages json) context
  let orders := (metadata.filter fun entry => !entry.inheritedUserMessage).filterMap (·.userInputOrder)
  let answers := boundFamily json.answers context.verifiedAnswers context.verifiedAnswersIncomplete
  let messages := boundFamily json.messages context.userMessages context.userMessagesIncomplete
  let assistant := boundFamily json.messages context.assistantMessages context.assistantMessagesIncomplete
  { context with
    nextOrder := past context.nextOrder orders
    verifiedAnswers := answers.1
    verifiedAnswersIncomplete := answers.2
    userMessages := messages.1
    userMessagesIncomplete := messages.2
    assistantMessages := assistant.1
    assistantMessagesIncomplete := assistant.2 }

def rollbackBoundary (firstRemovedMessageId : Option Text)
    (source : RetainedInputSource) : Option RetainedContextOrder :=
  (source.acceptanceOrder.map .localOrder).or
    (firstRemovedMessageId.bind fun id =>
      (context.userMessages.find? fun entry => entry.value.messageId = some id).map Ordered.key)

def rollback (turnIds : List Text) (firstRemovedMessageId : Option Text)
    (source : RetainedInputSource) : RetainedContext :=
  match context.rollbackBoundary firstRemovedMessageId source with
  | some boundary =>
    { context with
      senderDeliveries := context.senderDeliveries.filter fun entry => entry.key < boundary
      verifiedAnswers := context.verifiedAnswers.filter fun entry => entry.key < boundary
      userMessages := context.userMessages.filter fun entry => entry.key < boundary
      assistantMessages := context.assistantMessages.filter fun entry => entry.key < boundary }
  | none =>
    let kept (message : Ordered RetainedUserMessage) : Bool :=
      (source ≠ .inherited || message.inherited) && !turnIds.contains message.value.turnId
    { context with
      userMessagesIncomplete := context.userMessagesIncomplete || (firstRemovedMessageId.isSome ||
        context.userMessages.any fun message => turnIds.contains message.value.turnId)
      verifiedAnswers := context.verifiedAnswers.filter fun answer =>
        source ≠ .inherited && !turnIds.contains answer.value.turnId
      senderDeliveries := context.senderDeliveries.filter fun entry =>
        source ≠ .inherited && !turnIds.contains entry.value.receiverTurnId
      assistantMessages := context.assistantMessages.filter kept
      userMessages := context.userMessages.filter kept }

def retainAnswers (keep : VerifiedAnswer → Bool) : RetainedContext :=
  { context with verifiedAnswers := context.verifiedAnswers.filter fun answer => keep answer.value }

end

end RetainedContext

end Codex.History
