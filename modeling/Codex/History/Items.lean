import Mathlib
import Codex.Text

/-!
# Response items

The items of `protocol/src/models.rs`. What an item carries that nothing here reads stands in `rest`.
-/

namespace Codex.History

open Codex.Text List

abbrev U64 := Fin (2 ^ 64)

instance u64NeZero : NeZero (2 ^ 64 : Nat) := ⟨by decide⟩

def U64.saturatingAdd (a b : U64) : U64 :=
  if h : a.val + b.val < 2 ^ 64 then ⟨a.val + b.val, h⟩ else ⟨2 ^ 64 - 1, by omega⟩

inductive ImageReference where
  | inline (imageUrl : Text)
  | file (fileId : Text)
  deriving DecidableEq

inductive ImageDetail where
  | auto | low | high | original
  deriving DecidableEq

inductive ContentItem where
  | inputText (text : Text)
  | inputImage (image : ImageReference) (detail : Option ImageDetail)
  | inputAudio (audioUrl : Text)
  | outputText (text : Text) (annotations logprobs : Option (List Text))
  deriving DecidableEq

inductive ContentItemProvenance where
  | unknown
  | developerInstructions (fromAdditionalRequirements : Bool)
  | skills
  | agentsMd
  | harness (hook : Bool)
  | tool (toolNamespace : Option Text)
  | user
  deriving DecidableEq

structure InternalChatMessageMetadataPassthrough where
  turnId : Option Text
  contentItemKinds : Option (List Text)
  contentItemMetadata : Option (List ContentItemProvenance)
  rest : Option Text
  deriving DecidableEq

abbrev Passthrough := InternalChatMessageMetadataPassthrough

namespace InternalChatMessageMetadataPassthrough

def default : Passthrough := ⟨none, none, none, none⟩

end InternalChatMessageMetadataPassthrough

inductive FunctionCallOutputContentItem where
  | inputText (text : Text)
  | inputImage (image : ImageReference) (detail : Option ImageDetail)
  | inputAudio (audioUrl : Text)
  | encryptedContent (encryptedContent : Text)
  deriving DecidableEq

inductive FunctionCallOutputBody where
  | text (content : Text)
  | contentItems (items : List FunctionCallOutputContentItem)
  deriving DecidableEq

structure FunctionCallOutputPayload where
  body : FunctionCallOutputBody
  success : Option Bool
  deriving DecidableEq

def FunctionCallOutputPayload.fromText (content : Text) : FunctionCallOutputPayload := ⟨.text content, none⟩

structure Message where
  id : Option Text
  role : Text
  content : List ContentItem
  passthrough : Option Passthrough
  rest : Text
  deriving DecidableEq

structure Head where
  id : Option Text
  passthrough : Option Passthrough
  rest : Text
  deriving DecidableEq

inductive ResponseItem where
  | additionalTools (id : Option Text) (rest : Text)
  | message (m : Message)
  | agentMessage (head : Head)
  | reasoning (head : Head)
  | localShellCall (head : Head) (callId : Option Text)
  | functionCall (head : Head) (callId : Text)
  | toolSearchCall (head : Head) (callId : Option Text)
  | functionCallOutput (id : Option Text) (callId name toolNamespace : Option Text)
      (output : FunctionCallOutputPayload) (passthrough : Option Passthrough)
  | customToolCall (head : Head) (callId : Text)
  | customToolCallOutput (id : Option Text) (callId : Text) (name : Option Text)
      (output : FunctionCallOutputPayload) (passthrough : Option Passthrough)
  | toolSearchOutput (id callId : Option Text) (status execution : Text) (tools : List Text)
      (passthrough : Option Passthrough)
  | webSearchCall (head : Head)
  | imageGenerationCall (head : Head) (result : Text)
  | compaction (head : Head)
  | configurationUpdate (reasoning : Text)
  | compactionTrigger
  | contextCompaction (head : Head)
  | other
  deriving DecidableEq

namespace ResponseItem

def id : ResponseItem → Option Text
  | additionalTools id _ => id
  | message m => m.id
  | agentMessage head | reasoning head | localShellCall head _ | functionCall head _ | toolSearchCall head _
  | customToolCall head _ | webSearchCall head | imageGenerationCall head _ | compaction head
  | contextCompaction head => head.id
  | functionCallOutput id _ _ _ _ _ => id
  | customToolCallOutput id _ _ _ _ => id
  | toolSearchOutput id _ _ _ _ _ => id
  | configurationUpdate _ | compactionTrigger | other => none

def passthrough : ResponseItem → Option Passthrough
  | message m => m.passthrough
  | agentMessage head | reasoning head | localShellCall head _ | functionCall head _ | toolSearchCall head _
  | customToolCall head _ | webSearchCall head | imageGenerationCall head _ | compaction head
  | contextCompaction head => head.passthrough
  | functionCallOutput _ _ _ _ _ passthrough => passthrough
  | customToolCallOutput _ _ _ _ passthrough => passthrough
  | toolSearchOutput _ _ _ _ _ passthrough => passthrough
  | additionalTools _ _ | configurationUpdate _ | compactionTrigger | other => none

def turnId (item : ResponseItem) : Option Text :=
  (item.passthrough.bind (·.turnId)).filter fun turnId => !turnId.isEmpty

end ResponseItem

structure SenderUserMessages where
  receiverTurnId : Text
  receiverMessageId : Text
  text : Text
  deriving DecidableEq

structure CodexHarnessMetadata where
  userInputOrder : Option U64
  inheritedUserMessage : Bool
  senderUserMessages : Option SenderUserMessages
  deriving DecidableEq

structure ResponseItemEnvelope where
  item : ResponseItem
  metadata : Option CodexHarnessMetadata
  deriving DecidableEq

def ResponseItemEnvelope.new (item : ResponseItem) : ResponseItemEnvelope := ⟨item, none⟩

/-! ## Content with its annotations -/

structure AnnotatedContent where
  content : ContentItem
  kind : Text
  metadata : ContentItemProvenance
  deriving DecidableEq

def annotations {α : Type} (missing : α) : List ContentItem → List α → List α
  | [], _ => []
  | _ :: content, [] => missing :: annotations missing content []
  | _ :: content, a :: known => a :: annotations missing content known

def toAnnotatedContent (m : Message) : List AnnotatedContent :=
  let kinds := (m.passthrough.bind (·.contentItemKinds)).getD []
  let metadata := (m.passthrough.bind (·.contentItemMetadata)).getD []
  zipWith (fun part metadata => ⟨part.1, part.2, metadata⟩)
    (m.content.zip (annotations "unknown".toList m.content kinds)) (annotations .unknown m.content metadata)

def setAnnotatedContent (m : Message) (annotated : List AnnotatedContent) : Message :=
  let metadata := annotated.map (·.metadata)
  { m with
    content := annotated.map (·.content)
    passthrough := some { m.passthrough.getD .default with
      contentItemKinds := some (annotated.map (·.kind))
      contentItemMetadata := if metadata.any (· ≠ .unknown) then some metadata else none } }

lemma annotations_length (missing : α) (content : List ContentItem) (known : List α) :
    (annotations missing content known).length = content.length := by
  induction content generalizing known with
  | nil => rfl
  | cons c content ih => cases known <;> simp [annotations, ih]

lemma annotations_map {α β : Type} (missing : α) (f : β → ContentItem) (g : β → α) (parts : List β) :
    annotations missing (parts.map f) (parts.map g) = parts.map g := by
  induction parts with
  | nil => rfl
  | cons p parts ih => simp [annotations, ih]

lemma annotations_replicate {α β : Type} (missing : α) (f : β → ContentItem) (parts : List β) :
    annotations missing (parts.map f) [] = parts.map fun _ => missing := by
  induction parts with
  | nil => rfl
  | cons p parts ih => simp [annotations, ih]

lemma zipWith_parts (parts : List AnnotatedContent) :
    zipWith (fun part metadata => AnnotatedContent.mk part.1 part.2 metadata)
      ((parts.map (·.content)).zip (parts.map (·.kind))) (parts.map (·.metadata)) = parts := by
  induction parts with
  | nil => rfl
  | cons p parts ih => simp [ih]

lemma toAnnotatedContent_content (m : Message) : (toAnnotatedContent m).map (·.content) = m.content := by
  unfold toAnnotatedContent
  have key : ∀ (content : List ContentItem) (kinds : List Text) (metadata : List ContentItemProvenance),
      kinds.length = content.length → metadata.length = content.length →
      (zipWith (fun part metadata => AnnotatedContent.mk part.1 part.2 metadata)
        (content.zip kinds) metadata).map (·.content) = content := by
    intro content
    induction content with
    | nil => intro kinds metadata hk hm; simp
    | cons c content ih => ?_
    intro kinds metadata hk hm
    obtain ⟨k, kinds, rfl⟩ := exists_cons_of_length_eq_add_one hk
    obtain ⟨p, metadata, rfl⟩ := exists_cons_of_length_eq_add_one hm
    simp only [zip_cons_cons, zipWith_cons_cons, map_cons]
    rw [ih kinds metadata (by simpa using hk) (by simpa using hm)]
  apply key
  all_goals exact annotations_length _ _ _

lemma toAnnotatedContent_set (m : Message) (parts : List AnnotatedContent) :
    toAnnotatedContent (setAnnotatedContent m parts) = parts := by
  have hk := annotations_map "unknown".toList AnnotatedContent.content AnnotatedContent.kind parts
  have hm : annotations .unknown (parts.map (·.content))
      ((if (parts.map (·.metadata)).any (· ≠ .unknown) then some (parts.map (·.metadata)) else none).getD []) =
        parts.map (·.metadata) := by
    by_cases h : (parts.map (·.metadata)).any (· ≠ .unknown)
    · rw [if_pos h]
      exact annotations_map _ _ _ _
    rw [if_neg h, Option.getD_none, annotations_replicate]
    apply map_congr_left
    intro p hp
    simp only [any_eq_true, mem_map, decide_eq_true_eq, not_exists, not_and] at h
    by_contra hne
    exact h p.metadata ⟨p, hp, rfl⟩ (fun h => hne h.symm)
  unfold toAnnotatedContent setAnnotatedContent
  simp only [Option.bind_some, Option.getD_some]
  rw [hk, hm]
  exact zipWith_parts parts

lemma setAnnotatedContent_twice (m : Message) (parts parts' : List AnnotatedContent) :
    setAnnotatedContent (setAnnotatedContent m parts) parts' = setAnnotatedContent m parts' := rfl

end Codex.History
