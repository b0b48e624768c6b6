import Codex.History.Items

/-!
# Normalizing a history

`core/src/context_manager/normalize.rs` and `normalize_history`, in a release build. The three sets of call ids of a
pass are one list of ids with their kind.
-/

namespace Codex.History

open Codex.Text ResponseItem List

/-- The kinds of calls that are told apart by their outputs. A local shell call is answered by a function output. -/
inductive CallKind where
  | function | toolSearch | customTool
  deriving DecidableEq

abbrev CallKey := CallKind × Text

def callKey : ResponseItem → Option CallKey
  | functionCall _ callId => some (.function, callId)
  | localShellCall _ (some callId) => some (.function, callId)
  | toolSearchCall _ (some callId) => some (.toolSearch, callId)
  | customToolCall _ callId => some (.customTool, callId)
  | _ => none

def outputKey : ResponseItem → Option CallKey
  | functionCallOutput _ (some callId) _ _ _ _ => some (.function, callId)
  | toolSearchOutput _ (some callId) _ _ _ _ => some (.toolSearch, callId)
  | customToolCallOutput _ callId _ _ _ => some (.customTool, callId)
  | _ => none

def callKeys (items : List ResponseItemEnvelope) : List CallKey := items.filterMap (callKey ·.item)
def outputKeys (items : List ResponseItemEnvelope) : List CallKey := items.filterMap (outputKey ·.item)

/-! ## Outputs for calls that have none -/

section
-- `Uuid::new_v5` under the fixed namespace, as it is displayed.
variable (newV5 : Text → Text)

def syntheticOutputId (tag : Text) (itemId : Option Text) : Option Text :=
  (itemId.filter fun id => !id.isEmpty).map fun sourceId => tag ++ "_" ++ newV5 (tag ++ ":" ++ sourceId)

def abortedFunctionOutput (head : Head) (callId : Text) : ResponseItem :=
  functionCallOutput (syntheticOutputId newV5 "fco" head.id) (some callId) none none (.fromText "aborted") none

def missingOutput (outputs : List CallKey) (envelope : ResponseItemEnvelope) : Option ResponseItemEnvelope :=
  match envelope.item with
  | functionCall head callId =>
    if (.function, callId) ∈ outputs then none else some (.new (abortedFunctionOutput newV5 head callId))
  | toolSearchCall head (some callId) =>
    if (.toolSearch, callId) ∈ outputs then none
    else some (.new (toolSearchOutput (syntheticOutputId newV5 "tso" head.id) (some callId)
      "completed" "client" [] none))
  | customToolCall head callId =>
    if (.customTool, callId) ∈ outputs then none
    else some (.new (customToolCallOutput (syntheticOutputId newV5 "ctco" head.id) callId none
      (.fromText "aborted") none))
  | localShellCall head (some callId) =>
    if (.function, callId) ∈ outputs then none else some (.new (abortedFunctionOutput newV5 head callId))
  | _ => none

def missingOutputsToInsert (items : List ResponseItemEnvelope) : List (Nat × ResponseItemEnvelope) :=
  items.zipIdx.filterMap fun entry => (missingOutput newV5 (outputKeys items) entry.1).map (entry.2, ·)

def ensureCallOutputsPresent (items : List ResponseItemEnvelope) : List ResponseItemEnvelope :=
  (missingOutputsToInsert newV5 items).reverse.foldl (fun items entry => items.insertIdx (entry.1 + 1) entry.2) items

end

/-! ## Outputs without a call -/

def isOrphan (calls : List CallKey) : ResponseItem → Bool
  | functionCallOutput _ (some callId) _ _ _ _ => (.function, callId) ∉ calls
  | customToolCallOutput _ callId _ _ _ => (.customTool, callId) ∉ calls
  | toolSearchOutput _ (some callId) _ execution _ _ =>
    execution ≠ "server" && decide ((.toolSearch, callId) ∉ calls)
  | _ => false

def orphanPositions (items : List ResponseItemEnvelope) : List Nat :=
  items.zipIdx.filterMap fun entry => if isOrphan (callKeys items) entry.1.item then some entry.2 else none

/-- `items.retain`, which drops the item that the next orphan position points at. -/
def retainOthers : List Nat → Nat → List ResponseItemEnvelope → List ResponseItemEnvelope
  | _, _, [] => []
  | orphans, position, envelope :: items =>
    if orphans.head? = some position then retainOthers orphans.tail (position + 1) items
    else envelope :: retainOthers orphans (position + 1) items

def removeOrphanOutputs (items : List ResponseItemEnvelope) : List ResponseItemEnvelope :=
  if (orphanPositions items).isEmpty then items else retainOthers (orphanPositions items) 0 items

/-! ## Media that the model does not take -/

inductive InputModality where
  | text | image | audio
  deriving DecidableEq

structure UnsupportedMedia where
  text : Text
  contentKind : Text

namespace UnsupportedMedia

def image : UnsupportedMedia where
  text := "image content omitted because you do not support image input"
  contentKind := "images.unsupported"

def audio : UnsupportedMedia where
  text := "audio content omitted because you do not support audio input"
  contentKind := "audio.unsupported"

def render (media : UnsupportedMedia) : ContentItem := .inputText media.text

def renderFragment (media : UnsupportedMedia) : AnnotatedContent := ⟨media.render, media.contentKind, .harness false⟩

end UnsupportedMedia

def ContentItem.isImage : ContentItem → Bool
  | inputImage _ _ => true
  | _ => false

def ContentItem.isAudio : ContentItem → Bool
  | inputAudio _ => true
  | _ => false

def FunctionCallOutputContentItem.isImage : FunctionCallOutputContentItem → Bool
  | inputImage _ _ => true
  | _ => false

def FunctionCallOutputContentItem.isAudio : FunctionCallOutputContentItem → Bool
  | inputAudio _ => true
  | _ => false

def FunctionCallOutputPayload.mapItems (f : FunctionCallOutputContentItem → FunctionCallOutputContentItem)
    (output : FunctionCallOutputPayload) : FunctionCallOutputPayload :=
  match output.body with
  | .text _ => output
  | .contentItems items => { output with body := .contentItems (items.map f) }

/-- The parts of messages and of tool outputs, changed one by one. -/
def mapParts (f : AnnotatedContent → AnnotatedContent)
    (g : FunctionCallOutputContentItem → FunctionCallOutputContentItem) :
    ResponseItem → ResponseItem
  | message m => message (setAnnotatedContent m ((toAnnotatedContent m).map f))
  | functionCallOutput outputId callId name toolNamespace output passthrough =>
    functionCallOutput outputId callId name toolNamespace (output.mapItems g) passthrough
  | customToolCallOutput outputId callId name output passthrough =>
    customToolCallOutput outputId callId name (output.mapItems g) passthrough
  | item => item

def replaceMedia {α : Type} (media : α → Bool) (placeholder part : α) : α := if media part then placeholder else part

def withoutImage : AnnotatedContent → AnnotatedContent :=
  replaceMedia (·.content.isImage) UnsupportedMedia.image.renderFragment

def withoutOutputImage : FunctionCallOutputContentItem → FunctionCallOutputContentItem :=
  replaceMedia (·.isImage) (.inputText UnsupportedMedia.image.text)

def withoutAudio : AnnotatedContent → AnnotatedContent :=
  replaceMedia (·.content.isAudio) UnsupportedMedia.audio.renderFragment

def withoutOutputAudio : FunctionCallOutputContentItem → FunctionCallOutputContentItem :=
  replaceMedia (·.isAudio) (.inputText UnsupportedMedia.audio.text)

def stripImages : ResponseItem → ResponseItem
  | imageGenerationCall head _ => imageGenerationCall head []
  | item => mapParts withoutImage withoutOutputImage item

def stripAudio (item : ResponseItem) : ResponseItem := mapParts withoutAudio withoutOutputAudio item

section

variable (inputModalities : List InputModality) (items : List ResponseItemEnvelope)

def stripImagesWhenUnsupported : List ResponseItemEnvelope :=
  if .image ∈ inputModalities then items
  else items.map fun envelope => { envelope with item := stripImages envelope.item }

def stripAudioWhenUnsupported : List ResponseItemEnvelope :=
  if .audio ∈ inputModalities then items
  else items.map fun envelope => { envelope with item := stripAudio envelope.item }

end

def normalizeHistory (newV5 : Text → Text) (inputModalities : List InputModality) (items : List ResponseItemEnvelope) :
    List ResponseItemEnvelope :=
  stripAudioWhenUnsupported inputModalities (stripImagesWhenUnsupported inputModalities
    (removeOrphanOutputs (ensureCallOutputsPresent newV5 items)))

/-! ## What each pass does to the list -/

variable (newV5 : Text → Text)

def filled (outputs : List CallKey) (envelope : ResponseItemEnvelope) : List ResponseItemEnvelope :=
  envelope :: (missingOutput newV5 outputs envelope).toList

lemma insertIdx_after (pre : List ResponseItemEnvelope) (e output : ResponseItemEnvelope)
    (rest : List ResponseItemEnvelope) :
    (pre ++ e :: rest).insertIdx (pre.length + 1) output = pre ++ e :: output :: rest := by
  induction pre with
  | nil => rfl
  | cons b pre ih => simpa using ih

-- Inserting from the last position on, nothing before a position moves.
lemma insert_missing (outputs : List CallKey) (pre items : List ResponseItemEnvelope) :
    ((items.zipIdx pre.length).filterMap fun entry =>
        (missingOutput newV5 outputs entry.1).map (entry.2, ·)).foldr
      (fun entry items => items.insertIdx (entry.1 + 1) entry.2) (pre ++ items) =
        pre ++ items.flatMap (filled newV5 outputs) := by
  induction items generalizing pre with
  | nil => simp
  | cons env items ih => ?_
  have hr := ih (pre ++ [env])
  simp only [length_append, length_cons, length_nil, append_assoc, cons_append, nil_append] at hr
  simp only [zipIdx_cons, flatMap_cons, filled]
  rcases hm : missingOutput newV5 outputs env with _ | output
  · simpa [hm] using hr
  simp only [filterMap_cons, hm, Option.map_some, foldr_cons]
  rw [hr, insertIdx_after]
  rfl

lemma ensureCallOutputsPresent_eq (items : List ResponseItemEnvelope) :
    ensureCallOutputsPresent newV5 items = items.flatMap (filled newV5 (outputKeys items)) := by
  unfold ensureCallOutputsPresent missingOutputsToInsert
  rw [foldl_reverse]
  exact insert_missing newV5 (outputKeys items) [] items

lemma retainOthers_eq (orphan : ResponseItemEnvelope → Bool) (position : Nat) (items : List ResponseItemEnvelope) :
    retainOthers ((items.zipIdx position).filterMap fun entry => if orphan entry.1 then some entry.2 else none)
      position items = items.filter fun e => !orphan e := by
  induction items generalizing position with
  | nil => rfl
  | cons env items ih => ?_
  unfold retainOthers
  by_cases h : orphan env
  · simp [h, ih (position + 1)]
  have hl : ((items.zipIdx (position + 1)).filterMap fun entry =>
      if orphan entry.1 then some entry.2 else none).head? ≠ some position := by
    intro hh
    obtain ⟨entry, he, heq⟩ := mem_filterMap.mp (mem_of_mem_head? hh)
    have hle := (mem_zipIdx he).1
    have hpo : entry.2 = position := by
      by_cases ho : orphan entry.1
      · simpa [ho] using heq
      · simp [ho] at heq
    omega
  have hf : (env :: items).filter (fun e => !orphan e) = env :: items.filter fun e => !orphan e := by
    simp [h]
  have hp : ((env :: items).zipIdx position).filterMap
      (fun entry => if orphan entry.1 then some entry.2 else none) =
        (items.zipIdx (position + 1)).filterMap fun entry => if orphan entry.1 then some entry.2 else none := by
    simp [h]
  rw [hf, hp, if_neg hl, ih (position + 1)]

lemma removeOrphanOutputs_eq (items : List ResponseItemEnvelope) :
    removeOrphanOutputs items = items.filter fun e => !isOrphan (callKeys items) e.item := by
  have h := retainOthers_eq (fun e => isOrphan (callKeys items) e.item) 0 items
  unfold removeOrphanOutputs
  by_cases he : (orphanPositions items).isEmpty
  · rw [if_pos he]
    have hn : orphanPositions items = [] := isEmpty_iff.mp he
    unfold orphanPositions at hn
    rw [hn] at h
    rw [← h]
    have ha : ∀ (position : Nat) (items : List ResponseItemEnvelope), retainOthers [] position items = items := by
      intro position items
      induction items generalizing position with
      | nil => rfl
      | cons env items ih => simp [retainOthers, ih]
    exact (ha 0 items).symm
  · rw [if_neg he]
    exact h

def strip (inputModalities : List InputModality) (item : ResponseItem) : ResponseItem :=
  let item := if .image ∈ inputModalities then item else stripImages item
  if .audio ∈ inputModalities then item else stripAudio item

lemma normalizeHistory_eq (inputModalities : List InputModality) (items : List ResponseItemEnvelope) :
    normalizeHistory newV5 inputModalities items =
      ((items.flatMap (filled newV5 (outputKeys items))).filter fun e =>
        !isOrphan (callKeys (items.flatMap (filled newV5 (outputKeys items)))) e.item).map
          fun e => { e with item := strip inputModalities e.item } := by
  unfold normalizeHistory stripAudioWhenUnsupported stripImagesWhenUnsupported strip
  rw [ensureCallOutputsPresent_eq, removeOrphanOutputs_eq]
  by_cases hi : .image ∈ inputModalities <;> by_cases ha : .audio ∈ inputModalities <;>
    simp [hi, ha, map_map]

end Codex.History
