import Codex.History.Normalize

/-! # The prompt: calls and outputs in pairs, the rest in its order, nothing left for a second pass -/

namespace Codex.History

open Codex.Text ResponseItem List Option FunctionCallOutputPayload

/-- A search that the server ran, whose output stands without a call. -/
def serverExecuted : ResponseItem → Bool
  | toolSearchOutput _ _ _ execution _ _ => execution = "server".toList
  | _ => false

def Orphan (items : List ResponseItemEnvelope) (e : ResponseItemEnvelope) : Prop :=
  ∃ k, outputKey e.item = some k ∧ serverExecuted e.item = false ∧ ∀ c ∈ items, callKey c.item ≠ some k

/-- Calls have outputs and outputs have calls. -/
structure WellPaired (items : List ResponseItemEnvelope) : Prop where
  answered : ∀ e ∈ items, ∀ k, callKey e.item = some k → ∃ o ∈ items, outputKey o.item = some k
  called : ∀ e ∈ items, ∀ k, outputKey e.item = some k → serverExecuted e.item = false →
    ∃ c ∈ items, callKey c.item = some k

/-! ## How an item is shown -/

section

variable (inputModalities : List InputModality)

def ContentItem.shown : ContentItem → ContentItem
  | inputImage image detail =>
    if .image ∈ inputModalities then inputImage image detail else UnsupportedMedia.image.render
  | inputAudio audioUrl => if .audio ∈ inputModalities then inputAudio audioUrl else UnsupportedMedia.audio.render
  | part => part

def FunctionCallOutputContentItem.shown : FunctionCallOutputContentItem → FunctionCallOutputContentItem
  | inputImage image detail =>
    if .image ∈ inputModalities then inputImage image detail else inputText UnsupportedMedia.image.text
  | inputAudio audioUrl =>
    if .audio ∈ inputModalities then inputAudio audioUrl else inputText UnsupportedMedia.audio.text
  | part => part

def placeholders : ResponseItem → ResponseItem
  | message m => message { m with content := m.content.map (ContentItem.shown inputModalities) }
  | functionCallOutput outputId callId name toolNamespace output passthrough =>
    functionCallOutput outputId callId name toolNamespace
      (output.mapItems (FunctionCallOutputContentItem.shown inputModalities)) passthrough
  | customToolCallOutput outputId callId name output passthrough =>
    customToolCallOutput outputId callId name
      (output.mapItems (FunctionCallOutputContentItem.shown inputModalities)) passthrough
  | item => item

def shown : ResponseItem → ResponseItem
  | imageGenerationCall head result =>
    imageGenerationCall head (if .image ∈ inputModalities then result else [])
  | item => placeholders inputModalities item

end

def unannotated (passthrough : Option Passthrough) : Passthrough :=
  { passthrough.getD .default with
    contentItemKinds := none
    contentItemMetadata := none }

/-- The same item, but for the kind and the source noted for each part of a message. -/
def SameButAnnotations : ResponseItem → ResponseItem → Prop
  | message m, message m' =>
    { m' with passthrough := none } = { m with passthrough := none } ∧
      unannotated m'.passthrough = unannotated m.passthrough
  | item, item' => item' = item

/-- The prompt made of the items, item by item. -/
inductive Prompted (inputModalities : List InputModality) (items : List ResponseItemEnvelope) :
    List ResponseItemEnvelope → List ResponseItemEnvelope → Prop
  | nil : Prompted inputModalities items [] []
  | orphan {e rest out} : Orphan items e → Prompted inputModalities items rest out →
      Prompted inputModalities items (e :: rest) out
  | kept {e e' rest out} : ¬ Orphan items e → e'.metadata = e.metadata →
      SameButAnnotations (shown inputModalities e.item) e'.item → Prompted inputModalities items rest out →
      Prompted inputModalities items (e :: rest) (e' :: out)
  | answered {e e' o k rest out} : ¬ Orphan items e → e'.metadata = e.metadata →
      SameButAnnotations (shown inputModalities e.item) e'.item → callKey e.item = some k →
      (∀ o ∈ items, outputKey o.item ≠ some k) → outputKey o.item = some k →
      Prompted inputModalities items rest out → Prompted inputModalities items (e :: rest) (e' :: o :: out)

/-! ## Keys -/

variable {k : CallKey} {items : List ResponseItemEnvelope} {e : ResponseItemEnvelope} {item : ResponseItem}
  {calls outputs : List CallKey}

lemma outputKey_of_call (h : callKey item = some k) : outputKey item = none := by
  cases item with
  | functionCall | customToolCall | localShellCall | toolSearchCall => rfl
  | _ => cases h

lemma mem_callKeys : k ∈ callKeys items ↔ ∃ c ∈ items, callKey c.item = some k := mem_filterMap

lemma mem_outputKeys : k ∈ outputKeys items ↔ ∃ o ∈ items, outputKey o.item = some k := mem_filterMap

lemma isOrphan_iff :
    isOrphan calls item ↔ ∃ k, outputKey item = some k ∧ serverExecuted item = false ∧ k ∉ calls := by
  cases item with
  | functionCallOutput outputId callId name toolNamespace output passthrough =>
    cases callId <;> simp [isOrphan, outputKey, serverExecuted]
  | toolSearchOutput outputId callId status execution tools passthrough =>
    rcases callId with _ | callId
    · simp [isOrphan, outputKey]
    simp only [isOrphan, outputKey, serverExecuted, Bool.and_eq_true, decide_eq_true_eq, decide_eq_false_iff_not,
      Option.some.injEq, exists_eq_left']
  | customToolCallOutput outputId callId name output passthrough => simp [isOrphan, outputKey, serverExecuted]
  | _ =>
    constructor
    · intro h
      cases h
    · rintro ⟨k, hk, -⟩
      cases hk

lemma orphan_iff : Orphan items e ↔ isOrphan (callKeys items) e.item := by
  rw [isOrphan_iff]
  unfold Orphan
  simp only [mem_callKeys, not_exists, not_and]

lemma not_isOrphan_of_call (h : callKey item = some k) : isOrphan calls item = false := by
  rw [Bool.eq_false_iff]
  intro ho
  obtain ⟨_, hk, -⟩ := isOrphan_iff.mp ho
  rw [outputKey_of_call h] at hk
  simp at hk

lemma not_isOrphan_of_called (h : outputKey item = some k) (hk : k ∈ calls) :
    isOrphan calls item = false := by
  rw [Bool.eq_false_iff]
  intro ho
  obtain ⟨_, hke, -, hn⟩ := isOrphan_iff.mp ho
  rw [h, Option.some.injEq] at hke
  exact hn (hke ▸ hk)

lemma isOrphan_congr (h : ∀ k, k ∈ calls ↔ k ∈ calls') (item : ResponseItem) :
    isOrphan calls item = isOrphan calls' item := by
  rw [Bool.eq_iff_iff, isOrphan_iff, isOrphan_iff]
  simp only [h]

variable {newV5 : Text → Text}

lemma missingOutput_some (h : missingOutput newV5 outputs e = some o) :
    ∃ k, callKey e.item = some k ∧ k ∉ outputs ∧ outputKey o.item = some k ∧ callKey o.item = none := by
  unfold missingOutput at h
  split at h
  case h_5 => simp at h
  all_goals
    split at h
    case isTrue => simp at h
    case isFalse hn =>
      rename_i hi
      cases h
      exact ⟨_, by rw [hi]; rfl, hn, rfl, rfl⟩

lemma missingOutput_none (h : missingOutput newV5 outputs e = none) (hk : callKey e.item = some k) :
    k ∈ outputs := by
  by_contra hn
  obtain ⟨item, _⟩ := e
  cases item with
  | functionCall head callId | customToolCall head callId =>
    cases hk
    exact some_ne_none _ ((if_neg hn).symm.trans h)
  | localShellCall head callId | toolSearchCall head callId =>
    rcases callId with _ | callId
    · cases hk
    cases hk
    exact some_ne_none _ ((if_neg hn).symm.trans h)
  | _ => cases hk

lemma missingOutput_congr (h : ∀ k, callKey e.item = some k → (k ∈ outputs ↔ k ∈ outputs')) :
    missingOutput newV5 outputs e = missingOutput newV5 outputs' e := by
  unfold missingOutput
  split
  case h_5 => rfl
  all_goals
    rename_i hi
    have hk := h _ (by rw [hi]; rfl)
    simp only [hk]

/-! ## Parts -/

section
variable {α : Type} {p q : α → Bool} {a b : α}

lemma replaceMedia_twice (x : α) :
    replaceMedia p a (replaceMedia p a x) = replaceMedia p a x := by
  unfold replaceMedia
  by_cases h : p x
  · simp [h]
  · simp [h]

lemma replaceMedia_comm (ha : q a = false) (hb : p b = false) (hpq : ∀ x, p x → q x = false) (x : α) :
    replaceMedia p a (replaceMedia q b x) = replaceMedia q b (replaceMedia p a x) := by
  unfold replaceMedia
  by_cases hp : p x
  · simp [hp, hpq x hp, ha]
  by_cases hq : q x
  · simp [hp, hq, hb]
  · simp [hp, hq]

end

lemma ContentItem.not_isAudio {part : ContentItem} (h : part.isImage) : part.isAudio = false := by
  cases part with
  | inputImage => rfl
  | _ => cases h

lemma FunctionCallOutputContentItem.not_isAudio {part : FunctionCallOutputContentItem} (h : part.isImage) :
    part.isAudio = false := by
  cases part with
  | inputImage => rfl
  | _ => cases h

lemma FunctionCallOutputPayload.mapItems_mapItems
    (f g : FunctionCallOutputContentItem → FunctionCallOutputContentItem) (output : FunctionCallOutputPayload) :
    (output.mapItems f).mapItems g = output.mapItems (g ∘ f) := by
  obtain ⟨body, _⟩ := output
  cases body with
  | text content => rfl
  | contentItems items => simp [mapItems]

lemma mapParts_mapParts (f f' : AnnotatedContent → AnnotatedContent)
    (g g' : FunctionCallOutputContentItem → FunctionCallOutputContentItem) (item : ResponseItem) :
    mapParts f' g' (mapParts f g item) = mapParts (f' ∘ f) (g' ∘ g) item := by
  cases item with
  | message m => simp only [mapParts, toAnnotatedContent_set, setAnnotatedContent_twice, List.map_map]
  | functionCallOutput | customToolCallOutput => simp only [mapParts, mapItems_mapItems]
  | _ => rfl

/-- Only the result of an image generation call is emptied, apart from the parts. -/
def clearGenerated : ResponseItem → ResponseItem
  | imageGenerationCall head _ => imageGenerationCall head []
  | item => item

section

variable (item : ResponseItem)

lemma stripImages_eq :
    stripImages item = mapParts withoutImage withoutOutputImage (clearGenerated item) := by
  cases item <;> rfl

section

variable (f : AnnotatedContent → AnnotatedContent)
  (g : FunctionCallOutputContentItem → FunctionCallOutputContentItem) (item : ResponseItem)

lemma clearGenerated_mapParts :
    clearGenerated (mapParts f g item) = mapParts f g (clearGenerated item) := by
  cases item <;> rfl

lemma clearGenerated_twice : clearGenerated (clearGenerated item) = clearGenerated item := by
  cases item <;> rfl

lemma stripImages_twice : stripImages (stripImages item) = stripImages item := by
  have hp : withoutImage ∘ withoutImage = withoutImage :=
    funext (replaceMedia_twice (p := fun part : AnnotatedContent => part.content.isImage))
  have ho : withoutOutputImage ∘ withoutOutputImage = withoutOutputImage := funext replaceMedia_twice
  rw [stripImages_eq, stripImages_eq, clearGenerated_mapParts, clearGenerated_twice, mapParts_mapParts, hp, ho]

lemma stripAudio_twice : stripAudio (stripAudio item) = stripAudio item := by
  have hp : withoutAudio ∘ withoutAudio = withoutAudio :=
    funext (replaceMedia_twice (p := fun part : AnnotatedContent => part.content.isAudio))
  have ho : withoutOutputAudio ∘ withoutOutputAudio = withoutOutputAudio := funext replaceMedia_twice
  unfold stripAudio
  rw [mapParts_mapParts, hp, ho]

lemma stripImages_stripAudio : stripImages (stripAudio item) = stripAudio (stripImages item) := by
  have hp : withoutImage ∘ withoutAudio = withoutAudio ∘ withoutImage :=
    funext (replaceMedia_comm (p := fun part : AnnotatedContent => part.content.isImage)
      (q := fun part => part.content.isAudio) rfl rfl fun _ => ContentItem.not_isAudio)
  have ho : withoutOutputImage ∘ withoutOutputAudio = withoutOutputAudio ∘ withoutOutputImage :=
    funext (replaceMedia_comm rfl rfl fun _ => FunctionCallOutputContentItem.not_isAudio)
  unfold stripAudio
  rw [stripImages_eq, stripImages_eq, clearGenerated_mapParts, mapParts_mapParts, mapParts_mapParts, hp, ho]

lemma strip_twice (inputModalities : List InputModality) (item : ResponseItem) :
    strip inputModalities (strip inputModalities item) = strip inputModalities item := by
  unfold strip
  by_cases hi : .image ∈ inputModalities <;> by_cases ha : .audio ∈ inputModalities <;>
    simp only [hi, ha, if_true, if_false, stripImages_stripAudio, stripImages_twice, stripAudio_twice]

/-! ## What is shown of an item -/

lemma callKey_mapParts :
    callKey (mapParts f g item) = callKey item ∧ outputKey (mapParts f g item) = outputKey item ∧
      serverExecuted (mapParts f g item) = serverExecuted item := by
  cases item with
  | functionCallOutput outputId callId => cases callId <;> exact ⟨rfl, rfl, rfl⟩
  | _ => exact ⟨rfl, rfl, rfl⟩

end

lemma callKey_clearGenerated :
    callKey (clearGenerated item) = callKey item ∧ outputKey (clearGenerated item) = outputKey item ∧
      serverExecuted (clearGenerated item) = serverExecuted item := by
  cases item <;> exact ⟨rfl, rfl, rfl⟩

end

section

variable (inputModalities : List InputModality)

lemma callKey_strip (item : ResponseItem) :
    callKey (strip inputModalities item) = callKey item ∧ outputKey (strip inputModalities item) = outputKey item ∧
      serverExecuted (strip inputModalities item) = serverExecuted item := by
  unfold strip
  by_cases hi : .image ∈ inputModalities <;> by_cases ha : .audio ∈ inputModalities <;>
    simp only [hi, ha, if_true, if_false, stripAudio, stripImages_eq, callKey_mapParts, callKey_clearGenerated,
      and_self]

lemma mapItems_id (output : FunctionCallOutputPayload) : output.mapItems (fun part => part) = output := by
  obtain ⟨body, _⟩ := output
  cases body with
  | text content => rfl
  | contentItems items => simp [mapItems]

lemma strip_output_part (part : FunctionCallOutputContentItem) :
    (if .audio ∈ inputModalities then (fun part => part) else withoutOutputAudio)
      ((if .image ∈ inputModalities then (fun part => part) else withoutOutputImage) part) =
        part.shown inputModalities := by
  by_cases hi : .image ∈ inputModalities <;> by_cases ha : .audio ∈ inputModalities <;>
    simp only [hi, if_true] <;> cases part <;>
    simp only [FunctionCallOutputContentItem.shown, hi, ha, if_true] <;> rfl

lemma strip_part (part : AnnotatedContent) :
    ((if .audio ∈ inputModalities then (fun part => part) else withoutAudio)
      ((if .image ∈ inputModalities then (fun part => part) else withoutImage) part)).content =
        part.content.shown inputModalities := by
  obtain ⟨content, _, _⟩ := part
  by_cases hi : .image ∈ inputModalities <;> by_cases ha : .audio ∈ inputModalities <;>
    cases content <;> simp only [ContentItem.shown, hi, ha, if_true] <;> rfl

lemma same_set (m : Message) (hf : ∀ part, (f part).content = h part.content) :
    SameButAnnotations (message { m with content := m.content.map h })
      (message (setAnnotatedContent m ((toAnnotatedContent m).map f))) := by
  have hc : ((toAnnotatedContent m).map f).map (·.content) = m.content.map h := by
    conv => rhs; rw [← toAnnotatedContent_content m]
    simp only [List.map_map, Function.comp_def, hf]
  refine ⟨?_, rfl⟩
  simp only [setAnnotatedContent, hc]

lemma same_message (m : Message) :
    SameButAnnotations (shown inputModalities (message m)) (strip inputModalities (message m)) := by
  have hp := strip_part inputModalities
  by_cases hi : .image ∈ inputModalities <;> by_cases ha : .audio ∈ inputModalities <;>
    simp only [hi, ha, if_true] at hp
  · have hs : m.content.map (ContentItem.shown inputModalities) = m.content := by
      conv => rhs; rw [← List.map_id m.content]
      apply map_congr_left
      intro part _
      exact (hp ⟨part, [], .unknown⟩).symm
    simp only [shown, placeholders, strip, hi, ha, hs]
    exact ⟨rfl, rfl⟩
  · simp only [strip, hi, ha, if_true]
    exact same_set m hp
  · simp only [strip, hi, ha, if_true]
    exact same_set m hp
  · simp only [strip, hi, ha, if_false, stripAudio, stripImages, mapParts_mapParts]
    exact same_set m hp

lemma strip_output (output : FunctionCallOutputPayload) :
    (output.mapItems (if .image ∈ inputModalities then (fun part => part) else withoutOutputImage)).mapItems
      (if .audio ∈ inputModalities then (fun part => part) else withoutOutputAudio) =
        output.mapItems (FunctionCallOutputContentItem.shown inputModalities) := by
  rw [mapItems_mapItems]
  exact congrArg (output.mapItems ·) (funext (strip_output_part inputModalities))

lemma strip_same (item : ResponseItem) :
    SameButAnnotations (shown inputModalities item) (strip inputModalities item) := by
  cases item with
  | message m => exact same_message inputModalities m
  | functionCallOutput outputId callId name toolNamespace output passthrough
  | customToolCallOutput outputId callId name output passthrough =>
    have h := strip_output inputModalities output
    simp only [shown, placeholders, ← h]
    unfold strip
    by_cases hi : .image ∈ inputModalities <;> by_cases ha : .audio ∈ inputModalities <;>
      simp only [hi, ha, if_true, mapItems_id] <;> rfl
  | _ =>
    simp only [shown, placeholders]
    unfold strip
    by_cases hi : .image ∈ inputModalities <;> by_cases ha : .audio ∈ inputModalities <;>
      simp only [hi, ha, if_true] <;> rfl

end

/-! ## The prompt -/

variable {x : ResponseItemEnvelope} {inputModalities : List InputModality}

lemma mem_filled : x ∈ items.flatMap (filled newV5 outputs) ↔
      ∃ e ∈ items, x = e ∨ missingOutput newV5 outputs e = some x := by
  simp only [mem_flatMap, filled, mem_cons, mem_toList]

lemma mem_callKeys_filled {items : List ResponseItemEnvelope} {outputs : List CallKey} (k : CallKey) :
    k ∈ callKeys (items.flatMap (filled newV5 outputs)) ↔ k ∈ callKeys items := by
  rw [mem_callKeys, mem_callKeys]
  constructor
  · rintro ⟨c, hc, hk⟩
    obtain ⟨e, he, rfl | hm⟩ := mem_filled.mp hc
    · exact ⟨c, he, hk⟩
    obtain ⟨-, -, -, -, hn⟩ := missingOutput_some hm
    rw [hn] at hk
    simp at hk
  · rintro ⟨c, hc, hk⟩
    exact ⟨c, mem_filled.mpr ⟨c, hc, .inl rfl⟩, hk⟩

lemma mem_normalizeHistory : x ∈ normalizeHistory newV5 inputModalities items ↔
      ∃ e ∈ items.flatMap (filled newV5 (outputKeys items)), isOrphan (callKeys items) e.item = false ∧
        { e with item := strip inputModalities e.item } = x := by
  rw [normalizeHistory_eq]
  simp only [List.mem_map, mem_filter, isOrphan_congr mem_callKeys_filled, Bool.not_eq_true', and_assoc]

section

variable (inputModalities : List InputModality) (items : List ResponseItemEnvelope)

lemma normalizeHistory_answered
    (he : e ∈ normalizeHistory newV5 inputModalities items) (hk : callKey e.item = some k) :
    ∃ o ∈ normalizeHistory newV5 inputModalities items, outputKey o.item = some k := by
  obtain ⟨source, hs, -, rfl⟩ := mem_normalizeHistory.mp he
  have hke : callKey source.item = some k := (callKey_strip _ _).1 ▸ hk
  have hc : k ∈ callKeys items := (mem_callKeys_filled k).mp (mem_callKeys.mpr ⟨source, hs, hke⟩)
  -- The output is an original one, or the one that was added for this call.
  have hou : ∃ o ∈ items.flatMap (filled newV5 (outputKeys items)), outputKey o.item = some k := by
    obtain ⟨call, hca, rfl | hm⟩ := mem_filled.mp hs
    · rcases hm : missingOutput newV5 (outputKeys items) source with _ | o
      · obtain ⟨o, ho, hok⟩ := mem_outputKeys.mp (missingOutput_none hm hke)
        exact ⟨o, mem_filled.mpr ⟨o, ho, .inl rfl⟩, hok⟩
      obtain ⟨_, hk', -, hok, -⟩ := missingOutput_some hm
      rw [hke, Option.some.injEq] at hk'
      exact ⟨o, mem_filled.mpr ⟨source, hca, .inr hm⟩, hk' ▸ hok⟩
    · obtain ⟨-, -, -, -, hn⟩ := missingOutput_some hm
      exact absurd (hke.symm.trans hn) (some_ne_none k)
  obtain ⟨o, ho, hok⟩ := hou
  refine ⟨_, mem_normalizeHistory.mpr ⟨o, ho, not_isOrphan_of_called hok hc, rfl⟩, ?_⟩
  exact (callKey_strip _ _).2.1.trans hok

lemma normalizeHistory_called
    (he : e ∈ normalizeHistory newV5 inputModalities items) (hk : outputKey e.item = some k)
    (hs : serverExecuted e.item = false) :
    ∃ c ∈ normalizeHistory newV5 inputModalities items, callKey c.item = some k := by
  obtain ⟨source, _, ho, rfl⟩ := mem_normalizeHistory.mp he
  obtain ⟨-, hou, hexe⟩ := callKey_strip inputModalities source.item
  have hca : k ∈ callKeys items := by
    by_contra hn
    have h := isOrphan_iff.mpr ⟨k, hou ▸ hk, hexe ▸ hs, hn⟩
    rw [ho] at h
    exact Bool.false_ne_true h
  obtain ⟨c, hc, hck⟩ := mem_callKeys.mp ((@mem_callKeys_filled newV5 items (outputKeys items) k).mpr hca)
  refine ⟨_, mem_normalizeHistory.mpr ⟨c, hc, not_isOrphan_of_call hck, rfl⟩, ?_⟩
  exact (callKey_strip _ _).1.trans hck

lemma wellPaired_normalizeHistory : WellPaired (normalizeHistory newV5 inputModalities items) where
  answered _ he _ := normalizeHistory_answered inputModalities items he
  called _ he _ := normalizeHistory_called inputModalities items he

-- Induction on what of the history is still to be read.
lemma prompted_rest (inputModalities : List InputModality) (items rest : List ResponseItemEnvelope)
    (hr : ∀ e ∈ rest, e ∈ items) :
    Prompted inputModalities items rest
      (((rest.flatMap (filled newV5 (outputKeys items))).filter fun e => !isOrphan (callKeys items) e.item).map
        fun e => { e with item := strip inputModalities e.item }) := by
  induction rest with
  | nil => exact .nil
  | cons e rest ih => ?_
  have ih := ih fun x hx => hr x (mem_cons_of_mem e hx)
  have hs := strip_same inputModalities e.item
  simp only [flatMap_cons, filled, filter_append]
  rcases hm : missingOutput newV5 (outputKeys items) e with _ | o
  · by_cases ho : isOrphan (callKeys items) e.item
    · simpa [ho] using Prompted.orphan (orphan_iff.mpr ho) ih
    have hke : Prompted inputModalities items (e :: rest) (⟨strip inputModalities e.item, e.metadata⟩ :: _) :=
      .kept (mt orphan_iff.mp ho) rfl hs ih
    simpa [ho] using hke
  obtain ⟨k, hk, hn, hok, -⟩ := missingOutput_some hm
  have hc : k ∈ callKeys items := mem_callKeys.mpr ⟨e, hr e (by simp), hk⟩
  have ho : isOrphan (callKeys items) e.item = false := not_isOrphan_of_call hk
  have had : isOrphan (callKeys items) o.item = false := not_isOrphan_of_called hok hc
  have hmi : ∀ x ∈ items, outputKey x.item ≠ some k := fun x hx h => hn (mem_outputKeys.mpr ⟨x, hx, h⟩)
  have hkey := (callKey_strip inputModalities o.item).2.1.trans hok
  have hke : ¬ Orphan items e := fun h => Bool.false_ne_true (ho.symm.trans (orphan_iff.mp h))
  have ha : Prompted inputModalities items (e :: rest)
      (⟨strip inputModalities e.item, e.metadata⟩ :: ⟨strip inputModalities o.item, o.metadata⟩ :: _) :=
    .answered hke rfl hs hk hmi hkey ih
  simpa [ho, had] using ha

lemma prompted_normalizeHistory :
    Prompted inputModalities items items (normalizeHistory newV5 inputModalities items) := by
  have h := @prompted_rest newV5 inputModalities items items fun _ he => he
  rw [normalizeHistory_eq]
  simpa only [isOrphan_congr mem_callKeys_filled] using h

end

lemma normalizeHistory_of_wellPaired (hp : WellPaired items)
    (hsh : ∀ e ∈ items, strip inputModalities e.item = e.item) :
    normalizeHistory newV5 inputModalities items = items := by
  have hm : ∀ e ∈ items, missingOutput newV5 (outputKeys items) e = none := by
    intro e he
    rcases h : missingOutput newV5 (outputKeys items) e with _ | o
    · rfl
    obtain ⟨k, hk, hn, -⟩ := missingOutput_some h
    exact absurd (mem_outputKeys.mpr (hp.answered e he k hk)) hn
  have hf : items.flatMap (filled newV5 (outputKeys items)) = items := by
    have h : items.flatMap (filled newV5 (outputKeys items)) = items.flatMap fun e => [e] := by
      apply flatMap_congr
      intro e he
      simp [filled, hm e he]
    rw [h, flatMap_singleton']
  have ho : ∀ e ∈ items, isOrphan (callKeys items) e.item = false := by
    intro e he
    rw [Bool.eq_false_iff]
    intro h
    obtain ⟨k, hk, hs, hn⟩ := isOrphan_iff.mp h
    exact hn (mem_callKeys.mpr (hp.called e he k hk hs))
  rw [normalizeHistory_eq, hf, filter_eq_self.mpr (by simpa using ho)]
  conv => rhs; rw [← List.map_id items]
  apply map_congr_left
  intro e he
  rw [hsh e he]
  rfl

/-- The prompt is paired, otherwise the history as the model can take it, and unchanged by a second pass. -/
theorem prompt_faithful (newV5 : Text → Text) (inputModalities : List InputModality)
    (items : List ResponseItemEnvelope) :
    WellPaired (normalizeHistory newV5 inputModalities items) ∧
      Prompted inputModalities items items (normalizeHistory newV5 inputModalities items) ∧
      normalizeHistory newV5 inputModalities (normalizeHistory newV5 inputModalities items) =
        normalizeHistory newV5 inputModalities items := by
  have hp := @wellPaired_normalizeHistory newV5 inputModalities items
  refine ⟨hp, prompted_normalizeHistory inputModalities items, normalizeHistory_of_wellPaired hp ?_⟩
  intro e he
  obtain ⟨source, -, -, rfl⟩ := mem_normalizeHistory.mp he
  exact strip_twice inputModalities source.item

/-! ## A history that grows -/

def callId (item : ResponseItem) : Option Text := ((callKey item).or (outputKey item)).map (·.2)

lemma callId_of_key (h : callKey item = some k ∨ outputKey item = some k) : callId item = some k.2 := by
  rcases h with h | h
  · simp [callId, h]
  have hc : callKey item = none := by
    cases hk : callKey item with
    | none => rfl
    | some key => exact absurd (h.symm.trans (outputKey_of_call hk)) (some_ne_none k)
  simp [callId, h, hc]

-- The sets of a longer history say the same of the ids that these items carry.
lemma normalized_of_agree (items : List ResponseItemEnvelope)
    (ho : ∀ k ∈ callKeys items, k ∈ outputs ↔ k ∈ outputKeys items)
    (hc : ∀ k ∈ outputKeys items, k ∈ calls ↔ k ∈ callKeys items)
    (hsu : ∀ k ∈ callKeys items, k ∈ calls) :
    (items.flatMap (filled newV5 outputs)).filter (fun e => !isOrphan calls e.item) =
      (items.flatMap (filled newV5 (outputKeys items))).filter fun e => !isOrphan (callKeys items) e.item := by
  have hf : items.flatMap (filled newV5 outputs) = items.flatMap (filled newV5 (outputKeys items)) := by
    apply flatMap_congr
    intro e he
    unfold filled
    rw [missingOutput_congr fun k hk => ho k (mem_callKeys.mpr ⟨e, he, hk⟩)]
  rw [hf]
  apply filter_congr
  intro x hx
  have hs : ∀ k, outputKey x.item = some k → (k ∈ calls ↔ k ∈ callKeys items) := by
    intro k hk
    obtain ⟨e, he, rfl | hm⟩ := mem_filled.mp hx
    · exact hc k (mem_outputKeys.mpr ⟨x, he, hk⟩)
    obtain ⟨key, hke, -, hou, -⟩ := missingOutput_some hm
    obtain rfl := some.inj (hou.symm.trans hk)
    have hme : key ∈ callKeys items := mem_callKeys.mpr ⟨e, he, hke⟩
    exact iff_of_true (hsu key hme) hme
  congr 1
  rw [Bool.eq_iff_iff, isOrphan_iff, isOrphan_iff]
  exact exists_congr fun k => and_congr_right fun hk => by rw [hs k hk]

/-- **A prompt that was sent is the start of the next one**, if the new items have call ids of their own. -/
theorem normalizeHistory_append (newV5 : Text → Text) (inputModalities : List InputModality)
    (h e : List ResponseItemEnvelope)
    (hapart : ∀ x ∈ e, ∀ y ∈ h, ∀ id, callId x.item = some id → callId y.item ≠ some id) :
    normalizeHistory newV5 inputModalities (h ++ e) =
      normalizeHistory newV5 inputModalities h ++ normalizeHistory newV5 inputModalities e := by
  have hke : ∀ k, (k ∈ callKeys h ∨ k ∈ outputKeys h) → ¬ (k ∈ callKeys e ∨ k ∈ outputKeys e) := by
    simp only [mem_callKeys, mem_outputKeys]
    intro k hh he
    obtain ⟨y, hy, hyk⟩ : ∃ y ∈ h, callKey y.item = some k ∨ outputKey y.item = some k := by
      rcases hh with ⟨y, hy, hk⟩ | ⟨y, hy, hk⟩
      exacts [⟨y, hy, .inl hk⟩, ⟨y, hy, .inr hk⟩]
    obtain ⟨x, hx, hxk⟩ : ∃ x ∈ e, callKey x.item = some k ∨ outputKey x.item = some k := by
      rcases he with ⟨x, hx, hk⟩ | ⟨x, hx, hk⟩
      exacts [⟨x, hx, .inl hk⟩, ⟨x, hx, .inr hk⟩]
    exact hapart x hx y hy k.2 (callId_of_key hxk) (callId_of_key hyk)
  have hc : callKeys (h ++ e) = callKeys h ++ callKeys e := filterMap_append
  have ho : outputKeys (h ++ e) = outputKeys h ++ outputKeys e := filterMap_append
  simp only [normalizeHistory_eq, isOrphan_congr mem_callKeys_filled]
  simp only [flatMap_append, filter_append, map_append]
  rw [normalized_of_agree h, normalized_of_agree e]
  all_goals
    intro k hk
    have := hke k
    simp only [hc, ho, mem_append]
    tauto

def imageHistory : List ResponseItemEnvelope :=
  [.new (imageGenerationCall ⟨some "ig_123".toList, none, []⟩ "Zm9v".toList),
   .new (message ⟨none, "user".toList, [.inputText "describe it".toList], none, []⟩)]

theorem generated_image_emptied :
    imageHistory.map (fun e => placeholders [.text] e.item) = imageHistory.map (·.item) ∧
      ∀ e ∈ imageHistory, e ∉ normalizeHistory (fun name => name) [.text] imageHistory := by
  decide

/-- A call that was answered, and one that was not. -/
def callHistory : List ResponseItemEnvelope :=
  [.new (functionCall ⟨none, none, []⟩ "c1".toList),
   .new (functionCallOutput none (some "c1".toList) none none ⟨.text "done".toList, none⟩ none),
   .new (functionCall ⟨none, none, []⟩ "c2".toList)]

theorem normalizeHistory_append_call :
    normalizeHistory (fun name => name) [.text] ((imageHistory ++ callHistory) ++
        [.new (functionCall ⟨none, none, []⟩ "c3".toList)]) =
      normalizeHistory (fun name => name) [.text] (imageHistory ++ callHistory) ++
        normalizeHistory (fun name => name) [.text] [.new (functionCall ⟨none, none, []⟩ "c3".toList)] :=
  normalizeHistory_append _ _ _ _ (by decide)

end Codex.History
