import Codex.History.Rollback

/-!
# Edits leave no output without its call

If no call that has an output was accepted after an instruction that is recorded behind both.
-/

namespace Codex.History

open Codex.Text ResponseItem List Option

/-- Each output comes after its call. -/
def CallsFirst (items : List ResponseItemEnvelope) : Prop :=
  ∀ before o after, items = before ++ o :: after → ∀ k, outputKey o.item = some k → serverExecuted o.item = false →
    ∃ c ∈ before, callKey c.item = some k

/-- A function call whose output is recorded before an instruction was accepted before it. -/
def AcceptedInOrder (markers : TextMarkers) (items : List ResponseItemEnvelope) : Prop :=
  ∀ before boundary after, items = before ++ boundary :: after → isUserTurnBoundary markers boundary.item = true →
    ∀ accepted, ContextManager.acceptanceOrder boundary = some accepted →
    ∀ call ∈ before, ContextManager.isAnyFunctionCall call.item = true →
    ∀ k, callKey call.item = some k → (∃ o ∈ before, outputKey o.item = some k) →
    ∀ order, ContextManager.acceptanceOrder call = some order → order < accepted

/-! ## What decides how an item is paired -/

structure Mark where
  call : Option CallKey
  output : Option CallKey
  server : Bool
  functionCall : Bool
  boundary : Bool
  order : Option U64

def mark (markers : TextMarkers) (e : ResponseItemEnvelope) : Mark where
  call := callKey e.item
  output := outputKey e.item
  server := serverExecuted e.item
  functionCall := ContextManager.isAnyFunctionCall e.item
  boundary := isUserTurnBoundary markers e.item
  order := ContextManager.acceptanceOrder e

def Paired : List CallKey → List Mark → Prop
  | _, [] => True
  | seen, m :: marks =>
    (∀ k, m.output = some k → m.server = false → k ∈ seen) ∧ Paired (m.call.toList ++ seen) marks

variable {seen : List CallKey}

variable {marks old new : List Mark}

lemma Paired.weaken (h : Paired seen marks)
    (hse : ∀ m ∈ marks, ∀ k, m.output = some k → m.server = false → k ∈ seen → k ∈ seen') :
    Paired seen' marks := by
  induction marks generalizing seen seen' with
  | nil => trivial
  | cons m marks ih => ?_
  obtain ⟨hm, hr⟩ := h
  refine ⟨fun k hk hs => hse m (by simp) k hk hs (hm k hk hs), ih hr ?_⟩
  intro n hn k hk hs hin
  rcases mem_append.mp hin with hc | ho
  · exact mem_append_left _ hc
  · exact mem_append_right _ (hse n (mem_cons_of_mem m hn) k hk hs ho)

lemma Paired.of_append (h : Paired seen (a ++ b)) : Paired seen a := by
  induction a generalizing seen with
  | nil => trivial
  | cons m a ih => exact ⟨h.1, ih h.2⟩

lemma paired_append_cons {pre after : List Mark} (h : Paired seen (pre ++ m :: after))
    (hk : m.output = some k) (hs : m.server = false) :
    k ∈ seen ∨ ∃ c ∈ pre, c.call = some k := by
  induction pre generalizing seen with
  | nil => exact .inl (h.1 k hk hs)
  | cons n pre ih => ?_
  rcases ih h.2 with hse | ⟨c, hc, hck⟩
  · rcases mem_append.mp hse with hca | ho
    · exact .inr ⟨n, by simp, mem_toList.mp hca⟩
    · exact .inl ho
  · exact .inr ⟨c, mem_cons_of_mem n hc, hck⟩

lemma paired_of_forall
    (h : ∀ pre m after, marks = pre ++ m :: after → ∀ k, m.output = some k → m.server = false → k ∈ seen ∨ ∃ c ∈ pre,
      c.call = some k) :
    Paired seen marks := by
  induction marks generalizing seen with
  | nil => trivial
  | cons m marks ih => ?_
  refine ⟨fun k hk hs => ?_, ih fun pre n after heq k hk hs => ?_⟩
  · rcases h [] m marks rfl k hk hs with hse | ⟨c, hc, -⟩
    · exact hse
    · simp at hc
  rcases h (m :: pre) n after (by simp [heq]) k hk hs with hse | ⟨c, hc, hck⟩
  · exact .inl (mem_append_right _ hse)
  rcases mem_cons.mp hc with rfl | hin
  · exact .inl (mem_append_left _ (mem_toList.mpr hck))
  · exact .inr ⟨c, hin, hck⟩

section
variable {markers : TextMarkers} {items : List ResponseItemEnvelope}

lemma callsFirst_iff : CallsFirst items ↔ Paired [] (items.map (mark markers)) := by
  constructor
  · intro h
    apply paired_of_forall
    intro pre m after heq k hk hs
    obtain ⟨xs, _, rfl, rfl, hys⟩ := map_eq_append_iff.mp heq
    obtain ⟨o, rest, rfl, rfl, rfl⟩ := map_eq_cons_iff.mp hys
    obtain ⟨c, hc, hck⟩ := h xs o rest rfl k hk hs
    exact .inr ⟨mark markers c, mem_map_of_mem hc, hck⟩
  rintro h pre o after rfl k hk hs
  rw [map_append, map_cons] at h
  rcases paired_append_cons h hk hs with hse | ⟨c, hc, hck⟩
  · simp at hse
  · obtain ⟨e, he, rfl⟩ := mem_map.mp hc
    exact ⟨e, he, hck⟩

end

/-! ## Dropping items -/

/-- Some items are dropped, and of the calls only those that are said to be `gone`. -/
inductive Dropped (gone : CallKey → Prop) : List Mark → List Mark → Prop
  | nil : Dropped gone [] []
  | drop {m old new} : (∀ k, m.call = some k → gone k) → Dropped gone old new → Dropped gone (m :: old) new
  | keep {m old new} : Dropped gone old new → Dropped gone (m :: old) (m :: new)

lemma Dropped.refl (gone : CallKey → Prop) (marks : List Mark) : Dropped gone marks marks := by
  induction marks with
  | nil => exact .nil
  | cons m marks ih => exact .keep ih

lemma Dropped.sublist (h : Dropped gone old new) : new.Sublist old := by
  induction h with
  | nil => exact .slnil
  | drop _ _ ih => exact ih.cons _
  | keep _ ih => exact ih.cons_cons _

lemma Dropped.paired (h : Dropped gone old new)
    (hn : ∀ m ∈ new, ∀ k, m.output = some k → m.server = false → ¬ gone k) (ho : Paired seen old) :
    Paired seen new := by
  induction h generalizing seen with
  | nil => trivial
  | drop hg _ ih => ?_
  | keep _ ih => exact ⟨ho.1, ih (fun m hm => hn m (mem_cons_of_mem _ hm)) ho.2⟩
  refine (ih hn ho.2).weaken ?_
  intro m hm k hk hs hin
  rcases mem_append.mp hin with hc | hse
  · exact absurd (hg k (mem_toList.mp hc)) (hn m hm k hk hs)
  · exact hse

/-! ## The oldest item -/

section
variable {markers : TextMarkers} {items rest : List ResponseItemEnvelope} {x : ResponseItemEnvelope} {k : CallKey}

variable {item : ResponseItem} {callId : Text} {gone : CallKey → Prop}

variable {p : ResponseItemEnvelope → Bool} {old new : List Mark} {turn : Text} {turnIdx first : Nat}
  {manager : ContextManager}

lemma dropped_eraseP (hp : ∀ y, p y → ∀ k, callKey y.item = some k → gone k) :
    Dropped gone (rest.map (mark markers)) ((rest.eraseP p).map (mark markers)) := by
  induction rest with
  | nil => exact .nil
  | cons y rest ih => ?_
  by_cases h : p y
  · rw [eraseP_cons_of_pos h]
    exact .drop (hp y h) (.refl _ _)
  · rw [eraseP_cons_of_neg h]
    exact .keep ih

lemma not_output_of_eraseP (hn : (outputKeys rest).Nodup) :
    ∀ o ∈ rest.eraseP (fun y => outputKey y.item = some k), outputKey o.item ≠ some k := by
  induction rest with
  | nil => simp
  | cons y rest ih => ?_
  by_cases h : outputKey y.item = some k
  · have hke : outputKeys (y :: rest) = k :: outputKeys rest := filterMap_cons_some h
    rw [hke, nodup_cons] at hn
    rw [eraseP_cons_of_pos (by simpa using h)]
    exact fun o ho hk => hn.1 (mem_outputKeys.mpr ⟨o, ho, hk⟩)
  have hr : (outputKeys rest).Nodup :=
    hn.sublist ((sublist_cons_self y rest).filterMap fun e : ResponseItemEnvelope => outputKey e.item)
  rw [eraseP_cons_of_neg (by simpa using h)]
  intro o ho
  rcases mem_cons.mp ho with rfl | hin
  · exact h
  · exact ih hr o hin

lemma isOutput_iff (callId : Text) (item : ResponseItem) :
    isFunctionCallOutput callId item = decide (outputKey item = some (.function, callId)) ∧
      isToolSearchOutput callId item = decide (outputKey item = some (.toolSearch, callId)) ∧
      isCustomToolCallOutput callId item = decide (outputKey item = some (.customTool, callId)) := by
  cases item with
  | functionCallOutput outputId existing | toolSearchOutput outputId existing =>
    cases existing <;> simp [isFunctionCallOutput, isToolSearchOutput, isCustomToolCallOutput, outputKey]
  | customToolCallOutput => simp [isFunctionCallOutput, isToolSearchOutput, isCustomToolCallOutput, outputKey]
  | _ => exact ⟨rfl, rfl, rfl⟩

lemma removeCorrespondingFor_call (h : callKey item = some k) :
    removeCorrespondingFor rest item = rest.eraseP fun y => outputKey y.item = some k := by
  cases item with
  | functionCall head callId | customToolCall head callId =>
    obtain rfl := some.inj h
    simp [removeCorrespondingFor, removeFirstMatching, isOutput_iff]
  | localShellCall head callId | toolSearchCall head callId =>
    rcases callId with _ | callId
    · cases h
    obtain rfl := some.inj h
    simp [removeCorrespondingFor, removeFirstMatching, isOutput_iff]
  | _ => cases h

lemma callKey_of_isFunctionCall (h : isFunctionCall callId item) :
    callKey item = some (.function, callId) := by
  cases item with
  | functionCall head existing => rw [callKey, of_decide_eq_true h]
  | _ => cases h

lemma callKey_of_isLocalShellCall (h : isLocalShellCall callId item) :
    callKey item = some (.function, callId) := by
  cases item with
  | localShellCall head existing =>
    cases existing with
    | none => cases h
    | some existing => rw [callKey, of_decide_eq_true h]
  | _ => cases h

lemma callKey_of_isToolSearchCall (h : isToolSearchCall callId item) :
    callKey item = some (.toolSearch, callId) := by
  cases item with
  | toolSearchCall head existing =>
    cases existing with
    | none => cases h
    | some existing => rw [callKey, of_decide_eq_true h]
  | _ => cases h

lemma callKey_of_isCustomToolCall (h : isCustomToolCall callId item) :
    callKey item = some (.customTool, callId) := by
  cases item with
  | customToolCall head existing => rw [callKey, of_decide_eq_true h]
  | _ => cases h

lemma removeCorrespondingFor_output {item : ResponseItem} (h : outputKey item = some k) :
    ∃ p : ResponseItemEnvelope → Bool, removeCorrespondingFor rest item = rest.eraseP p ∧
      ∀ y, p y → callKey y.item = some k := by
  cases item with
  | functionCallOutput outputId callId name toolNamespace output passthrough =>
    rcases callId with _ | callId
    · cases h
    obtain rfl := some.inj h
    by_cases hc : (rest.any fun envelope => isFunctionCall callId envelope.item)
    · exact ⟨_, if_pos hc, fun _ => callKey_of_isFunctionCall⟩
    · exact ⟨_, if_neg hc, fun _ => callKey_of_isLocalShellCall⟩
  | toolSearchOutput outputId callId status execution tools passthrough =>
    rcases callId with _ | callId
    · cases h
    obtain rfl := some.inj h
    exact ⟨_, rfl, fun _ => callKey_of_isToolSearchCall⟩
  | customToolCallOutput outputId callId name output passthrough =>
    obtain rfl := some.inj h
    exact ⟨_, rfl, fun _ => callKey_of_isCustomToolCall⟩
  | _ => cases h

lemma removeCorrespondingFor_other (hc : callKey item = none) (ho : outputKey item = none) :
    removeCorrespondingFor rest item = rest := by
  cases item with
  | functionCall | customToolCall => cases hc
  | customToolCallOutput => cases ho
  | localShellCall head callId | toolSearchCall head callId =>
    cases callId with
    | none => rfl
    | some callId => cases hc
  | functionCallOutput outputId callId | toolSearchOutput outputId callId =>
    cases callId with
    | none => rfl
    | some callId => cases ho
  | _ => rfl

/-! ## The invariant -/

/-- Function calls with an output before a boundary were accepted before it. -/
def InOrder (marks : List Mark) : Prop :=
  ∀ before b after, marks = before ++ b :: after → b.boundary = true → ∀ accepted, b.order = some accepted →
    ∀ c ∈ before, c.functionCall = true → ∀ k, c.call = some k → (∃ o ∈ before, o.output = some k) →
    ∀ order, c.order = some order → order < accepted

lemma inOrder_of_accepted (h : AcceptedInOrder markers items) : InOrder (items.map (mark markers)) := by
  intro pre b after heq hb accepted ha c hc hf k hk hou order hord
  obtain ⟨xs, ys, rfl, rfl, hys⟩ := map_eq_append_iff.mp heq
  obtain ⟨e, ys, rfl, rfl, rfl⟩ := map_eq_cons_iff.mp hys
  obtain ⟨call, hca, rfl⟩ := mem_map.mp hc
  obtain ⟨o, ho, hok⟩ := hou
  obtain ⟨output, hout, rfl⟩ := mem_map.mp ho
  exact h xs e ys rfl hb accepted ha call hca hf k hk ⟨output, hout, hok⟩ order hord

lemma InOrder.sublist (h : InOrder old) (hs : new.Sublist old) : InOrder new := by
  rintro _ b _ rfl hbo accepted ha c hc hf k hk ⟨o, ho, hok⟩ order hord
  obtain ⟨r₁, _, rfl, hb, hr⟩ := append_sublist_iff.mp hs
  obtain ⟨_, s₂, rfl, hin, -⟩ := cons_sublist_iff.mp hr
  obtain ⟨t₁, t₂, rfl⟩ := append_of_mem hin
  refine h (r₁ ++ t₁) b (t₂ ++ s₂) (by simp) hbo accepted ha c ?_ hf k hk ⟨o, ?_, hok⟩ order hord
  · exact mem_append_left _ (hb.mem hc)
  · exact mem_append_left _ (hb.mem ho)

structure Sound (marks : List Mark) : Prop where
  paired : Paired [] marks
  unique : (marks.filterMap (·.output)).Nodup
  ordered : InOrder marks

lemma Sound.dropped (h : Sound old) (hd : Dropped gone old new)
    (hn : ∀ m ∈ new, ∀ k, m.output = some k → m.server = false → ¬ gone k) : Sound new where
  paired := hd.paired hn h.paired
  unique := h.unique.sublist (hd.sublist.filterMap _)
  ordered := h.ordered.sublist hd.sublist

lemma outputKeys_eq : outputKeys items = (items.map (mark markers)).filterMap (·.output) := by
  rw [filterMap_map]
  rfl

lemma sound_removeCorrespondingFor (h : Sound ((x :: rest).map (mark markers))) :
    Sound ((removeCorrespondingFor rest x.item).map (mark markers)) := by
  have hu : (outputKeys (x :: rest)).Nodup := outputKeys_eq ▸ h.unique
  have hr : (outputKeys rest).Nodup :=
    hu.sublist ((sublist_cons_self x rest).filterMap fun e : ResponseItemEnvelope => outputKey e.item)
  cases hc : callKey x.item with
  | some k =>
    rw [removeCorrespondingFor_call hc]
    have hd : Dropped (fun key => key = k) ((x :: rest).map (mark markers))
        ((rest.eraseP fun y => outputKey y.item = some k).map (mark markers)) := by
      refine .drop (fun key hke => some.inj (hke.symm.trans hc)) (dropped_eraseP ?_)
      intro y hy key hke
      rw [outputKey_of_call hke] at hy
      simp at hy
    apply h.dropped hd
    rintro m hm key hke - rfl
    obtain ⟨o, ho, rfl⟩ := mem_map.mp hm
    exact not_output_of_eraseP hr o ho hke
  | none =>
    rcases hou : outputKey x.item with _ | k
    · rw [removeCorrespondingFor_other hc hou]
      have hd : Dropped (fun _ => False) ((x :: rest).map (mark markers)) (rest.map (mark markers)) :=
        .drop (fun key hke => absurd (hke.symm.trans hc) (some_ne_none key)) (.refl _ _)
      exact h.dropped hd fun _ _ _ _ _ => id
    obtain ⟨p, hp, hca⟩ := @removeCorrespondingFor_output rest k x.item hou
    rw [hp]
    have hd : Dropped (fun key => key = k) ((x :: rest).map (mark markers))
        ((rest.eraseP p).map (mark markers)) := by
      refine .drop (fun key hke => absurd (hke.symm.trans hc) (some_ne_none key)) (dropped_eraseP ?_)
      exact fun y hy key hke => some.inj (hke.symm.trans (hca y hy))
    apply h.dropped hd
    rintro m hm key hke - rfl
    obtain ⟨o, ho, rfl⟩ := mem_map.mp hm
    have hk : outputKeys (x :: rest) = key :: outputKeys rest := filterMap_cons_some hou
    rw [hk, nodup_cons] at hu
    exact hu.1 (mem_outputKeys.mpr ⟨o, mem_of_mem_eraseP ho, hke⟩)

/-! ## The last turns -/

lemma trimPreTurnContextUpdates_le (snapshot : List ResponseItemEnvelope) (first cutIdx : Nat) :
    (ContextManager.trimPreTurnContextUpdates markers snapshot first cutIdx).1 ≤ cutIdx := by
  induction cutIdx with
  | zero => exact Nat.le_refl 0
  | succ cutIdx ih => ?_
  unfold ContextManager.trimPreTurnContextUpdates
  split
  · split
    · exact le_rfl
    · exact Nat.le_succ_of_le ih
  · exact le_rfl

lemma boundary_of_mem_userMessagePositions (h : i ∈ userMessagePositions markers items) :
    ∃ e, items[i]? = some e ∧ isUserTurnBoundary markers e.item := by
  obtain ⟨entry, he, heq⟩ := mem_filterMap.mp h
  by_cases hb : isUserTurnBoundary markers entry.1.item
  · rw [if_pos hb, Option.some.injEq] at heq
    exact ⟨entry.1, heq ▸ mem_zipIdx_iff_getElem?.mp he, hb⟩
  · rw [if_neg hb] at heq
    cases heq

lemma dropped_filter (hp : ∀ y ∈ items, p y = false → ∀ k, callKey y.item = some k → gone k) :
    Dropped gone (items.map (mark markers)) ((items.filter p).map (mark markers)) := by
  induction items with
  | nil => exact .nil
  | cons y items ih => ?_
  have ih := ih fun z hz => hp z (mem_cons_of_mem y hz)
  cases h : p y with
  | true =>
    rw [filter_cons_of_pos h]
    exact .keep ih
  | false =>
    rw [filter_cons_of_neg (by simp [h])]
    exact .drop (hp y (by simp) h) ih

lemma withoutRebuilt_none (h : ContextManager.withoutRebuilt markers turn x = none) :
    callKey x.item = none := by
  obtain ⟨item, _⟩ := x
  cases item with
  | message m => rfl
  | _ => cases h

lemma boundary_developer {m : Message} (hr : m.role = "developer") :
    isUserTurnBoundary markers (message m) = false := by
  simp [isUserTurnBoundary, hr]

lemma withoutRebuilt_some (h : ContextManager.withoutRebuilt markers turn x = some y) :
    mark markers y = mark markers x := by
  obtain ⟨item, _⟩ := x
  cases item with
  | message m => ?_
  | _ =>
    obtain rfl := some.inj h
    rfl
  by_cases hr : (message m).turnId = some turn ∧ m.role = "developer"
  · simp only [ContextManager.withoutRebuilt, if_pos hr] at h
    split at h
    · cases h
    obtain rfl := some.inj h
    simp only [mark, boundary_developer hr.2,
      @boundary_developer markers (setAnnotatedContent m _) hr.2]
    rfl
  simp only [ContextManager.withoutRebuilt, if_neg hr] at h
  obtain rfl := some.inj h
  rfl

lemma dropped_withoutRebuilt (turn : Text) (items : List ResponseItemEnvelope) :
    Dropped (fun _ => False) (items.map (mark markers))
      ((items.filterMap (ContextManager.withoutRebuilt markers turn)).map (mark markers)) := by
  induction items with
  | nil => exact .nil
  | cons e items ih => ?_
  rcases h : ContextManager.withoutRebuilt markers turn e with _ | y
  · rw [filterMap_cons_none h]
    exact .drop (fun k hk => absurd (hk.symm.trans (withoutRebuilt_none h)) (some_ne_none k)) ih
  rw [filterMap_cons_some h, map_cons, map_cons, withoutRebuilt_some h]
  exact .keep ih

lemma isAnyFunctionCall_of_acceptedFrom (hs : source.acceptanceOrder = some boundary)
    (h : ContextManager.acceptedFrom source x)
    (hk : callKey x.item = some k) :
    ContextManager.isAnyFunctionCall x.item ∧ ∃ order, ContextManager.acceptanceOrder x = some order ∧
      boundary ≤ order := by
  rw [ContextManager.acceptedFrom, hs, any_some, Bool.and_eq_true] at h
  obtain ⟨hki, ho⟩ := h
  have hass : ContextManager.isAssistantMessage x.item = false := by
    obtain ⟨item, _⟩ := x
    cases item with
    | message m => cases hk
    | _ => rfl
  rw [hass, Bool.false_or] at hki
  refine ⟨hki, ?_⟩
  rcases ha : ContextManager.acceptanceOrder x with _ | order
  · simp [ha] at ho
  rw [ha, any_some] at ho
  exact ⟨order, rfl, of_decide_eq_true ho⟩

lemma sound_retained (h : Sound (items.map (mark markers))) (hcu : cutIdx ≤ turnIdx)
    (hbo : items[turnIdx]? = some boundary)
    (ht : isUserTurnBoundary markers boundary.item) :
    Sound (((items.take cutIdx).filter fun e =>
      !ContextManager.acceptedFrom (.fromMetadata boundary.metadata) e).map (mark markers)) := by
  obtain ⟨hlt, hg⟩ := List.getElem?_eq_some_iff.mp hbo
  have hsp : items = items.take turnIdx ++ boundary :: items.drop (turnIdx + 1) := by
    rw [← hg, ← drop_eq_getElem_cons hlt, take_append_drop]
  have hke : Sound ((items.take cutIdx).map (mark markers)) := by
    have hsu : ((items.take cutIdx).map (mark markers)).Sublist (items.map (mark markers)) :=
      (take_sublist cutIdx items).map _
    refine ⟨?_, h.unique.sublist (hsu.filterMap _), h.ordered.sublist hsu⟩
    have hal := h.paired
    rw [← take_append_drop cutIdx items, map_append] at hal
    exact hal.of_append
  have hd : Dropped (fun k => ∃ e ∈ items.take cutIdx,
      ContextManager.acceptedFrom (.fromMetadata boundary.metadata) e ∧ callKey e.item = some k)
      ((items.take cutIdx).map (mark markers)) (((items.take cutIdx).filter fun e =>
        !ContextManager.acceptedFrom (.fromMetadata boundary.metadata) e).map (mark markers)) := by
    apply dropped_filter
    intro e he hp k hk
    exact ⟨e, he, by simpa using hp, hk⟩
  apply hke.dropped hd
  rintro m hm k hk - ⟨call, hc, ha, hck⟩
  obtain ⟨o, ho, rfl⟩ := mem_map.mp hm
  have hb : ∀ e ∈ items.take cutIdx, e ∈ items.take turnIdx :=
    fun e he => (take_sublist_take_left hcu).mem he
  rcases hs : (RetainedInputSource.fromMetadata boundary.metadata).acceptanceOrder with _ | accepted
  · simp [ContextManager.acceptedFrom, hs] at ha
  obtain ⟨hf, order, hord, hle⟩ := isAnyFunctionCall_of_acceptedFrom hs ha hck
  have hma := congrArg (map (mark markers)) hsp
  rw [map_append, map_cons] at hma
  have hlt := h.ordered _ _ _ hma ht accepted hs (mark markers call)
    (mem_map_of_mem (hb call hc)) hf k hck
    ⟨mark markers o, mem_map_of_mem (hb o (mem_filter.mp ho).1), hk⟩ order hord
  exact absurd hle (not_le.mpr hlt)

lemma sound_dropTurnsFrom (h : Sound (manager.items.map (mark markers)))
    (ht : turnIdx ∈ userMessagePositions markers manager.items) :
    Sound ((manager.dropTurnsFrom markers first turnIdx).items.map (mark markers)) := by
  obtain ⟨_, hg, hb⟩ := boundary_of_mem_userMessagePositions ht
  have hc := @trimPreTurnContextUpdates_le markers manager.items first turnIdx
  have hr := sound_retained h hc hg hb
  unfold ContextManager.dropTurnsFrom
  simp only [hg, bind_some]
  split
  · cases manager.items[first]?.bind (·.item.turnId) with
    | none => exact hr
    | some turn => exact hr.dropped (dropped_withoutRebuilt turn _) fun _ _ _ _ _ => id
  · exact hr

lemma firstDropped_mem {later : List Nat} (hz : numTurns ≠ 0) :
    ContextManager.firstDropped (first :: later) first numTurns ∈ first :: later := by
  unfold ContextManager.firstDropped
  split
  · exact mem_cons_self
  · rw [getD_eq_getElem _ _ (by omega)]
    exact getElem_mem _

lemma sound_dropLastNUserTurns (numTurns : Nat) (h : Sound (manager.items.map (mark markers))) :
    Sound ((manager.dropLastNUserTurns markers numTurns).items.map (mark markers)) := by
  unfold ContextManager.dropLastNUserTurns
  split
  · exact h
  rename_i hz
  split
  · exact h
  · rename_i hp
    exact sound_dropTurnsFrom h (hp ▸ firstDropped_mem hz)

end

/-! ## Any sequence of edits -/

inductive HistoryEdit where
  | removeFirstItem
  | dropLastNUserTurns (numTurns : Nat)

def ContextManager.edit (markers : TextMarkers) (manager : ContextManager) : HistoryEdit → ContextManager
  | .removeFirstItem => manager.removeFirstItem
  | .dropLastNUserTurns numTurns => manager.dropLastNUserTurns markers numTurns

lemma sound_edit {manager : ContextManager} (edit : HistoryEdit)
    (h : Sound (manager.items.map (mark markers))) :
    Sound ((manager.edit markers edit).items.map (mark markers)) := by
  cases edit with
  | removeFirstItem => ?_
  | dropLastNUserTurns numTurns => exact sound_dropLastNUserTurns numTurns h
  simp only [ContextManager.edit, ContextManager.removeFirstItem]
  rcases hi : manager.items with _ | ⟨x, rest⟩
  · rwa [hi] at h ⊢
  rw [hi] at h
  exact sound_removeCorrespondingFor h

theorem edits_keep_calls {markers : TextMarkers} {manager : ContextManager} (edits : List HistoryEdit)
    (hcalls : CallsFirst manager.items) (hunique : (outputKeys manager.items).Nodup)
    (horder : AcceptedInOrder markers manager.items) :
    CallsFirst (edits.foldl (ContextManager.edit markers) manager).items := by
  have hs : Sound (manager.items.map (mark markers)) :=
    ⟨callsFirst_iff.mp hcalls, outputKeys_eq ▸ hunique, inOrder_of_accepted horder⟩
  clear hcalls hunique horder
  have he : Sound ((edits.foldl (ContextManager.edit markers) manager).items.map (mark markers)) := by
    induction edits generalizing manager with
    | nil => exact hs
    | cons edit edits ih => exact ih (sound_edit edit hs)
  exact callsFirst_iff.mpr he.paired

/-! ## A steered turn -/

/-- Texts of the harness are in tags, and those of another agent are JSON objects. -/
def taggedTexts : TextMarkers where
  contextualUser := startsWith "<"
  summary := startsWith "Another language model started"
  interAgent := startsWith "\x7b"
  contextualDeveloper := startsWith "<"
  rebuilt := startsWith "<model_switch>"

def acceptedItem (order : U64) (item : ResponseItem) : ResponseItemEnvelope := ⟨item, some ⟨some order, false, none⟩⟩

def userText (text : String) : ResponseItem := message ⟨none, "user", [.inputText text.toList], none, []⟩

def steeredItems (callOrder steerOrder : U64) : List ResponseItemEnvelope :=
  [acceptedItem 0 (userText "build it"),
   acceptedItem callOrder (functionCall ⟨none, none, []⟩ "c1"),
   .new (functionCallOutput none (some "c1") none none (.fromText "done") none),
   acceptedItem steerOrder (userText "and test it")]

def steered (callOrder steerOrder : U64) : ContextManager where
  items := steeredItems callOrder steerOrder
  retainedContext := .empty
  historyVersion := 0
  resetVersion := 0
  userMessageRevision := 0
  referenceContextItem := none
  worldStateBaseline := none

lemma callsFirst_steered (callOrder steerOrder : U64) : CallsFirst (steered callOrder steerOrder).items := by
  apply (@callsFirst_iff taggedTexts _).mpr
  refine ⟨?_, ?_, ?_, ?_, trivial⟩
  · rintro k ⟨⟩
  · rintro k ⟨⟩
  · rintro k ⟨⟩ -
    exact mem_cons_self
  · rintro k ⟨⟩

theorem steered_call_orphans_output :
    CallsFirst (steered 3 2).items ∧ (callKeys (steered 3 2).items).Nodup ∧ (outputKeys (steered 3 2).items).Nodup ∧
      ¬ CallsFirst ((steered 3 2).dropLastNUserTurns taggedTexts 1).items := by
  refine ⟨callsFirst_steered 3 2, by decide, by decide, fun h => ?_⟩
  have hi : ((steered 3 2).dropLastNUserTurns taggedTexts 1).items =
      [acceptedItem 0 (userText "build it")] ++
        .new (functionCallOutput none (some "c1") none none (.fromText "done") none) :: [] := by decide
  obtain ⟨c, hc, hk⟩ := h _ _ _ hi (.function, "c1") rfl rfl
  rw [mem_singleton.mp hc] at hk
  cases hk

theorem steer_dropped_after_call : CallsFirst ([.dropLastNUserTurns 1, .removeFirstItem, .removeFirstItem].foldl
      (ContextManager.edit taggedTexts) (steered 1 2)).items := by
  apply edits_keep_calls _ (callsFirst_steered 1 2) (by decide)
  intro before boundary after heq hb accepted ha call hc hf k hk hou order ho
  rcases before with _ | ⟨b₀, _ | ⟨b₁, _ | ⟨b₂, _ | ⟨b₃, before⟩⟩⟩⟩ <;>
    simp only [steered, steeredItems, cons_append, cons.injEq] at heq
  · simp at hc
  · obtain ⟨-, rfl, -⟩ := heq
    cases hb
  · obtain ⟨-, -, rfl, -⟩ := heq
    cases hb
  · obtain ⟨rfl, rfl, rfl, rfl, -⟩ := heq
    obtain rfl : (2 : U64) = accepted := some.inj ha
    rcases mem_cons.mp hc with rfl | hc
    · cases hf
    rcases mem_cons.mp hc with rfl | hc
    · obtain rfl : (1 : U64) = order := some.inj ho
      decide
    · obtain rfl := mem_singleton.mp hc
      cases hf
  · exact absurd heq.2.2.2.2 (by simp)

end Codex.History
