import Codex.History.Edits
import Codex.Undo

/-! # Dropping the last turns of a history takes back that many of its user messages -/

namespace Codex.History

open Codex.Text ResponseItem List ContextManager

variable {markers : TextMarkers} {items : List ResponseItemEnvelope}

def isBoundary (markers : TextMarkers) (envelope : ResponseItemEnvelope) : Bool :=
  isUserTurnBoundary markers envelope.item

def boundaries (markers : TextMarkers) (items : List ResponseItemEnvelope) : List ResponseItemEnvelope :=
  items.filter (isBoundary markers)

def UserBoundaries (markers : TextMarkers) (items : List ResponseItemEnvelope) : Prop :=
  ∀ e ∈ items, isBoundary markers e = true → isAssistantMessage e.item = false

variable {e : ResponseItemEnvelope} {turnId : Text} {manager : ContextManager}

lemma isAnyFunctionCall_boundary (h : isBoundary markers e) :
    isAnyFunctionCall e.item = false := by
  obtain ⟨item, _⟩ := e
  cases item with
  | functionCall head callId => simp [isBoundary, isUserTurnBoundary] at h
  | _ => rfl

lemma boundaries_acceptedFrom (h : UserBoundaries markers items) :
    boundaries markers (items.filter fun e => !acceptedFrom source e) = boundaries markers items := by
  unfold boundaries
  rw [filter_filter]
  apply filter_congr
  intro e he
  rcases hb : isBoundary markers e with _ | _
  · rfl
  have ha := h e he hb
  have hc := isAnyFunctionCall_boundary hb
  have hk : acceptedFrom source e = false := by
    unfold acceptedFrom
    cases source.acceptanceOrder <;> simp [ha, hc]
  rw [hk]
  rfl

lemma withoutRebuilt_boundary (h : isBoundary markers e) :
    withoutRebuilt markers turnId e = some e := by
  obtain ⟨item, _⟩ := e
  cases item with
  | message m => ?_
  | _ => rfl
  have hr : ¬ ((message m).turnId = some turnId ∧ m.role = "developer".toList) := by
    rintro ⟨-, hr⟩
    have hn := @boundary_developer markers m hr
    exact absurd (h.symm.trans hn) (by decide)
  simp only [withoutRebuilt, if_neg hr]

lemma isBoundary_withoutRebuilt (h : withoutRebuilt markers turnId e = some y) :
    isBoundary markers y = isBoundary markers e :=
  congrArg Mark.boundary (withoutRebuilt_some h)

lemma boundaries_withoutRebuilt (turnId : Text) (items : List ResponseItemEnvelope) :
    boundaries markers (items.filterMap (withoutRebuilt markers turnId)) = boundaries markers items := by
  unfold boundaries
  induction items with
  | nil => rfl
  | cons e items ih => ?_
  cases hb : isBoundary markers e with
  | true =>
    rw [filterMap_cons_some (withoutRebuilt_boundary hb), filter_cons_of_pos hb,
      filter_cons_of_pos hb, ih]
  | false => ?_
  rw [filter_cons_of_neg (by simp [hb])]
  rcases h : withoutRebuilt markers turnId e with _ | y
  · rw [filterMap_cons_none h, ih]
  have hy := (isBoundary_withoutRebuilt h).trans hb
  rw [filterMap_cons_some h, filter_cons_of_neg (by simp [hy]), ih]

/-! ## Cuts -/

lemma trimmed_boundary (h : ContextManager.trimmed markers e.item = some mixed) :
    isBoundary markers e = false := by
  obtain ⟨item, metadata⟩ := e
  cases item with
  | message m => ?_
  | _ => cases h
  simp only [ContextManager.trimmed] at h
  split at h
  · rename_i hr
    exact boundary_developer hr
  split at h
  · rename_i hc
    rw [Bool.and_eq_true, decide_eq_true_eq] at hc
    have ha : ("user".toList = "assistant".toList) = False := by decide
    simp only [isBoundary, isUserTurnBoundary, hc.1, hc.2, ha, Bool.not_true,
      Bool.and_false, Bool.false_and, decide_false, Bool.or_self]
  · cases h

lemma boundaries_take_trim (items : List ResponseItemEnvelope) (first cutIdx : Nat) :
    boundaries markers (items.take (trimPreTurnContextUpdates markers items first cutIdx).1) =
      boundaries markers (items.take cutIdx) := by
  induction cutIdx with
  | zero => rfl
  | succ cutIdx ih => ?_
  unfold trimPreTurnContextUpdates
  split
  · split
    · rfl
    rename_i hm
    obtain ⟨e, he, ht⟩ := Option.bind_eq_some_iff.mp hm
    have hn := trimmed_boundary ht
    rw [ih, take_add_one, he]
    simp [boundaries, hn]
  · rfl

lemma userMessagePositions_cons (e : ResponseItemEnvelope) (items : List ResponseItemEnvelope) :
    userMessagePositions markers (e :: items) =
      (if isBoundary markers e then [0] else []) ++ (userMessagePositions markers items).map (· + 1) := by
  unfold userMessagePositions isBoundary
  rw [zipIdx_cons, filterMap_cons, zipIdx_succ, filterMap_map, map_filterMap]
  split <;> split <;> simp_all

lemma length_userMessagePositions (items : List ResponseItemEnvelope) :
    (userMessagePositions markers items).length = (boundaries markers items).length := by
  induction items with
  | nil => rfl
  | cons e items ih =>
    rw [userMessagePositions_cons, length_append, length_map, ih]
    unfold boundaries
    cases h : isBoundary markers e <;> simp [h, Nat.add_comm]

lemma boundaries_take_position (h : (userMessagePositions markers items)[j]? = some i) :
    boundaries markers (items.take i) = (boundaries markers items).take j := by
  induction items generalizing i j with
  | nil => simp [userMessagePositions] at h
  | cons e items ih => ?_
  rw [userMessagePositions_cons] at h
  unfold boundaries at ih ⊢
  rcases hb : isBoundary markers e with _ | _
  · simp only [hb, Bool.false_eq_true, if_false, nil_append, getElem?_map,
      Option.map_eq_some_iff] at h
    obtain ⟨k, hk, rfl⟩ := h
    rw [take_succ_cons, filter_cons_of_neg (by simp [hb]), filter_cons_of_neg (by simp [hb])]
    exact ih hk
  simp only [hb, if_true, singleton_append] at h
  cases j with
  | zero =>
    rw [getElem?_cons_zero, Option.some.injEq] at h
    rw [← h]
    simp
  | succ j =>
    rw [getElem?_cons_succ, getElem?_map, Option.map_eq_some_iff] at h
    obtain ⟨k, hk, rfl⟩ := h
    rw [take_succ_cons, filter_cons_of_pos hb, filter_cons_of_pos hb, take_succ_cons, ih hk]

lemma boundaries_dropTurnsFrom (h : UserBoundaries markers manager.items) :
    boundaries markers (manager.dropTurnsFrom markers first turnIdx).items =
      boundaries markers (manager.items.take turnIdx) := by
  have hr : ∀ source cutIdx, cutIdx =
      (trimPreTurnContextUpdates markers manager.items first turnIdx).1 →
      boundaries markers ((manager.items.take cutIdx).filter fun e => !acceptedFrom source e) =
        boundaries markers (manager.items.take turnIdx) := by
    rintro source cutIdx rfl
    rw [boundaries_acceptedFrom fun e he => h e (mem_of_mem_take he), boundaries_take_trim]
  unfold dropTurnsFrom
  simp only [replaceAnnotated]
  split
  · rcases (manager.items[first]?.bind fun e => e.item.turnId) with _ | turnId
    · exact hr _ _ rfl
    show boundaries markers (filterMap _ _) = _
    rw [boundaries_withoutRebuilt]
    exact hr _ _ rfl
  · exact hr _ _ rfl

lemma boundaries_dropLastNUserTurns (numTurns : Nat) (h : UserBoundaries markers manager.items) :
    boundaries markers (manager.dropLastNUserTurns markers numTurns).items =
      Undo.unwind (boundaries markers manager.items) numTurns := by
  unfold ContextManager.dropLastNUserTurns
  split
  · rename_i hz
    rw [hz, Undo.unwind_zero]
  have hl := @length_userMessagePositions markers manager.items
  rcases hp : userMessagePositions markers manager.items with _ | ⟨first, later⟩
  · rw [hp] at hl
    have hn := length_eq_zero_iff.mp hl.symm
    show boundaries markers manager.items = _
    rw [hn]
    simp [Undo.unwind]
  rw [boundaries_dropTurnsFrom h]
  have hpo : (userMessagePositions markers manager.items)[(first :: later).length - numTurns]? =
      some (firstDropped (first :: later) first numTurns) := by
    rw [hp]
    unfold firstDropped
    split
    · rename_i ha
      rw [Nat.sub_eq_zero_of_le ha]
      rfl
    · rw [getD_eq_getElem?_getD, getElem?_eq_getElem (by omega)]
      rfl
  rw [boundaries_take_position hpo, ← hp, hl]
  rfl

end Codex.History
