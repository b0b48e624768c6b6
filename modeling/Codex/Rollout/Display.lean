import Codex.Rollout.Turns

/-!
# The history that is shown

`ThreadHistoryBuilder` of `app-server-protocol/src/protocol/thread_history.rs`. Of the items of a turn only user
messages and hook prompts are told apart; times and states of turns are left out.
-/

namespace Codex.Rollout

open Codex.Text Codex.History Codex.Undo List

variable {J W : Type} {p : Replay J W}

inductive ThreadItem where
  | userMessage (content : Text)
  | hookPrompt
  deriving DecidableEq

structure PendingTurn where
  id : Text
  items : List ThreadItem := []
  openedExplicitly : Bool := false
  sawCompaction : Bool := false
  deriving DecidableEq

structure ThreadHistoryBuilder where
  turns : List PendingTurn := []
  currentTurn : Option PendingTurn := none
  currentRolloutIndex : Nat := 0
  nextRolloutIndex : Nat := 0

namespace ThreadHistoryBuilder

section

variable (b : ThreadHistoryBuilder)

def finishCurrentTurn : ThreadHistoryBuilder :=
  match b.currentTurn with
  | none => b
  | some turn =>
    if turn.items.isEmpty && !turn.openedExplicitly && !turn.sawCompaction then { b with currentTurn := none }
    else { b with currentTurn := none, turns := b.turns ++ [turn] }

/-- A turn that nothing opened is named after its place in the rollout. -/
def ensureTurn : PendingTurn :=
  b.currentTurn.getD { id := ("rollout-" ++ toString b.currentRolloutIndex).toList }

def pushItemInCurrentTurn (item : ThreadItem) : ThreadHistoryBuilder :=
  { b with currentTurn := some { b.ensureTurn with items := b.ensureTurn.items ++ [item] } }

def handleUserMessage (content : Text) : ThreadHistoryBuilder :=
  let b :=
    match b.currentTurn with
    | some turn =>
      if !turn.openedExplicitly && !(turn.sawCompaction && turn.items.isEmpty) then b.finishCurrentTurn else b
    | none => b
  b.pushItemInCurrentTurn (.userMessage content)

def handleTurnStarted (turnId : Text) : ThreadHistoryBuilder :=
  { b.finishCurrentTurn with currentTurn := some { id := turnId, openedExplicitly := true } }

/-- A completion closes the current turn, unless it is that of an earlier one. -/
def handleTurnComplete (turnId : Text) : ThreadHistoryBuilder :=
  if b.currentTurn.any (·.id = turnId) then b.finishCurrentTurn
  else if b.turns.any (·.id = turnId) then b
  else b.finishCurrentTurn

def handleThreadRollback (n : Nat) : ThreadHistoryBuilder :=
  let b := b.finishCurrentTurn
  { b with turns := if b.turns.length ≤ n then [] else b.turns.take (b.turns.length - n) }

end

/-- Which user messages are prompts of hooks is a parameter. -/
def handleResponseItem (isHookPrompt : Message → Bool) (b : ThreadHistoryBuilder) : ResponseItem → ThreadHistoryBuilder
  | .message m => if m.role = "user".toList && isHookPrompt m then b.pushItemInCurrentTurn .hookPrompt else b
  | _ => b

def handleRolloutItem (isHookPrompt : Message → Bool) (b : ThreadHistoryBuilder) (item : RolloutItem J) :
    ThreadHistoryBuilder :=
  let b := { b with currentRolloutIndex := b.nextRolloutIndex, nextRolloutIndex := b.nextRolloutIndex + 1 }
  match item with
  | .userMessage text => b.handleUserMessage text
  | .turnStarted turnId => b.handleTurnStarted turnId
  | .turnComplete turnId => b.handleTurnComplete turnId
  | .threadRolledBack n => b.handleThreadRollback n
  | .compacted _ => { b with currentTurn := some { b.ensureTurn with sawCompaction := true } }
  | .responseItem envelope => b.handleResponseItem isHookPrompt envelope.item
  | _ => b

def finish (b : ThreadHistoryBuilder) : List PendingTurn := b.finishCurrentTurn.turns

end ThreadHistoryBuilder

open ThreadHistoryBuilder

variable {isHookPrompt : Message → Bool}

def ThreadItem.content? : ThreadItem → Option Text
  | .userMessage content => some content
  | .hookPrompt => none

def PendingTurn.shown (turn : PendingTurn) : List Text := turn.items.filterMap ThreadItem.content?

def shownMessages (isHookPrompt : Message → Bool) (items : List (RolloutItem J)) : List Text :=
  (items.foldl (handleRolloutItem isHookPrompt) {}).finish.flatMap PendingTurn.shown

def TurnItem.shown? : TurnItem → Option Text
  | .user _ shown => some shown
  | .model _ => none

def Turn.shown (t : Turn) : List Text := t.body.filterMap TurnItem.shown?

lemma display_message {shown : Text} {b : ThreadHistoryBuilder} {turn : PendingTurn}
    (hc : b.currentTurn = some turn) (ho : turn.openedExplicitly) :
    (handleRolloutItem isHookPrompt b (.userMessage shown : RolloutItem J)).currentTurn =
        some { turn with items := turn.items ++ [.userMessage shown] } ∧
      (handleRolloutItem isHookPrompt b (.userMessage shown : RolloutItem J)).turns = b.turns := by
  simp [handleRolloutItem, handleUserMessage, hc, ho, pushItemInCurrentTurn, ensureTurn]

lemma display_body {body : List TurnItem} {b : ThreadHistoryBuilder} {turn : PendingTurn}
    (hc : b.currentTurn = some turn) (ho : turn.openedExplicitly) :
    ∃ items, (((body.flatMap TurnItem.items : List (RolloutItem J)).foldl (handleRolloutItem isHookPrompt)
      b).currentTurn =
        some { turn with items := turn.items ++ items }) ∧
      items.filterMap ThreadItem.content? = body.filterMap TurnItem.shown? ∧
      ((body.flatMap TurnItem.items : List (RolloutItem J)).foldl (handleRolloutItem isHookPrompt) b).turns =
        b.turns := by
  induction body generalizing b turn with
  | nil => exact ⟨[], by simpa using hc, rfl, rfl⟩
  | cons item body ih => ?_
  have hr : ∀ envelope : ResponseItemEnvelope, ∃ prompts : List ThreadItem,
      (handleRolloutItem isHookPrompt b (.responseItem envelope : RolloutItem J)).currentTurn =
        some { turn with items := turn.items ++ prompts } ∧
      prompts.filterMap ThreadItem.content? = [] ∧
      (handleRolloutItem isHookPrompt b (.responseItem envelope : RolloutItem J)).turns = b.turns := by
    intro envelope
    simp only [handleRolloutItem, handleResponseItem]
    split
    · split
      · exact ⟨[.hookPrompt], by simp [pushItemInCurrentTurn, ensureTurn, hc], rfl, rfl⟩
      · exact ⟨[], by simp [hc], rfl, rfl⟩
    · exact ⟨[], by simp [hc], rfl, rfl⟩
  cases item with
  | model envelope =>
    obtain ⟨prompts, hp, hn, ht⟩ := hr envelope
    obtain ⟨items, hi, hs, hk⟩ := @ih _ { turn with items := turn.items ++ prompts } hp ho
    refine ⟨prompts ++ items, ?_, ?_, hk.trans ht⟩
    · rw [← append_assoc]
      exact hi
    · rw [filterMap_append, hn, hs]
      rfl
  | user message shown =>
    obtain ⟨prompts, hp, hn, ht⟩ := hr message
    obtain ⟨hm, ht'⟩ := @display_message J isHookPrompt shown _ _ hp ho
    rw [ht] at ht'
    simp only [append_assoc] at hm
    obtain ⟨items, hi, hs, hk⟩ := @ih _
      { turn with items := turn.items ++ (prompts ++ [.userMessage shown]) } hm ho
    refine ⟨prompts ++ [.userMessage shown] ++ items, ?_, ?_, hk.trans ht'⟩
    · rw [← append_assoc]
      exact hi
    · rw [filterMap_append, filterMap_append, hn, hs]
      rfl

lemma display_rollout (log : List (Entry Turn)) :
    ((rolloutOf log : List (RolloutItem J)).foldl (handleRolloutItem isHookPrompt) {}).currentTurn = none ∧
      ((rolloutOf log : List (RolloutItem J)).foldl (handleRolloutItem isHookPrompt) {}).turns.map PendingTurn.shown =
        (settle log).map Turn.shown := by
  induction log using reverseRecOn with
  | nil => exact ⟨rfl, rfl⟩
  | append_singleton log entry ih => ?_
  obtain ⟨hc, ht⟩ := ih
  rw [rolloutOf_concat, foldl_append, settle_concat]
  generalize (rolloutOf log : List (RolloutItem J)).foldl (handleRolloutItem isHookPrompt) {} = b at *
  cases entry with
  | undo n =>
    have hl := congrArg List.length ht
    rw [length_map, length_map] at hl
    simp only [entryItems, foldl_cons, foldl_nil, handleRolloutItem, handleThreadRollback,
      finishCurrentTurn, hc, true_and, apply, unwind]
    split
    · rename_i ha
      rw [← hl, Nat.sub_eq_zero_of_le ha]
      rfl
    · rw [map_take, ht, ← map_take, hl]
  | push t =>
    have hs : (handleRolloutItem isHookPrompt (handleRolloutItem isHookPrompt b
        (.turnStarted t.id : RolloutItem J)) (.turnContext t.context : RolloutItem J)).currentTurn =
          some { id := t.id, openedExplicitly := true } := rfl
    have hk : (handleRolloutItem isHookPrompt (handleRolloutItem isHookPrompt b
        (.turnStarted t.id : RolloutItem J)) (.turnContext t.context : RolloutItem J)).turns = b.turns := by
      simp [handleRolloutItem, handleTurnStarted, finishCurrentTurn, hc]
    obtain ⟨items, hi, hsh, hb⟩ := @display_body J isHookPrompt t.body _ _ hs rfl
    simp only [entryItems, Turn.items, foldl_cons, foldl_append, foldl_nil]
    have hco : ∀ b' : ThreadHistoryBuilder,
        b'.currentTurn = some { id := t.id, items := [] ++ items, openedExplicitly := true } →
        (handleRolloutItem isHookPrompt b' (.turnComplete t.id : RolloutItem J)).currentTurn = none ∧
          (handleRolloutItem isHookPrompt b' (.turnComplete t.id : RolloutItem J)).turns =
            b'.turns ++ [{ id := t.id, items := items, openedExplicitly := true }] := by
      intro b' hb'
      simp [handleRolloutItem, handleTurnComplete, finishCurrentTurn, hb']
    obtain ⟨hd, hp⟩ := hco _ hi
    refine ⟨hd, ?_⟩
    rw [show (t.bodyItems : List (RolloutItem J)) = t.body.flatMap TurnItem.items from rfl, hp, hb, hk,
      map_append, ht, apply, map_append]
    simp only [map_cons, map_nil]
    rw [show PendingTurn.shown { id := t.id, items := items, openedExplicitly := true } = t.shown from hsh]

lemma shownMessages_rollout (log : List (Entry Turn)) :
    shownMessages isHookPrompt (rolloutOf log : List (RolloutItem J)) = (settle log).flatMap Turn.shown := by
  obtain ⟨hc, ht⟩ := @display_rollout J isHookPrompt log
  unfold shownMessages finish finishCurrentTurn
  rw [hc]
  rw [flatMap_def, flatMap_def, ht]

/-- The event of a user message has the text of its response item. -/
def Turn.WrittenAs (textOf : ResponseItem → Text) (t : Turn) : Prop :=
  ∀ message shown, .user message shown ∈ t.body → shown = textOf message.item

lemma Turn.WrittenAs.shown {t : Turn} (h : t.WrittenAs textOf) :
    t.shown = t.messages.map textOf := by
  unfold Turn.shown Turn.messages
  rw [map_filterMap]
  apply filterMap_congr
  intro item hi
  cases item with
  | user message shown => exact congrArg some (h message shown hi)
  | model envelope => rfl

/-- What is shown is what the model remembers, at every point of the rollout, exactly if each marker takes back as
many user messages as turns, or all that are left. -/
theorem shown_as_remembered {log : List (Entry Turn)} {history : ContextManager} {textOf : ResponseItem → Text}
    (h : ∀ t ∈ pushed log, t.WellFormed p ∧ t.WrittenAs textOf) (hempty : history.items = []) :
    (∀ before mode, before <+: log → shownMessages isHookPrompt (rolloutOf before : List (RolloutItem J)) =
      (usersOf p (reconstructRollout p (rolloutOf before) mode history).history).map textOf) ↔
    Evenly Turn.messages log := by
  have hr : ∀ before mode, before <+: log → usersOf p (reconstructRollout p (rolloutOf before) mode history).history =
      settle (parts Turn.messages before) := by
    intro before mode hp
    rw [history_of_no_compaction mode (no_compaction before)]
    exact (replay_rollout (fun t ht => (h t ((pushed_sublist hp).subset ht)).1) hempty).1
  have hs : ∀ before, before <+: log → shownMessages isHookPrompt (rolloutOf before : List (RolloutItem J)) =
      ((settle before).flatMap Turn.messages).map textOf := by
    intro before hp
    rw [shownMessages_rollout, map_flatMap]
    apply flatMap_congr
    intro t ht
    exact (h t ((pushed_sublist hp).subset ((settle_sublist before).subset ht))).2.shown
  constructor
  · intro ha
    apply evenly_of_length
    intro before hp
    have hl := congrArg List.length (ha before .legacy hp)
    rw [hs before hp, hr before .legacy hp, length_map, length_map] at hl
    exact hl.symm
  rintro he before mode ⟨after, rfl⟩
  rw [hs before (prefix_append _ _), hr before mode (prefix_append _ _), settle_parts he.of_append]

/-! ## A turn that is steered, and one without a message -/

def textOfMessage : ResponseItem → Text
  | .message ⟨_, _, [.inputText text], _, _⟩ => text
  | _ => []

def noHookPrompts : Message → Bool := fun _ => false

lemma writtenAs_turnOf (id : String) (messages : List String) :
    (turnOf id messages).WrittenAs textOfMessage := by
  intro message shown hi
  obtain ⟨_, -, heq⟩ := mem_map.mp hi
  obtain ⟨rfl, rfl⟩ := TurnItem.user.inj heq
  rfl

/-- A steered turn and one without a message, which no marker takes back. -/
theorem last_of_three_turns_hidden : shownMessages noHookPrompts
      (rolloutOf [.push (turnOf "a" ["one", "and"]), .push (turnOf "b" []), .push (turnOf "c" ["two"]), .undo 1] :
        List (RolloutItem Unit)) =
    (usersOf plainReplay (reconstructRollout plainReplay
      (rolloutOf [.push (turnOf "a" ["one", "and"]), .push (turnOf "b" []), .push (turnOf "c" ["two"]), .undo 1])
      .legacy emptyHistory).history).map textOfMessage := by
  have hturns : ∀ t ∈ pushed [.push (turnOf "a" ["one", "and"]), .push (turnOf "b" []), .push (turnOf "c" ["two"]),
      .undo 1], t.WellFormed plainReplay ∧ t.WrittenAs textOfMessage := by
    intro t ht
    have ht : t ∈ [turnOf "a" ["one", "and"], turnOf "b" [], turnOf "c" ["two"]] := ht
    simp only [mem_cons, not_mem_nil, or_false] at ht
    rcases ht with rfl | rfl | rfl
    · exact ⟨wellFormed_turnOf "a" (by decide), writtenAs_turnOf _ _⟩
    · exact ⟨wellFormed_turnOf "b" (by simp), writtenAs_turnOf _ _⟩
    · exact ⟨wellFormed_turnOf "c" (by decide), writtenAs_turnOf _ _⟩
  refine (@shown_as_remembered _ _ plainReplay noHookPrompts _ emptyHistory textOfMessage hturns rfl).mpr ?_ _ .legacy
    prefix_rfl
  apply Evenly.of_marks
  intro before n hp _
  obtain ⟨rfl, rfl⟩ : before = [.push (turnOf "a" ["one", "and"]), .push (turnOf "b" []),
      .push (turnOf "c" ["two"])] ∧ n = 1 := by
    simpa [prefix_cons_iff, append_eq_cons_iff] using hp
  rfl

theorem steered_message_remembered : shownMessages noHookPrompts
      (rolloutOf [.push (turnOf "a" ["one", "two"]), .undo 1] : List (RolloutItem Unit)) = [] ∧
    usersOf plainReplay (reconstructRollout plainReplay
      (rolloutOf [.push (turnOf "a" ["one", "two"]), .undo 1]) .legacy emptyHistory).history = [userText "one"] := by
  refine ⟨rfl, ?_⟩
  decide +kernel

end Codex.Rollout
