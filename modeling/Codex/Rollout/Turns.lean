import Codex.History.Users
import Codex.Rollout.Reconstruct

/-!
# Rollouts made of turns

The scan takes back whole turns and the replay takes back user messages.
-/

namespace Codex.Rollout

open Codex.Text Codex.History Codex.Undo List Option

variable {J W : Type} {p : Replay J W}

/-- A user message is written as a response item and as an event. -/
inductive TurnItem where
  | user (message : ResponseItemEnvelope) (shown : Text)
  | model (envelope : ResponseItemEnvelope)

structure Turn where
  id : Text
  context : TurnContextItem
  body : List TurnItem

open Turn

def TurnItem.items : TurnItem → List (RolloutItem J)
  | .user message shown => [.responseItem message, .userMessage shown]
  | .model envelope => [.responseItem envelope]

def TurnItem.message? : TurnItem → Option ResponseItem
  | .user message _ => some message.item
  | .model _ => none

def Turn.messages (t : Turn) : List ResponseItem := t.body.filterMap TurnItem.message?

def Turn.bodyItems (t : Turn) : List (RolloutItem J) := t.body.flatMap TurnItem.items

def Turn.items (t : Turn) : List (RolloutItem J) :=
  .turnStarted t.id :: .turnContext t.context :: (t.bodyItems ++ [.turnComplete t.id])

def entryItems : Entry Turn → List (RolloutItem J)
  | .push t => t.items
  | .undo n => [.threadRolledBack n]

def rolloutOf (log : List (Entry Turn)) : List (RolloutItem J) := log.flatMap entryItems

lemma rolloutOf_concat (log : List (Entry Turn)) (entry : Entry Turn) :
    (rolloutOf (log ++ [entry]) : List (RolloutItem J)) = rolloutOf log ++ entryItems entry := by
  unfold rolloutOf
  rw [flatMap_append, flatMap_singleton]

/-- User messages begin turns and are kept in the history; model items begin none. -/
def TurnItem.WellFormed (p : Replay J W) : TurnItem → Prop
  | .user message _ => isUserTurnBoundary p.markers message.item = true ∧ isApiMessage p message = true ∧
      ContextManager.isAssistantMessage message.item = false
  | .model envelope => isUserTurnBoundary p.markers envelope.item = false

/-- The context names the turn, and the items fit. -/
structure Turn.WellFormed (p : Replay J W) (t : Turn) : Prop where
  context : t.context.turnId = some t.id
  body : ∀ item ∈ t.body, item.WellFormed p

/-! ## The replay -/

def usersOf (p : Replay J W) (history : ContextManager) : List ResponseItem :=
  (boundaries p.markers history.items).map (·.item)

lemma isUserTurnBoundary_truncated (envelope : ResponseItemEnvelope) :
    isUserTurnBoundary p.markers (truncated p envelope) = isUserTurnBoundary p.markers envelope.item := by
  unfold truncated
  split
  · rename_i h
    rw [h]
    rfl
  · rename_i h
    rw [h]
    rfl
  · rfl

variable {s : Scan J} {history : ContextManager} {envelope : ResponseItemEnvelope}

lemma truncated_of_boundary (h : isUserTurnBoundary p.markers envelope.item) :
    truncated p envelope = envelope.item := by
  unfold truncated
  split
  · rename_i hi
    rw [hi] at h
    simp [isUserTurnBoundary] at h
  · rename_i hi
    rw [hi] at h
    simp [isUserTurnBoundary] at h
  · rfl

lemma replay_user {shown : Text} (h : (TurnItem.user envelope shown).WellFormed p)
    (hh : UserBoundaries p.markers history.items) :
    usersOf p (replayAnnotatedItem p history envelope) = usersOf p history ++ [envelope.item] ∧
      UserBoundaries p.markers (replayAnnotatedItem p history envelope).items := by
  obtain ⟨hb, hap, ha⟩ := h
  have ht := truncated_of_boundary hb
  unfold usersOf replayAnnotatedItem
  rw [if_pos hap]
  refine ⟨?_, ?_⟩
  · unfold boundaries
    rw [filter_append, map_append, filter_cons_of_pos (by simpa [isBoundary, ht] using hb)]
    simp [ht]
  intro e he hbe
  rcases mem_append.mp he with he | he
  · exact hh e he hbe
  obtain rfl := mem_singleton.mp he
  rw [ht]
  exact ha

lemma replay_model (h : (TurnItem.model envelope).WellFormed p)
    (hh : UserBoundaries p.markers history.items) :
    usersOf p (replayAnnotatedItem p history envelope) = usersOf p history ∧
      UserBoundaries p.markers (replayAnnotatedItem p history envelope).items := by
  have hn : isUserTurnBoundary p.markers (truncated p envelope) = false :=
    (isUserTurnBoundary_truncated envelope).trans h
  unfold usersOf replayAnnotatedItem
  split
  · refine ⟨?_, ?_⟩
    · unfold boundaries
      rw [filter_append, filter_cons_of_neg (by simpa [isBoundary] using hn), filter_nil, append_nil]
    · intro e he hbe
      rcases mem_append.mp he with he | he
      · exact hh e he hbe
      · obtain rfl := mem_singleton.mp he
        exact absurd (hbe.symm.trans hn) (by decide)
  · exact ⟨rfl, hh⟩

lemma replay_body {body : List TurnItem} (h : ∀ item ∈ body, item.WellFormed p)
    (hh : UserBoundaries p.markers history.items) :
    usersOf p ((body.flatMap TurnItem.items).foldl (replayItem p) history) =
        usersOf p history ++ body.filterMap TurnItem.message? ∧
      UserBoundaries p.markers ((body.flatMap TurnItem.items).foldl (replayItem p) history).items := by
  induction body generalizing history with
  | nil => exact ⟨by simp, hh⟩
  | cons item body ih => ?_
  have hr := fun item hi => h item (mem_cons_of_mem _ hi)
  rw [flatMap_cons, foldl_append]
  cases item with
  | user message shown =>
    obtain ⟨hu, hb⟩ := replay_user (h _ mem_cons_self) hh
    obtain ⟨hm, hb'⟩ := ih hr hb
    refine ⟨?_, hb'⟩
    show usersOf p (foldl _ (replayAnnotatedItem p history message) _) = _
    rw [hm, hu, append_assoc]
    rfl
  | model envelope =>
    obtain ⟨hu, hb⟩ := replay_model (h _ mem_cons_self) hh
    obtain ⟨hm, hb'⟩ := ih hr hb
    refine ⟨?_, hb'⟩
    show usersOf p (foldl _ (replayAnnotatedItem p history envelope) _) = _
    rw [hm, hu]
    rfl

lemma mem_boundaries_drop (n : Nat) (h : UserBoundaries p.markers history.items) :
    UserBoundaries p.markers (history.dropLastNUserTurns p.markers n).items := by
  intro e he hbe
  have hm : e ∈ boundaries p.markers (history.dropLastNUserTurns p.markers n).items :=
    mem_filter.mpr ⟨he, hbe⟩
  rw [boundaries_dropLastNUserTurns n h] at hm
  exact h e (mem_filter.mp (mem_of_mem_take hm)).1 hbe

lemma replay_rollout (h : ∀ t ∈ pushed log, t.WellFormed p) (hem : history.items = []) :
    usersOf p ((rolloutOf log).foldl (replayItem p) history) = settle (parts Turn.messages log) ∧
      UserBoundaries p.markers ((rolloutOf log).foldl (replayItem p) history).items := by
  induction log using reverseRecOn with
  | nil =>
    refine ⟨?_, ?_⟩
    · simp [rolloutOf, usersOf, boundaries, hem, settle, parts]
    · intro e he
      simp [rolloutOf, hem] at he
  | append_singleton log entry ih =>
    rw [rolloutOf_concat, foldl_append]
    cases entry with
    | push t =>
      rw [pushed_concat_push] at h
      obtain ⟨hu, hb⟩ := ih fun t ht => h t (mem_append_left _ ht)
      have htu := h t (by simp)
      obtain ⟨hm, hb'⟩ := replay_body htu.body hb
      have hf : (entryItems (.push t)).foldl (replayItem p) ((rolloutOf log).foldl (replayItem p) history) =
          t.bodyItems.foldl (replayItem p) ((rolloutOf log).foldl (replayItem p) history) := by
        simp only [entryItems, Turn.items, foldl_cons, foldl_append, foldl_nil, replayItem]
      rw [hf, settle_parts_push, ← hu]
      exact ⟨hm, hb'⟩
    | undo n =>
      rw [pushed_concat_undo] at h
      obtain ⟨hu, hb⟩ := ih h
      rw [settle_parts_undo, ← hu]
      refine ⟨?_, mem_boundaries_drop n hb⟩
      show usersOf p (ContextManager.dropLastNUserTurns p.markers _ n) = _
      unfold usersOf
      rw [boundaries_dropLastNUserTurns n hb]
      unfold unwind
      rw [map_take, length_map]

/-! ## The scan -/

def Turn.segment (t : Turn) (counts : Bool) : ActiveSegment J where
  turnId := some t.id
  turnCompleted := true
  countsAsUserTurn := counts
  previousTurnSettings := some t.context.settings
  referenceContextItem := .latest t.context

def countsItem (p : Replay J W) : RolloutItem J → Bool
  | .responseItem envelope => isUserTurnBoundary p.markers envelope.item
  | .userMessage _ => true
  | _ => false

def IsBodyItem : RolloutItem J → Prop
  | .responseItem _ | .userMessage _ => True
  | _ => False

variable {checkpointTurnId : Option Text} {body older suffix : List (RolloutItem J)} {item : RolloutItem J}

lemma scan_body {segment : ActiveSegment J} (hb : ∀ item ∈ body, IsBodyItem item)
    (hs : s.activeSegment = some segment) :
    scanItems p checkpointTurnId (body ++ older) suffix s =
      scanItems p checkpointTurnId older (body.reverse ++ suffix)
        (s.withSegment { segment with countsAsUserTurn := segment.countsAsUserTurn || body.any (countsItem p) }) := by
  induction body generalizing s segment suffix with
  | nil => simp [Scan.withSegment, ← hs]
  | cons item body ih => ?_
  have hr := fun item hi => hb item (mem_cons_of_mem _ hi)
  have hse : s.segment = segment := by simp [Scan.segment, hs]
  rw [cons_append, scanItems]
  have hst : ∀ preceding, scanItem p preceding suffix s item =
      s.withSegment { segment with countsAsUserTurn := segment.countsAsUserTurn || countsItem p item } := by
    intro preceding
    cases item with
    | responseItem envelope => simp only [scanItem, hse, countsItem]
    | userMessage shown => simp only [scanItem, hse, countsItem, Bool.or_true]
    | _ => exact absurd (hb _ mem_cons_self) (by simp [IsBodyItem])
  rw [hst, ih hr rfl, reverse_cons, append_assoc, any_cons, Bool.or_assoc]
  rfl

lemma findSome?_body (hb : ∀ item ∈ body, IsBodyItem item) :
    (body ++ older).findSome? startedTurnId = older.findSome? startedTurnId := by
  induction body with
  | nil => rfl
  | cons item body ih => ?_
  rw [cons_append, findSome?_cons, ih fun item hi => hb item (mem_cons_of_mem _ hi)]
  cases item with
  | responseItem envelope | userMessage shown => rfl
  | _ => exact absurd (hb _ mem_cons_self) (by simp [IsBodyItem])

lemma bodyItems_isBody (t : Turn) : ∀ item ∈ (t.bodyItems : List (RolloutItem J)), IsBodyItem item := by
  intro item hi
  obtain ⟨turnItem, -, hin⟩ := mem_flatMap.mp hi
  cases turnItem with
  | user message shown =>
    simp only [TurnItem.items, mem_cons, not_mem_nil, or_false] at hin
    rcases hin with rfl | rfl <;> trivial
  | model envelope =>
    obtain rfl := mem_singleton.mp hin
    trivial

lemma scan_turn {checkpointTurnId : Option Text} {t : Turn} {older suffix : List (RolloutItem J)} {s : Scan J}
    (ht : t.context.turnId = some t.id) (hs : s.activeSegment = none) :
    scanItems p checkpointTurnId (t.items.reverse ++ older) suffix s =
      scanItems p checkpointTurnId older (t.items ++ suffix)
        (finalizeActiveSegment s (t.segment ((t.bodyItems : List (RolloutItem J)).any (countsItem p)))) := by
  have hb : ∀ item ∈ (t.bodyItems : List (RolloutItem J)).reverse, IsBodyItem item := fun item hi =>
    bodyItems_isBody t item (mem_reverse.mp hi)
  have hr : (t.items : List (RolloutItem J)).reverse ++ older =
      .turnComplete t.id :: (t.bodyItems.reverse ++ (.turnContext t.context :: .turnStarted t.id :: older)) := by
    simp [Turn.items]
  have hp : ((RolloutItem.turnComplete t.id ::
      (t.bodyItems.reverse ++ (.turnContext t.context :: .turnStarted t.id :: older)) :
        List (RolloutItem J)).findSome? startedTurnId).or checkpointTurnId = some t.id := by
    rw [findSome?_cons]
    rw [findSome?_body hb]
    rfl
  rw [hr, scanItems, hp]
  have hco : scanItem p (some t.id) suffix s (.turnComplete t.id) =
      s.withSegment { turnId := some t.id, turnCompleted := true } := by
    simp [scanItem, turnIdsAreCompatible, Scan.segment, hs]
  rw [hco, scan_body hb rfl, scanItems, scanItems]
  have hcon : ∀ preceding suffix' counts, scanItem p preceding suffix'
      ((s.withSegment { turnId := some t.id, turnCompleted := true }).withSegment
        { turnId := some t.id, turnCompleted := true, countsAsUserTurn := counts }) (.turnContext t.context) =
      s.withSegment (t.segment counts) := by
    intro preceding suffix' counts
    simp [scanItem, scanTurnContext, Scan.withSegment, Scan.segment, turnIdsAreCompatible, ht, Turn.segment]
  have hst : ∀ preceding suffix' counts, scanItem p preceding suffix' (s.withSegment (t.segment counts))
      (.turnStarted t.id) = finalizeActiveSegment s (t.segment counts) := by
    intro preceding suffix' counts
    have hf : finalizeActiveSegment (s.withSegment (t.segment counts)) (t.segment counts) =
        finalizeActiveSegment s (t.segment counts) := by
      unfold finalizeActiveSegment
      rfl
    have hc : turnIdsAreCompatible (t.segment counts : ActiveSegment J).turnId (some t.id) := by
      simp [turnIdsAreCompatible, Turn.segment]
    simp only [scanItem, scanTurnStarted, Scan.withSegment]
    rw [if_pos hc]
    exact hf
  rw [hcon, hst]
  simp [Turn.items]

lemma counts_of_message {t : Turn} (h : t.messages ≠ []) :
    (t.bodyItems : List (RolloutItem J)).any (countsItem p) := by
  obtain ⟨message, hm⟩ := exists_mem_of_ne_nil _ h
  obtain ⟨item, hi, hs⟩ := mem_filterMap.mp hm
  cases item with
  | user envelope shown =>
    rw [List.any_eq_true]
    exact ⟨.userMessage shown, mem_flatMap.mpr ⟨_, hi, by simp [TurnItem.items]⟩, rfl⟩
  | model envelope => simp [TurnItem.message?] at hs

structure Found (s s' : Scan J) (turn : Option Turn) : Prop where
  segment : s'.activeSegment = none
  checkpoint : s'.historyCheckpoint = s.historyCheckpoint
  settings : s'.previousTurnSettings = s.previousTurnSettings.or (turn.map (·.context.settings))
  reference : s'.referenceContextItem =
    if s.referenceContextItem = .neverSet then (turn.map (TurnReference.latest ·.context)).getD .neverSet
    else s.referenceContextItem

lemma scan_rollout {checkpointTurnId : Option Text} {log : List (Entry Turn)} {suffix : List (RolloutItem J)}
    {s : Scan J} (h : ∀ t ∈ pushed log, t.WellFormed p ∧ t.messages ≠ []) (hs : s.activeSegment = none) :
    Found s (scanItems p checkpointTurnId (rolloutOf log).reverse suffix s)
      (scanBack log.reverse s.pendingRollbackTurns).head? := by
  induction log using reverseRecOn generalizing s suffix with
  | nil =>
    refine ⟨hs, rfl, by simp [rolloutOf, scanItems, scanBack], ?_⟩
    split
    · assumption
    · rfl
  | append_singleton log entry ih =>
    rw [rolloutOf_concat, reverse_append, reverse_append, reverse_singleton, singleton_append]
    cases entry with
    | undo n =>
      rw [pushed_concat_undo] at h
      obtain ⟨hseg, hc, hse, hr⟩ :=
        @ih (.threadRolledBack n :: suffix) { s with pendingRollbackTurns := s.pendingRollbackTurns + n } h hs
      exact ⟨hseg, hc, hse, hr⟩
    | push t =>
      rw [pushed_concat_push] at h
      have hb := fun t ht => h t (mem_append_left _ ht)
      obtain ⟨htu, hm⟩ := h t (by simp)
      have hsc := @scan_turn J W p checkpointTurnId t (rolloutOf log).reverse suffix s htu.context hs
      rw [counts_of_message hm] at hsc
      rw [show (entryItems (.push t) : List (RolloutItem J)) = t.items from rfl, hsc]
      cases hp : s.pendingRollbackTurns with
      | succ pending =>
        have hf : finalizeActiveSegment s (t.segment true) =
            { s with activeSegment := none, pendingRollbackTurns := pending } := by
          simp [finalizeActiveSegment, hp, Turn.segment]
        rw [hf]
        obtain ⟨hseg, hc, hse, hr⟩ :=
          @ih (t.items ++ suffix) { s with activeSegment := none, pendingRollbackTurns := pending } hb rfl
        exact ⟨hseg, hc, hse, hr⟩
      | zero =>
        have hno : (finalizeActiveSegment s (t.segment true)).activeSegment = none := by
          simp [finalizeActiveSegment, hp]
        obtain ⟨hseg, hc, hse, hr⟩ := @ih (t.items ++ suffix) _ hb hno
        refine ⟨hseg, hc.trans ?_, hse.trans ?_, hr.trans ?_⟩
        · simp [finalizeActiveSegment, hp, Turn.segment]
        · simp only [finalizeActiveSegment, hp, Turn.segment, hasContextBaseline,
            scanBack, head?_cons]
          cases s.previousTurnSettings <;> simp
        · simp only [finalizeActiveSegment, hp, Turn.segment, hasContextBaseline,
            scanBack]
          by_cases hn : s.referenceContextItem = .neverSet
          all_goals simp [hn]

/-! ## The two together -/

lemma no_compaction (log : List (Entry Turn)) : ∀ item ∈ (rolloutOf log : List (RolloutItem J)),
    isCompacted item = false := by
  intro item hi
  obtain ⟨entry, -, hin⟩ := mem_flatMap.mp hi
  cases entry with
  | undo n =>
    obtain rfl := mem_singleton.mp hin
    rfl
  | push t => ?_
  simp only [entryItems, Turn.items, mem_cons, mem_append, not_mem_nil, or_false] at hin
  rcases hin with rfl | rfl | hb | rfl
  · rfl
  · rfl
  · have := bodyItems_isBody t item hb
    cases item with
    | compacted c => simp [IsBodyItem] at this
    | _ => rfl
  · rfl

lemma selectInputCompaction_none {mode : ThreadHistoryMode} {items : List (RolloutItem J)}
    (h : ∀ item ∈ items, isCompacted item = false) : selectInputCompaction mode items = none := by
  induction items with
  | nil => rfl
  | cons item items ih => ?_
  have hr := fun item hi => h item (mem_cons_of_mem _ hi)
  unfold selectInputCompaction
  split
  · exact ih hr
  cases item with
  | compacted c => exact absurd (h (.compacted c) (by simp)) (by simp [isCompacted])
  | _ => rfl

lemma isUnreplaced_isCompacted (h : isCompacted item = false) : isUnreplaced item = false := by
  cases item with
  | compacted c => simp [isCompacted] at h
  | _ => rfl

def Unbased (s : Scan J) : Prop :=
  s.historyCheckpoint = none ∧ ∀ segment, s.activeSegment = some segment → segment.historyCheckpoint = none

lemma Unbased.segment (h : Unbased s) : s.segment.historyCheckpoint = none := by
  unfold Scan.segment
  cases hs : s.activeSegment with
  | none => rfl
  | some segment => exact h.2 segment hs

lemma Unbased.withSegment (h : Unbased s) {segment : ActiveSegment J}
    (hs : segment.historyCheckpoint = none) : Unbased (s.withSegment segment) := by
  refine ⟨h.1, fun other ho => ?_⟩
  cases ho
  exact hs

lemma Unbased.finalize (h : Unbased s) {segment : ActiveSegment J}
    (hs : segment.historyCheckpoint = none) : Unbased (finalizeActiveSegment s segment) := by
  unfold finalizeActiveSegment
  split
  · exact ⟨h.1, fun _ hn => absurd hn (by simp)⟩
  refine ⟨?_, fun _ hn => absurd hn (by simp)⟩
  rw [h.1, hs]
  rfl

lemma Unbased.scanItem (h : Unbased s) (hi : isCompacted item = false) (preceding : Option Text)
    (suffix : List (RolloutItem J)) : Unbased (scanItem p preceding suffix s item) := by
  cases item with
  | compacted c => simp [isCompacted] at hi
  | turnContext context =>
    apply h.withSegment
    unfold scanTurnContext
    dsimp only
    split <;> exact h.segment
  | turnStarted turnId =>
    simp only [Rollout.scanItem, scanTurnStarted]
    split
    · rename_i segment hs
      split
      · exact h.finalize (h.2 segment hs)
      · exact h
    · exact h
  | turnComplete turnId =>
    simp only [Rollout.scanItem]
    split
    · exact h.withSegment h.segment
    · exact h
  | turnAborted turnId =>
    simp only [Rollout.scanItem]
    split
    · unfold scanTurnAborted
      cases hs : s.activeSegment with
      | some segment => exact h.withSegment (h.2 segment hs)
      | none =>
        cases turnId with
        | none => exact h
        | some turnId => exact h.withSegment rfl
    · exact h
  | responseItem envelope | interAgentCommunication input => exact h.withSegment h.segment
  | worldState full state | userMessage text => exact h.withSegment h.segment
  | threadRolledBack n | sessionMeta windowId | retainedContext event | other => exact h

lemma Unbased.scanItems {items : List (RolloutItem J)} (h : Unbased s)
    (hi : ∀ item ∈ items, isCompacted item = false) :
    Unbased (scanItems p checkpointTurnId items suffix s) := by
  induction items generalizing s suffix with
  | nil => exact h
  | cons item items ih =>
    exact ih (h.scanItem (hi item mem_cons_self) _ _) fun item hite =>
      hi item (mem_cons_of_mem _ hite)

lemma Unbased.finish (h : Unbased s) (resume : Option ResumeMetadata) (checkpointTurnId : Option Text) :
    Unbased (finishScan resume checkpointTurnId s) := by
  unfold finishScan
  split
  · exact h
  rename_i segment hs
  apply h.finalize
  split <;> exact h.2 segment hs

lemma history_of_no_compaction {items : List (RolloutItem J)} (mode : ThreadHistoryMode)
    (h : ∀ item ∈ items, isCompacted item = false) :
    (reconstructRollout p items mode history).history = items.foldl (replayItem p) history := by
  have hs := @selectInputCompaction_none J mode items h
  have hst : Unbased ({} : Scan J) := ⟨rfl, fun _ hn => absurd hn (by simp)⟩
  have hb := (((hst.scanItems (p := p) (fun item hi => h item (mem_reverse.mp hi))).finish
    none none) : Unbased (finishScan none none (scanItems p none items.reverse [] {})))
  simp only [reconstructRollout, hs, map_none, getD_none, bind_none, hb.1]
  rfl

lemma reconstruct_turns {log : List (Entry Turn)} {history : ContextManager} (mode : ThreadHistoryMode)
    (h : ∀ t ∈ pushed log, t.WellFormed p ∧ t.messages ≠ []) (he : history.items = []) :
    usersOf p (reconstructRollout p (rolloutOf log) mode history).history = settle (parts Turn.messages log) ∧
      (reconstructRollout p (rolloutOf log) mode history).previousTurnSettings =
        (settle log).getLast?.map (·.context.settings) ∧
      (reconstructRollout p (rolloutOf log) mode history).referenceContextItem =
        (settle log).getLast?.map (·.context) := by
  have hsel : selectInputCompaction mode (rolloutOf log : List (RolloutItem J)) = none :=
    selectInputCompaction_none (no_compaction log)
  obtain ⟨hse, hc, hs, hr⟩ :=
    @scan_rollout J W p none log [] {} h rfl
  have hh : (scanBack log.reverse 0).head? = (settle log).getLast? := by
    rw [scanBack_reverse, unwind_zero, head?_reverse]
  have hf : finishScan none none (scanItems p none (rolloutOf log).reverse [] {}) =
      scanItems p none (rolloutOf log).reverse [] {} := by
    unfold finishScan
    rw [hse]
  have hu : (rolloutOf log : List (RolloutItem J)).any isUnreplaced = false := by
    rw [List.any_eq_false]
    intro item hi
    rw [isUnreplaced_isCompacted (no_compaction log item hi)]
    decide
  rw [show ({} : Scan J).pendingRollbackTurns = 0 from rfl, hh] at hs hr
  simp only [reconstructRollout, hsel, map_none, getD_none, bind_none, hf, hc,
    hu, or_none]
  refine ⟨(replay_rollout (fun t ht => (h t ht).1) ?_).1, ?_, ?_⟩
  · exact he
  · rw [hs]
    rfl
  · rw [hr]
    cases (settle log).getLast? <;> rfl

def Turn.labelled (t : Turn) : List (Turn × ResponseItem) := t.messages.map (t, ·)

lemma settle_labelled (log : List (Entry Turn)) :
    (settle (parts labelled log)).map (·.2) = settle (parts Turn.messages log) := by
  induction log using reverseRecOn with
  | nil => rfl
  | append_singleton log entry ih => ?_
  cases entry with
  | push t =>
    rw [settle_parts_push, settle_parts_push, map_append, ih]
    simp [labelled]
  | undo n =>
    rw [settle_parts_undo, settle_parts_undo, ← ih]
    unfold unwind
    rw [map_take, length_map]

lemma length_labelled (turns : List Turn) : (turns.flatMap labelled).length = (turns.flatMap Turn.messages).length := by
  simp [length_flatMap, labelled]

lemma evenly_labelled {log : List (Entry Turn)} : Evenly labelled log ↔ Evenly Turn.messages log := by
  simp only [Evenly, length_labelled]

lemma length_le_labelled {turns : List Turn} (h : ∀ t ∈ turns, t.messages ≠ []) :
    turns.length ≤ (turns.flatMap labelled).length := by
  induction turns with
  | nil => exact Nat.zero_le _
  | cons t turns ih => ?_
  have hp := length_pos_of_ne_nil (h t mem_cons_self)
  have := ih fun t ht => h t (mem_cons_of_mem _ ht)
  rw [flatMap_cons, length_append, length_cons, labelled, length_map]
  omega

lemma getLast?_labelled {turns : List Turn} (h : ∀ t ∈ turns, t.messages ≠ []) :
    (turns.flatMap labelled).getLast?.map (·.1) = turns.getLast? := by
  rcases eq_nil_or_concat turns with rfl | ⟨_, last, rfl⟩
  · rfl
  obtain ⟨message, hm⟩ := getLast?_isSome.mpr (h last (by simp)) |> Option.isSome_iff_exists.mp
  simp [flatMap_append, labelled, hm]

/-- The settings and the context are those of the turn of the last user message left. -/
def RestoresLast (p : Replay J W) (history : ContextManager) (mode : ThreadHistoryMode) (log : List (Entry Turn)) :
    Prop :=
  let restored := reconstructRollout p (rolloutOf log) mode history
  let left := settle (parts labelled log)
  usersOf p restored.history = left.map (·.2) ∧
    restored.previousTurnSettings = left.getLast?.map (·.1.context.settings) ∧
    restored.referenceContextItem = left.getLast?.map (·.1.context)

/-- Forgetting more parts than the turns taken back have leaves a message of one of these. -/
lemma evenly_of_contexts {turns : List Turn} {n : Nat} (h : ∀ t ∈ turns, t.messages ≠ [])
    (hd : turns.Pairwise fun t t' => t.context ≠ t'.context)
    (hlast : (unwind turns n).getLast?.map (·.context) =
      (unwind (turns.flatMap labelled) n).getLast?.map (·.1.context)) :
    ((turns.drop (turns.length - n)).flatMap labelled).length = min n (turns.flatMap labelled).length := by
  have hsplit := flatMap_unwind (f := labelled) turns n
  have hl := congrArg List.length hsplit
  rw [length_append] at hl
  have hge : min n turns.length ≤ ((turns.drop (turns.length - n)).flatMap labelled).length := by
    have := length_le_labelled fun t (ht : t ∈ turns.drop (turns.length - n)) => h t (mem_of_mem_drop ht)
    rw [length_drop] at this
    omega
  by_contra hne
  have hlt : n < ((turns.drop (turns.length - n)).flatMap labelled).length := by
    rcases Nat.lt_or_ge turns.length n with hn | hn
    · have hall : turns.drop (turns.length - n) = turns := by
        rw [Nat.sub_eq_zero_of_le hn.le, drop_zero]
      rw [hall] at hne ⊢
      omega
    · omega
  -- what is left ends with a message of a turn taken back
  have hleft : unwind (turns.flatMap labelled) n = (unwind turns n).flatMap labelled ++
      unwind ((turns.drop (turns.length - n)).flatMap labelled) n := by
    unfold unwind at hsplit hl ⊢
    rw [hl]
    nth_rewrite 1 [hsplit]
    rw [Nat.add_sub_assoc hlt.le, take_length_add_append]
  have hpos : unwind ((turns.drop (turns.length - n)).flatMap labelled) n ≠ [] := by
    rw [← length_pos_iff, length_unwind]
    omega
  rw [hleft, getLast?_append_of_ne_nil _ hpos, getLast?_eq_some_getLast hpos] at hlast
  obtain ⟨kept, hk, hc⟩ := Option.map_eq_some_iff.mp hlast
  obtain ⟨taken, ht, hin⟩ := mem_flatMap.mp (mem_of_mem_take (getLast_mem hpos))
  obtain ⟨_, -, heq⟩ := mem_map.mp hin
  rw [← take_append_drop (turns.length - n) turns, pairwise_append] at hd
  exact hd.2.2 kept (mem_of_getLast? hk) taken ht (hc.trans (by rw [← heq]))

/-- Resuming restores the turn of the last user message that is left when each marker takes back as many user
messages as turns; where turns differ in their contexts, only then at every point of the rollout. -/
theorem restored_turn_of_last_message {log : List (Entry Turn)} {history : ContextManager}
    (h : ∀ t ∈ pushed log, t.WellFormed p ∧ t.messages ≠ []) (hempty : history.items = []) :
    (Evenly Turn.messages log → ∀ mode, RestoresLast p history mode log) ∧
      ((pushed log).Pairwise (fun t t' => t.context ≠ t'.context) →
        (∀ before mode, before <+: log → RestoresLast p history mode before) → Evenly Turn.messages log) := by
  constructor
  · intro he mode
    obtain ⟨hu, hs, hr⟩ := reconstruct_turns mode h hempty
    have hl : (settle (parts labelled log)).getLast?.map (·.1) = (settle log).getLast? := by
      rw [settle_parts (evenly_labelled.mpr he)]
      exact getLast?_labelled fun t ht => (h t ((settle_sublist log).subset ht)).2
    refine ⟨by rw [hu, settle_labelled], ?_, ?_⟩
    · rw [hs, ← hl, Option.map_map]
      rfl
    · rw [hr, ← hl, Option.map_map]
      rfl
  intro hd hall
  rw [← evenly_labelled]
  apply Evenly.of_marks
  rintro before n hp he
  have hb : ∀ t ∈ pushed (before ++ [.undo n]), t.WellFormed p ∧ t.messages ≠ [] := fun t ht =>
    h t (pushed_sublist hp |>.subset ht)
  obtain ⟨-, -, hr⟩ := hall _ .legacy hp
  rw [(reconstruct_turns .legacy hb hempty).2.2, settle_concat, settle_parts_undo, settle_parts he] at hr
  rw [pushed_concat_undo] at hb
  refine evenly_of_contexts (fun t ht => (hb t ((settle_sublist before).subset ht)).2) ?_ hr
  exact hd.sublist ((settle_sublist before).trans (pushed_sublist ((prefix_append _ _).trans hp)))

/-! ## A turn that is steered -/

def plainReplay : Replay Unit Unit where
  markers := taggedTexts
  compactionOutput _ := false
  harnessAuthoredConfiguration _ := false
  truncate _ output := output
  capture history envelope := (history.retainedContext, envelope.metadata)
  recordRetainedContext context _ := context
  restoreRetainedContext _ saved := saved.getD .empty
  restoreReviewContext _ saved _ := saved.getD .empty
  buildCompactedHistory items _ := items
  parseUuidV7 := some
  fromState := id
  applyMergePatch state _ := state

def emptyHistory : ContextManager := ⟨[], .empty, 0, 0, 0, none, none⟩

def turnOf (id : String) (messages : List String) : Turn where
  id := id.toList
  context := ⟨some id.toList, ⟨id.toList, none, none, none⟩, []⟩
  body := messages.map fun text => .user (.new (userText text)) text.toList

lemma wellFormed_turnOf (id : String) {messages : List String}
    (h : ∀ text ∈ messages, isUserTurnBoundary taggedTexts (userText text)) :
    (turnOf id messages).WellFormed plainReplay := by
  refine ⟨rfl, ?_⟩
  intro item hi
  obtain ⟨text, ht, rfl⟩ := mem_map.mp hi
  refine ⟨h text ht, ?_, ?_⟩
  · simp [isApiMessage, ResponseItemEnvelope.new, userText]
  · simp [ContextManager.isAssistantMessage, ResponseItemEnvelope.new, userText]

theorem first_of_two_turns_restored :
    (reconstructRollout plainReplay
      (rolloutOf [.push (turnOf "a" ["one", "and"]), .push (turnOf "b" ["two"]), .undo 1]) .legacy
      emptyHistory).previousTurnSettings = some ⟨"a".toList, none, none, none⟩ := by
  have hturns : ∀ t ∈ pushed [.push (turnOf "a" ["one", "and"]), .push (turnOf "b" ["two"]), .undo 1],
      t.WellFormed plainReplay ∧ t.messages ≠ [] := by
    intro t ht
    have ht : t ∈ [turnOf "a" ["one", "and"], turnOf "b" ["two"]] := ht
    simp only [mem_cons, not_mem_nil, or_false] at ht
    rcases ht with rfl | rfl
    · exact ⟨wellFormed_turnOf "a" (by decide), by decide⟩
    · exact ⟨wellFormed_turnOf "b" (by decide), by decide⟩
  have heven : Evenly Turn.messages [.push (turnOf "a" ["one", "and"]), .push (turnOf "b" ["two"]), .undo 1] := by
    apply Evenly.of_marks
    intro before n hp _
    obtain ⟨rfl, rfl⟩ : before = [.push (turnOf "a" ["one", "and"]), .push (turnOf "b" ["two"])] ∧ n = 1 := by
      simpa [prefix_cons_iff, append_eq_cons_iff] using hp
    rfl
  obtain ⟨-, hs, -⟩ := (@restored_turn_of_last_message _ _ plainReplay _ emptyHistory hturns rfl).1 heven .legacy
  exact hs

theorem steered_turn_forgotten :
    usersOf plainReplay (reconstructRollout plainReplay
      (rolloutOf [.push (turnOf "a" ["one", "two"]), .undo 1]) .legacy emptyHistory).history = [userText "one"] ∧
    (reconstructRollout plainReplay
      (rolloutOf [.push (turnOf "a" ["one", "two"]), .undo 1]) .legacy emptyHistory).previousTurnSettings = none ∧
    (reconstructRollout plainReplay
      (rolloutOf [.push (turnOf "a" ["one", "two"]), .undo 1]) .legacy emptyHistory).referenceContextItem = none := by
  refine ⟨?_, ?_, ?_⟩
  · decide +kernel
  · rfl
  · rfl

end Codex.Rollout
