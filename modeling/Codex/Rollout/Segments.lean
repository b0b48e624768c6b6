import Codex.Rollout.Turns

/-! # The scan, turn by turn; ends of other turns may come late, within a turn -/

namespace Codex.Rollout

open Codex.Text Codex.History Codex.Undo List Option

variable {J W : Type} {p : Replay J W} {checkpointTurnId : Option Text} {s s' : Scan J} {id : Text}
  {items older suffix : List (RolloutItem J)}

def InTurn (id : Text) : RolloutItem J → Prop
  | .turnStarted _ | .threadRolledBack _ => False
  | .turnContext context => context.turnId = none ∨ context.turnId = some id
  | _ => True

def scanWith (p : Replay J W) (preceding : Option Text) :
    List (RolloutItem J) → List (RolloutItem J) → Scan J → Scan J
  | [], _, s => s
  | item :: older, suffix, s => scanWith p preceding older (item :: suffix) (scanItem p preceding suffix s item)

section Turn

variable (h : ∀ item ∈ items, InTurn id item)

include h

lemma findSome?_inTurn : (items ++ .turnStarted id :: older).findSome? startedTurnId = some id := by
  induction items with
  | nil => rfl
  | cons item items ih => ?_
  rw [cons_append, findSome?_cons, ih fun item hi => h item (mem_cons_of_mem _ hi)]
  cases item with
  | turnStarted other => exact absurd (h _ mem_cons_self) (by simp [InTurn])
  | _ => rfl

lemma findSome?_unstarted : items.findSome? startedTurnId = none := by
  rw [findSome?_eq_none_iff]
  intro item hi
  have := h item hi
  cases item with
  | turnStarted other => simp [InTurn] at this
  | _ => rfl

lemma scanItems_turn : scanItems p checkpointTurnId (items ++ .turnStarted id :: older) suffix s =
      scanItems p checkpointTurnId older (.turnStarted id :: (items.reverse ++ suffix))
        (scanTurnStarted (scanWith p (some id) items suffix s) id) := by
  induction items generalizing suffix s with
  | nil => rfl
  | cons item items ih => ?_
  have hr := fun item hi => h item (mem_cons_of_mem _ hi)
  have hp := @findSome?_inTurn J id (item :: items) older h
  rw [cons_append] at hp ⊢
  rw [scanItems, hp, ih hr, scanWith, reverse_cons, append_assoc]
  rfl

lemma scanItems_unstarted : scanItems p none items suffix s = scanWith p none items suffix s := by
  induction items generalizing suffix s with
  | nil => rfl
  | cons item items ih =>
    rw [scanItems, findSome?_unstarted h, ih fun item hi => h item (mem_cons_of_mem _ hi), scanWith]
    rfl

end Turn

/-! ## What a scan only adds to -/

structure Extends (s s' : Scan J) : Prop where
  checkpoint : ∀ c, s.historyCheckpoint = some c → s'.historyCheckpoint = some c
  window : ∀ w, s.window = some w → s'.window = some w
  worldState : ∃ more, s'.worldStateReplay = s.worldStateReplay ++ more

lemma Extends.refl (s : Scan J) : Extends s s := ⟨fun _ h => h, fun _ h => h, [], by simp⟩

variable {s₁ s₂ s₃ : Scan J} {segment : ActiveSegment J} {other : Option Text}

lemma Extends.trans (h : Extends s₁ s₂) (h' : Extends s₂ s₃) : Extends s₁ s₃ := by
  obtain ⟨more, hm⟩ := h.worldState
  obtain ⟨more', hm'⟩ := h'.worldState
  exact ⟨fun c hc => h'.checkpoint c (h.checkpoint c hc), fun w hw => h'.window w (h.window w hw), more ++ more',
    by rw [hm', hm, append_assoc]⟩

lemma extends_withSegment (s : Scan J) (segment : ActiveSegment J) : Extends s (s.withSegment segment) :=
  ⟨fun _ h => h, fun _ h => h, [], by simp [Scan.withSegment]⟩

lemma extends_finalize (s : Scan J) (segment : ActiveSegment J) : Extends s (finalizeActiveSegment s segment) := by
  unfold finalizeActiveSegment
  split
  · exact ⟨fun _ h => h, fun _ h => h, [], by simp⟩
  refine ⟨fun c hc => ?_, fun w hw => ?_, _, rfl⟩
  · rw [hc]
    rfl
  · rw [hw]
    rfl

lemma extends_scanItem (preceding : Option Text) (suffix : List (RolloutItem J)) (s : Scan J)
    (item : RolloutItem J) : Extends s (scanItem p preceding suffix s item) := by
  cases item with
  | turnStarted turnId =>
    simp only [scanItem, scanTurnStarted]
    split
    · split
      · exact extends_finalize _ _
      · exact Extends.refl s
    · exact Extends.refl s
  | turnComplete turnId =>
    simp only [scanItem]
    split
    · exact extends_withSegment _ _
    · exact ⟨fun _ h => h, fun _ h => h, [], by simp⟩
  | turnAborted turnId =>
    simp only [scanItem]
    split
    · unfold scanTurnAborted
      split
      · exact extends_withSegment _ _
      · exact extends_withSegment _ _
      · exact Extends.refl s
    · exact Extends.refl s
  | threadRolledBack n => exact ⟨fun _ h => h, fun _ h => h, [], by simp [scanItem]⟩
  | sessionMeta windowId | retainedContext event | other => exact Extends.refl s
  | responseItem envelope | interAgentCommunication input | compacted c => exact extends_withSegment _ _
  | turnContext context | worldState full state | userMessage text => exact extends_withSegment _ _

lemma extends_scanItems (items suffix : List (RolloutItem J)) (s : Scan J) :
    Extends s (scanItems p checkpointTurnId items suffix s) := by
  induction items generalizing suffix s with
  | nil => exact Extends.refl s
  | cons item items ih => exact (extends_scanItem _ _ s item).trans (ih _ _)

lemma extends_finish (resume : Option ResumeMetadata) (s : Scan J) :
    Extends s (finishScan resume checkpointTurnId s) := by
  unfold finishScan
  split
  · exact Extends.refl s
  · exact extends_finalize _ _

/-! ## Within a turn -/

def changesWorldState : RolloutItem J → Bool
  | .worldState _ _ | .compacted _ => true
  | _ => false

def countsAsUser (p : Replay J W) : RolloutItem J → Bool
  | .responseItem envelope => isUserTurnBoundary p.markers envelope.item
  | .userMessage _ | .interAgentCommunication _ => true
  | _ => false

structure Within (p : Replay J W) (items : List (RolloutItem J)) (s s' : Scan J) : Prop where
  checkpoint : s'.historyCheckpoint = s.historyCheckpoint
  window : s'.window = s.window
  worldState : s'.worldStateReplay = s.worldStateReplay
  pending : s'.pendingRollbackTurns = s.pendingRollbackTurns
  segmentWorldState :
    s'.segment.worldStateReplay = s.segment.worldStateReplay ++ items.filter changesWorldState
  counts : s'.segment.countsAsUserTurn = (s.segment.countsAsUserTurn || items.any (countsAsUser p))
  segmentCheckpoint : ∀ c, s.segment.historyCheckpoint = some c → s'.segment.historyCheckpoint = some c
  segmentWindow : ∀ w, s.segment.window = some w → s'.segment.window = some w
  unbased : items.any isCompacted = false →
    s'.segment.historyCheckpoint = s.segment.historyCheckpoint ∧ s'.segment.window = s.segment.window

lemma Within.refl (s : Scan J) : Within p [] s s :=
  ⟨rfl, rfl, rfl, rfl, by simp, by simp, fun _ h => h, fun _ h => h, fun _ => ⟨rfl, rfl⟩⟩

lemma Within.trans {items later : List (RolloutItem J)} (h : Within p items s₁ s₂)
    (h' : Within p later s₂ s₃) : Within p (items ++ later) s₁ s₃ where
  checkpoint := h'.checkpoint.trans h.checkpoint
  window := h'.window.trans h.window
  worldState := h'.worldState.trans h.worldState
  pending := h'.pending.trans h.pending
  segmentWorldState := by
    rw [h'.segmentWorldState, h.segmentWorldState, filter_append, append_assoc]
  counts := by rw [h'.counts, h.counts, any_append, Bool.or_assoc]
  segmentCheckpoint c hc := h'.segmentCheckpoint c (h.segmentCheckpoint c hc)
  segmentWindow w hw := h'.segmentWindow w (h.segmentWindow w hw)
  unbased hn := by
    rw [any_append, Bool.or_eq_false_iff] at hn
    rw [(h'.unbased hn.2).1, (h'.unbased hn.2).2, (h.unbased hn.1).1, (h.unbased hn.1).2]
    exact ⟨rfl, rfl⟩

variable {item : RolloutItem J}

lemma within_quiet (hwo : changesWorldState item = false) (hco : countsAsUser p item = false)
    (hp : s'.pendingRollbackTurns = s.pendingRollbackTurns)
    (hf : s'.historyCheckpoint = s.historyCheckpoint ∧ s'.window = s.window ∧ s'.worldStateReplay = s.worldStateReplay)
    (hs : s'.segment.worldStateReplay = s.segment.worldStateReplay ∧ s'.segment.countsAsUserTurn =
      s.segment.countsAsUserTurn ∧ s'.segment.historyCheckpoint = s.segment.historyCheckpoint ∧ s'.segment.window =
        s.segment.window) :
    Within p [item] s s' where
  checkpoint := hf.1
  window := hf.2.1
  worldState := hf.2.2
  pending := hp
  segmentWorldState := by simp [hs.1, hwo]
  counts := by simp [hs.2.1, hco]
  segmentCheckpoint c hc := hs.2.2.1.trans hc
  segmentWindow w hw := hs.2.2.2.trans hw
  unbased _ := hs.2.2

lemma within_counting (hw : changesWorldState item = false)
    (hs : segment = { s.segment with countsAsUserTurn := s.segment.countsAsUserTurn || countsAsUser p item }) :
    Within p [item] s (s.withSegment segment) := by
  subst hs
  exact ⟨rfl, rfl, rfl, rfl, by simp [hw, Scan.withSegment, Scan.segment],
    by simp [Scan.withSegment, Scan.segment], fun _ h => h, fun _ h => h, fun _ => ⟨rfl, rfl⟩⟩

lemma within_turnAborted (turnId : Option Text) :
    Within p [.turnAborted turnId] s (scanTurnAborted s turnId) := by
  unfold scanTurnAborted
  cases hs : s.activeSegment with
  | some segment => exact within_quiet rfl rfl rfl ⟨rfl, rfl, rfl⟩ (by simp [Scan.segment, hs, Scan.withSegment])
  | none =>
    cases turnId with
    | none => exact within_quiet rfl rfl rfl ⟨rfl, rfl, rfl⟩ ⟨rfl, rfl, rfl, rfl⟩
    | some turnId => exact within_quiet rfl rfl rfl ⟨rfl, rfl, rfl⟩ (by simp [Scan.segment, hs, Scan.withSegment])

lemma within_compacted (compacted : CompactedItem) (suffix : List (RolloutItem J)) :
    Within p [.compacted compacted] s (s.withSegment (scanCompacted p s.segment compacted suffix)) where
  checkpoint := rfl
  window := rfl
  worldState := rfl
  pending := rfl
  segmentWorldState := rfl
  counts := by simp [Scan.withSegment, Scan.segment, scanCompacted, countsAsUser]
  segmentCheckpoint c hc := by
    show s.segment.historyCheckpoint.or _ = some c
    rw [hc]
    rfl
  segmentWindow w hw := by
    show s.segment.window.or _ = some w
    rw [hw]
    rfl
  unbased h := by simp [isCompacted] at h

lemma within_turnContext (context : TurnContextItem) :
    Within p [.turnContext context] s (s.withSegment (scanTurnContext s.segment context)) := by
  refine within_quiet rfl rfl rfl ⟨rfl, rfl, rfl⟩ ?_
  unfold Scan.withSegment Scan.segment scanTurnContext
  dsimp only [getD_some]
  split <;> exact ⟨rfl, rfl, rfl, rfl⟩

lemma within_scanItem (h : InTurn id item) (preceding : Option Text) (suffix : List (RolloutItem J)) :
    Within p [item] s (scanItem p preceding suffix s item) := by
  cases item with
  | turnStarted other | threadRolledBack n => simp [InTurn] at h
  | turnContext context => exact within_turnContext context
  | turnComplete turnId =>
    simp only [scanItem]
    split <;> exact within_quiet rfl rfl rfl ⟨rfl, rfl, rfl⟩ ⟨rfl, rfl, rfl, rfl⟩
  | turnAborted turnId =>
    simp only [scanItem]
    split
    · exact within_turnAborted turnId
    · exact within_quiet rfl rfl rfl ⟨rfl, rfl, rfl⟩ ⟨rfl, rfl, rfl, rfl⟩
  | sessionMeta windowId
  | retainedContext event | other => exact within_quiet rfl rfl rfl ⟨rfl, rfl, rfl⟩ ⟨rfl, rfl, rfl, rfl⟩
  | responseItem envelope => exact within_counting rfl rfl
  | interAgentCommunication input | userMessage text => exact within_counting rfl (by simp [countsAsUser])
  | compacted compacted => exact within_compacted compacted suffix
  | worldState full state =>
    exact ⟨rfl, rfl, rfl, rfl, rfl, by simp [scanItem, Scan.withSegment, Scan.segment, countsAsUser],
      fun _ h => h, fun _ h => h, fun _ => ⟨rfl, rfl⟩⟩

lemma within_scanWith (preceding : Option Text) (h : ∀ item ∈ items, InTurn id item) :
    Within p items s (scanWith p preceding items suffix s) := by
  induction items generalizing suffix s with
  | nil => exact Within.refl s
  | cons item items ih =>
    exact (within_scanItem (h item mem_cons_self) preceding suffix).trans
      (ih fun item hi => h item (mem_cons_of_mem _ hi))

/-! ## To the start of a turn -/

def OwnTurn (id : Text) (s : Scan J) : Prop := s.segment.turnId = none ∨ s.segment.turnId = some id

lemma or_turnId (h : other = none ∨ other = some id)
    (hc : current = none ∨ current = some id) : current.or other = none ∨ current.or other = some id := by
  rcases hc with rfl | rfl
  · exact h
  · exact .inr rfl

lemma turnId_of_compatible (h : turnIdsAreCompatible (some id) other) :
    other = none ∨ other = some id := by
  rcases other with _ | other
  · exact .inl rfl
  simp only [turnIdsAreCompatible, all_some, decide_eq_true_eq] at h
  exact .inr (by rw [h])

lemma ownTurn_turnAborted (h : turnId = none ∨ turnId = some id) (hs : OwnTurn id s) :
    OwnTurn id (scanTurnAborted s turnId) := by
  unfold scanTurnAborted
  cases ha : s.activeSegment with
  | some segment =>
    rw [OwnTurn, Scan.segment, ha, getD_some] at hs
    exact or_turnId h hs
  | none =>
    cases turnId with
    | none => exact hs
    | some turnId => exact h

lemma ownTurn_scanItem (h : InTurn id item) (suffix : List (RolloutItem J)) (hs : OwnTurn id s) :
    OwnTurn id (scanItem p (some id) suffix s item) := by
  cases item with
  | turnStarted other | threadRolledBack n => simp [InTurn] at h
  | turnContext context =>
    have hor := or_turnId h hs
    unfold OwnTurn scanItem Scan.withSegment Scan.segment scanTurnContext at *
    dsimp only [getD_some]
    split <;> exact hor
  | turnComplete turnId =>
    simp only [scanItem]
    split
    · rename_i hc
      exact or_turnId (turnId_of_compatible hc) hs
    · exact hs
  | turnAborted turnId =>
    simp only [scanItem]
    split
    · rename_i hc
      exact ownTurn_turnAborted (turnId_of_compatible hc) hs
    · exact hs
  | sessionMeta windowId | retainedContext event | other | responseItem envelope => exact hs
  | interAgentCommunication input | compacted compacted | worldState full state | userMessage text => exact hs

lemma ownTurn_scanWith (h : ∀ item ∈ items, InTurn id item) (hs : OwnTurn id s) :
    OwnTurn id (scanWith p (some id) items suffix s) := by
  induction items generalizing suffix s with
  | nil => exact hs
  | cons item items ih =>
    exact ih (fun item hi => h item (mem_cons_of_mem _ hi))
      (ownTurn_scanItem (h item mem_cons_self) suffix hs)

structure Ended (s s' : Scan J) : Prop where
  active : s'.activeSegment = none
  pending : s'.pendingRollbackTurns =
    if s.segment.countsAsUserTurn then s.pendingRollbackTurns - 1 else s.pendingRollbackTurns
  worldState : s'.worldStateReplay =
    s.worldStateReplay ++ if s.pendingRollbackTurns = 0 then s.segment.worldStateReplay else []
  checkpoint : s.pendingRollbackTurns = 0 →
    s'.historyCheckpoint = s.historyCheckpoint.or s.segment.historyCheckpoint
  window : s.pendingRollbackTurns = 0 → s'.window = s.window.or s.segment.window
  unbased : s.segment.historyCheckpoint = none → s.segment.window = none →
    s'.historyCheckpoint = s.historyCheckpoint ∧ s'.window = s.window

lemma ended_finalize
    (h : segment.countsAsUserTurn = s.segment.countsAsUserTurn ∧ segment.worldStateReplay =
      s.segment.worldStateReplay ∧ segment.historyCheckpoint = s.segment.historyCheckpoint ∧ segment.window =
        s.segment.window) :
    Ended s (finalizeActiveSegment s segment) := by
  obtain ⟨hco, hwo, hch, hwi⟩ := h
  unfold finalizeActiveSegment
  rw [hco, hwo, hch, hwi]
  split
  · rename_i hp
    exact ⟨rfl, rfl, by simp [Nat.pos_iff_ne_zero.mp hp], fun h => by omega, fun h => by omega,
      fun _ _ => ⟨rfl, rfl⟩⟩
  rename_i hp
  refine ⟨rfl, ?_, ?_, fun _ => rfl, fun _ => rfl, fun hc hw => ?_⟩
  · show s.pendingRollbackTurns = _
    split
    · omega
    · rfl
  · simp [Nat.eq_zero_of_not_pos hp]
  · simp [hc, hw]

lemma ended_scanTurnStarted (h : OwnTurn id s) : Ended s (scanTurnStarted s id) := by
  unfold scanTurnStarted
  rcases ha : s.activeSegment with _ | segment
  · have hs : s.segment = {} := by rw [Scan.segment, ha, getD_none]
    constructor
    · exact ha
    all_goals simp [hs]
  have hs : s.segment = segment := by rw [Scan.segment, ha, getD_some]
  have hc : turnIdsAreCompatible segment.turnId (some id) := by
    rw [OwnTurn, hs] at h
    rcases h with h | h <;> simp [h, turnIdsAreCompatible]
  simp only [hc]
  exact ended_finalize (by simp [hs])

/-! ## Turns after the compaction -/

/-- A turn without a compaction; ends of other turns may come late, within it. -/
structure LaterTurn (J : Type) where
  id : Text
  body : List (RolloutItem J)
  inTurn : ∀ item ∈ body, InTurn id item
  unbased : body.any isCompacted = false

def LaterTurn.recorded (turn : LaterTurn J) : List (RolloutItem J) := .turnStarted turn.id :: turn.body

def laterEntry : Entry (LaterTurn J) → List (RolloutItem J)
  | .push turn => turn.recorded
  | .undo n => [.threadRolledBack n]

def laterItems (log : List (Entry (LaterTurn J))) : List (RolloutItem J) := log.flatMap laterEntry

def counted (p : Replay J W) : Entry (LaterTurn J) → Bool
  | .push turn => turn.body.any (countsAsUser p)
  | .undo _ => true

def scanLog (p : Replay J W) : List (Entry (LaterTurn J)) → List (RolloutItem J) → Scan J → Scan J
  | [], _, s => s
  | .undo n :: rest, suffix, s =>
    scanLog p rest (.threadRolledBack n :: suffix) { s with pendingRollbackTurns := s.pendingRollbackTurns + n }
  | .push turn :: rest, suffix, s =>
    scanLog p rest (turn.recorded ++ suffix)
      (scanTurnStarted (scanWith p (some turn.id) turn.body.reverse suffix s) turn.id)

def laterWorld (p : Replay J W) : List (Entry (LaterTurn J)) → Nat → List (RolloutItem J)
  | [], _ => []
  | .undo n :: rest, pending => laterWorld p rest (pending + n)
  | .push turn :: rest, pending =>
    (if pending = 0 then turn.body.reverse.filter changesWorldState else []) ++
      laterWorld p rest (if turn.body.any (countsAsUser p) then pending - 1 else pending)

lemma laterItems_concat (log : List (Entry (LaterTurn J))) (entry : Entry (LaterTurn J)) :
    laterItems (log ++ [entry]) = laterItems log ++ laterEntry entry := by
  unfold laterItems
  rw [flatMap_append, flatMap_singleton]

lemma LaterTurn.inTurn_reverse (turn : LaterTurn J) : ∀ item ∈ turn.body.reverse, InTurn turn.id item :=
  fun item hi => turn.inTurn item (mem_reverse.mp hi)

lemma scanItems_later (log : List (Entry (LaterTurn J))) :
    scanItems p checkpointTurnId ((laterItems log).reverse ++ older) suffix s =
      scanItems p checkpointTurnId older (laterItems log ++ suffix) (scanLog p log.reverse suffix s) := by
  induction log using reverseRecOn generalizing suffix s with
  | nil => rfl
  | append_singleton log entry ih => ?_
  rw [laterItems_concat, reverse_append, reverse_append, append_assoc, append_assoc]
  cases entry with
  | undo n => ?_
  | push turn =>
    rw [laterEntry, LaterTurn.recorded, reverse_cons, append_assoc, singleton_append,
      scanItems_turn turn.inTurn_reverse, ih, reverse_reverse]
    rfl
  show scanItems p checkpointTurnId ((laterItems log).reverse ++ older) (.threadRolledBack n :: suffix)
    { s with pendingRollbackTurns := s.pendingRollbackTurns + n } = _
  rw [ih]
  rfl

structure Passed (p : Replay J W) (log : List (Entry (LaterTurn J))) (s s' : Scan J) : Prop where
  active : s'.activeSegment = none
  pending : s'.pendingRollbackTurns = remaining (log.filter (counted p)) s.pendingRollbackTurns
  worldState : s'.worldStateReplay = s.worldStateReplay ++ laterWorld p log s.pendingRollbackTurns
  checkpoint : s'.historyCheckpoint = s.historyCheckpoint
  window : s'.window = s.window

lemma segment_of_inactive (h : s.activeSegment = none) : s.segment = {} := by
  rw [Scan.segment, h, getD_none]

lemma ownTurn_of_inactive (h : s.activeSegment = none) : OwnTurn id s := by
  rw [OwnTurn, segment_of_inactive h]
  exact .inl rfl

lemma passed_turn (turn : LaterTurn J) (h : s.activeSegment = none) :
    Passed p [.push turn] s (scanTurnStarted (scanWith p (some turn.id) turn.body.reverse suffix s) turn.id) := by
  have hw := @within_scanWith J W p s turn.id _ suffix (some turn.id) turn.inTurn_reverse
  have he := ended_scanTurnStarted
    (@ownTurn_scanWith J W p s turn.id _ suffix turn.inTurn_reverse (ownTurn_of_inactive h))
  have hs := segment_of_inactive h
  have hu := hw.unbased (by rw [any_reverse]; exact turn.unbased)
  have hc := hw.counts
  have hwo := hw.segmentWorldState
  rw [hs] at hu hc hwo
  have hb := he.unbased hu.1 hu.2
  refine ⟨he.active, ?_, ?_, hb.1.trans hw.checkpoint, hb.2.trans hw.window⟩
  · rw [he.pending, hc, hw.pending, any_reverse, Bool.false_or, filter_cons]
    show _ = remaining (if turn.body.any (countsAsUser p) then _ else _) _
    split <;> rfl
  · rw [he.worldState, hw.worldState, hw.pending, hwo]
    simp [laterWorld]

lemma passed_scanLog (h : s.activeSegment = none) :
    Passed p log s (scanLog p log suffix s) := by
  induction log generalizing suffix s with
  | nil => exact ⟨h, rfl, by simp [scanLog, laterWorld], rfl, rfl⟩
  | cons entry log ih => ?_
  cases entry with
  | undo n =>
    have hp := @ih { s with pendingRollbackTurns := s.pendingRollbackTurns + n }
      (.threadRolledBack n :: suffix) h
    exact ⟨hp.active, hp.pending, hp.worldState, hp.checkpoint, hp.window⟩
  | push turn => ?_
  have ht := @passed_turn J W p s suffix turn h
  have hp := @ih _ (turn.recorded ++ suffix) ht.active
  refine ⟨hp.active, ?_, ?_, hp.checkpoint.trans ht.checkpoint,
    hp.window.trans ht.window⟩
  · rw [scanLog, hp.pending, ht.pending, filter_cons, filter_cons]
    split <;> rfl
  have hpe := ht.pending
  have hw := ht.worldState
  rw [scanLog, hp.worldState, hw, hpe, append_assoc]
  rw [laterWorld, laterWorld, laterWorld, append_nil]
  cases hc : turn.body.any (countsAsUser p) <;> simp [counted, hc, remaining]

end Codex.Rollout
