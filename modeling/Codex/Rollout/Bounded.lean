import Codex.Rollout.Segments

/-! # Replay from the newest compaction equals that from the start, if rollbacks stay after it -/

namespace Codex.Rollout

open Codex.Text Codex.History Codex.Undo List Option

variable {J W : Type} {p : Replay J W} {s : Scan J} {items older suffix : List (RolloutItem J)}

lemma selectInputCompaction_newest (h : suffix.any isCompacted = false) :
    selectInputCompaction mode (older ++ .compacted c :: suffix) =
      if c.replacementHistory.isNone || c.windowNumber.isNone || (c.resumeMetadata.isNone && mode ≠ .paginated) then
        none
      else some ⟨c, suffix⟩ := by
  induction older with
  | nil =>
    rw [nil_append, selectInputCompaction, h]
    rfl
  | cons item older ih =>
    unfold selectInputCompaction
    rw [← ih, cons_append]
    simp [isCompacted]

lemma scanWith_append {later : List (RolloutItem J)} :
    scanWith p preceding (later ++ items) suffix s =
      scanWith p preceding items (later.reverse ++ suffix) (scanWith p preceding later suffix s) := by
  induction later generalizing suffix s with
  | nil => rfl
  | cons item later ih =>
    rw [cons_append, scanWith, ih, scanWith, reverse_cons, append_assoc]
    rfl

lemma any_isCompacted_laterItems (log : List (Entry (LaterTurn J))) :
    (laterItems log).any isCompacted = false := by
  rw [laterItems, any_flatMap, List.any_eq_false]
  intro entry _
  cases entry with
  | push turn => simp [laterEntry, LaterTurn.recorded, isCompacted, turn.unbased]
  | undo n => simp [laterEntry, isCompacted]

lemma foldl_worldStateStep_compacted (newer more : List (RolloutItem J)) (c : CompactedItem) (baseline : Option W) :
    (newer ++ .compacted c :: more).reverse.foldl (worldStateStep p) baseline =
      newer.reverse.foldl (worldStateStep p) none := by
  rw [reverse_append, reverse_cons, append_assoc, foldl_append, foldl_append]
  rfl

lemma finish_worldState (h : s.pendingRollbackTurns = 0) :
    (finishScan none none s).worldStateReplay = s.worldStateReplay ++ s.segment.worldStateReplay := by
  unfold finishScan
  rcases ha : s.activeSegment with _ | segment
  · simp [segment_of_inactive ha]
  have hs : s.segment = segment := by rw [Scan.segment, ha, getD_some]
  have he : Ended s (finalizeActiveSegment s segment) := ended_finalize (by simp [hs])
  simpa [h] using he.worldState

/-! ## Both replays -/

structure Bounded (J : Type) where
  older : List (RolloutItem J)
  id : Text
  before : List (RolloutItem J)
  compaction : CompactedItem
  after : List (RolloutItem J)
  log : List (Entry (LaterTurn J))
  inTurn_before : ∀ item ∈ before, InTurn id item
  inTurn_after : ∀ item ∈ after, InTurn id item
  newest : after.any isCompacted = false

namespace Bounded

variable (r : Bounded J)

def following : List (RolloutItem J) := r.after ++ laterItems r.log

def rollout : List (RolloutItem J) :=
  (r.older ++ .turnStarted r.id :: r.before) ++ .compacted r.compaction :: r.following

/-- Rollbacks take back later turns only. -/
def RollsBackLater (p : Replay J W) : Prop := Covered (r.log.filter (counted p))

lemma any_isCompacted_following : r.following.any isCompacted = false := by
  rw [following, any_append, r.newest, any_isCompacted_laterItems]
  rfl

def worldAfter (p : Replay J W) : List (RolloutItem J) :=
  laterWorld p r.log.reverse 0 ++ r.after.reverse.filter changesWorldState

structure Found (p : Replay J W) (s : Scan J) : Prop where
  checkpoint : s.historyCheckpoint = some ⟨r.compaction, r.following⟩
  window : s.window = windowFromCompaction p r.compaction
  worldState : s.worldStateReplay.reverse.foldl (worldStateStep p) none =
    (r.worldAfter p).reverse.foldl (worldStateStep p) none

variable {r}

lemma remaining_log (h : r.RollsBackLater p) : remaining (r.log.reverse.filter (counted p)) 0 = 0 := by
  rw [filter_reverse, remaining_reverse h, Nat.zero_sub]

lemma inTurn_after_reverse : ∀ item ∈ r.after.reverse, InTurn r.id item :=
  fun item hi => r.inTurn_after item (mem_reverse.mp hi)

lemma inTurn_before_reverse : ∀ item ∈ r.before.reverse, InTurn r.id item :=
  fun item hi => r.inTurn_before item (mem_reverse.mp hi)

lemma inTurn_reverse : ∀ item ∈ r.after.reverse ++ .compacted r.compaction :: r.before.reverse, InTurn r.id item := by
  intro item hi
  rcases mem_append.mp hi with hi | hi
  · exact inTurn_after_reverse item hi
  rcases mem_cons.mp hi with rfl | hi
  · trivial
  · exact inTurn_before_reverse item hi

variable {w : Window}

lemma found_bounded (h : r.RollsBackLater p)
    (hstart : start = { historyCheckpoint := some ⟨r.compaction, r.following⟩
                        window := windowFromCompaction p r.compaction })
    (hw : windowFromCompaction p r.compaction = some w) :
    Found r p (finishScan none none (scanItems p none r.following.reverse [] start)) := by
  have hpassed : Passed p r.log.reverse start (scanLog p r.log.reverse [] start) :=
    passed_scanLog (by rw [hstart])
  have hscan : scanItems p none r.following.reverse [] start =
      scanWith p none r.after.reverse (laterItems r.log ++ []) (scanLog p r.log.reverse [] start) := by
    rw [following, reverse_append, scanItems_later, scanItems_unstarted inTurn_after_reverse]
  rw [hscan]
  generalize hs : scanLog p r.log.reverse [] start = s at hpassed
  have hwithin : Within p r.after.reverse s (scanWith p none r.after.reverse (laterItems r.log ++ []) s) :=
    within_scanWith none inTurn_after_reverse
  generalize scanWith p none r.after.reverse (laterItems r.log ++ []) s = s' at hwithin
  have hfinish := @extends_finish J none none s'
  have hpending : s'.pendingRollbackTurns = 0 := by
    rw [hwithin.pending, hpassed.pending, hstart, remaining_log h]
  refine ⟨hfinish.checkpoint _ ?_, ?_, ?_⟩
  · rw [hwithin.checkpoint, hpassed.checkpoint, hstart]
  · rw [hw]
    refine hfinish.window w ?_
    rw [hwithin.window, hpassed.window, hstart, hw]
  · rw [finish_worldState hpending, hwithin.worldState, hwithin.segmentWorldState, hpassed.worldState,
      segment_of_inactive hpassed.active, hstart]
    rfl

def scanTurn (p : Replay J W) (r : Bounded J) (s : Scan J) : Scan J :=
  scanWith p (some r.id) (r.after.reverse ++ .compacted r.compaction :: r.before.reverse) (laterItems r.log) s

lemma scanTurn_eq : r.scanTurn p s =
    scanWith p (some r.id) r.before.reverse (.compacted r.compaction :: r.following)
      (scanItem p (some r.id) r.following (scanWith p (some r.id) r.after.reverse (laterItems r.log) s)
        (.compacted r.compaction)) := by
  rw [scanTurn, scanWith_append, reverse_reverse, scanWith]
  rfl

lemma segment_scanTurn (hac : s.activeSegment = none)
    (hr : r.compaction.replacementHistory.isSome) {w : Window}
    (hw : windowFromCompaction p r.compaction = some w) :
    (r.scanTurn p s).segment.historyCheckpoint = some ⟨r.compaction, r.following⟩ ∧
      (r.scanTurn p s).segment.window = some w := by
  rw [scanTurn_eq]
  have ha : Within p r.after.reverse s (scanWith p (some r.id) r.after.reverse (laterItems r.log) s) :=
    within_scanWith (some r.id) inTurn_after_reverse
  generalize scanWith p (some r.id) r.after.reverse (laterItems r.log) s = sAfter at ha ⊢
  have hu := ha.unbased (by rw [any_reverse]; exact r.newest)
  rw [segment_of_inactive hac] at hu
  have hb := @within_scanWith J W p (scanItem p (some r.id) r.following sAfter (.compacted r.compaction)) r.id _
    (.compacted r.compaction :: r.following) (some r.id) (@inTurn_before_reverse J r)
  refine ⟨hb.segmentCheckpoint _ ?_, hb.segmentWindow _ ?_⟩
  · show sAfter.segment.historyCheckpoint.or _ = _
    rw [hu.1, hr]
    rfl
  show sAfter.segment.window.or _ = _
  rw [hu.2, hw]
  rfl

lemma scanTurnStarted_scanTurn (ha : s.activeSegment = none) (hp : s.pendingRollbackTurns = 0)
    (hc : s.historyCheckpoint = none) (hwin : s.window = none)
    (hr : r.compaction.replacementHistory.isSome)
    (hw : windowFromCompaction p r.compaction = some w) (hs' : s' = scanTurnStarted (r.scanTurn p s) r.id) :
    s'.historyCheckpoint = some ⟨r.compaction, r.following⟩ ∧ s'.window = some w ∧
      ∃ more, s'.worldStateReplay =
        s.worldStateReplay ++ (r.after.reverse.filter changesWorldState ++ .compacted r.compaction :: more) := by
  have hwi : Within p _ s (r.scanTurn p s) := within_scanWith (some r.id) inTurn_reverse
  have he : Ended (r.scanTurn p s) s' := by
    rw [hs']
    exact ended_scanTurnStarted (ownTurn_scanWith inTurn_reverse (ownTurn_of_inactive ha))
  have hz : (r.scanTurn p s).pendingRollbackTurns = 0 := hwi.pending.trans hp
  obtain ⟨hb, hn⟩ := @segment_scanTurn J W p s r ha hr w hw
  refine ⟨?_, ?_, r.before.reverse.filter changesWorldState, ?_⟩
  · rw [he.checkpoint hz, hwi.checkpoint, hc, hb]
    rfl
  · rw [he.window hz, hwi.window, hwin, hn]
    rfl
  · rw [he.worldState, if_pos hz, hwi.worldState, hwi.segmentWorldState, segment_of_inactive ha,
      filter_append]
    rfl

lemma found_full (h : r.RollsBackLater p) (hr : r.compaction.replacementHistory.isSome)
    (hw : windowFromCompaction p r.compaction = some w) :
    Found r p (finishScan none none (scanItems p none r.rollout.reverse [] {})) := by
  have hp : Passed p r.log.reverse ({} : Scan J) (scanLog p r.log.reverse [] {}) := passed_scanLog rfl
  have hs : scanItems p none r.rollout.reverse [] {} =
      scanItems p none r.older.reverse (.turnStarted r.id :: (r.before ++ .compacted r.compaction :: r.following))
        (scanTurnStarted (r.scanTurn p (scanLog p r.log.reverse [] {})) r.id) := by
    have hre : r.rollout.reverse = (laterItems r.log).reverse ++
        ((r.after.reverse ++ .compacted r.compaction :: r.before.reverse) ++ .turnStarted r.id :: r.older.reverse) := by
      simp [rollout, following]
    rw [hre, scanItems_later, scanItems_turn inTurn_reverse]
    simp [scanTurn, following]
  rw [hs]
  generalize scanLog p r.log.reverse [] {} = s at hp
  have hz : s.pendingRollbackTurns = 0 := by rw [hp.pending, remaining_log h]
  obtain ⟨hc, hwi, more, hwo⟩ := scanTurnStarted_scanTurn hp.active hz hp.checkpoint
    hp.window hr hw rfl
  generalize scanTurnStarted (r.scanTurn p s) r.id = s' at hc hwi hwo
  have he := (@extends_scanItems J W p none r.older.reverse
    (.turnStarted r.id :: (r.before ++ .compacted r.compaction :: r.following)) s').trans
    (@extends_finish J none none _)
  obtain ⟨older, holder⟩ := he.worldState
  refine ⟨he.checkpoint _ hc, ?_, ?_⟩
  · rw [hw]
    exact he.window w hwi
  have ha : s'.worldStateReplay ++ older = r.worldAfter p ++ .compacted r.compaction :: (more ++ older) := by
    rw [hwo, hp.worldState, worldAfter]
    simp
  rw [holder, ha, foldl_worldStateStep_compacted]

end Bounded

/-- A replay of what follows the newest compaction and a replay of everything agree, whatever came before it. -/
theorem bounded_replay_eq_full (p : Replay J W) (r : Bounded J) (history : ContextManager)
    (hreplacement : r.compaction.replacementHistory.isSome = true) (hnumber : r.compaction.windowNumber.isSome = true)
    (hresume : r.compaction.resumeMetadata = none) (hrollbacks : r.RollsBackLater p) :
    (reconstructRollout p r.rollout .paginated history).history =
        (reconstructRollout p r.rollout .legacy history).history ∧
      (reconstructRollout p r.rollout .paginated history).window =
        (reconstructRollout p r.rollout .legacy history).window ∧
      (reconstructRollout p r.rollout .paginated history).worldStateBaseline =
        (reconstructRollout p r.rollout .legacy history).worldStateBaseline := by
  obtain ⟨_, hnumber⟩ := isSome_iff_exists.mp hnumber
  obtain ⟨_, hreplaced⟩ := isSome_iff_exists.mp hreplacement
  have hpaginated : selectInputCompaction .paginated r.rollout = some ⟨r.compaction, r.following⟩ := by
    rw [Bounded.rollout, selectInputCompaction_newest r.any_isCompacted_following, hreplaced, hnumber]
    simp
  have hlegacy : selectInputCompaction .legacy r.rollout = none := by
    rw [Bounded.rollout, selectInputCompaction_newest r.any_isCompacted_following, hresume]
    simp
  obtain ⟨w, hw⟩ : ∃ w, windowFromCompaction p r.compaction = some w := by
    rw [windowFromCompaction, hnumber]
    exact ⟨_, rfl⟩
  have hbounded := Bounded.found_bounded hrollbacks rfl hw
  have hfull := Bounded.found_full hrollbacks hreplacement hw
  simp only [reconstructRollout, hpaginated, hlegacy, map_some, getD_some, bind_some, hresume,
    bind_none, map_none, getD_none]
  rw [hbounded.checkpoint, hfull.checkpoint, hbounded.window, hfull.window, hbounded.worldState, hfull.worldState]
  exact ⟨rfl, rfl, rfl⟩

def messageTurn (id text : String) : LaterTurn Unit where
  id := id.toList
  body := [.responseItem (.new (userText text)), .worldState true (), .turnComplete id.toList]
  inTurn item hitem := by
    simp only [mem_cons, not_mem_nil, or_false] at hitem
    rcases hitem with rfl | rfl | rfl <;> trivial
  unbased := rfl

def compactedTurn : Bounded Unit where
  older := [.sessionMeta (some "0".toList), .worldState true ()]
  id := "a".toList
  before := [.responseItem (.new (userText "one"))]
  compaction := ⟨"sum".toList, some [.new (userText "sum")], none, none, some 1, none, none, some "1".toList, none⟩
  after := [.worldState true ()]
  log := [.push (messageTurn "b" "two"), .push (messageTurn "c" "three"), .undo 1]
  inTurn_before item hitem := by
    rw [mem_singleton.mp hitem]
    trivial
  inTurn_after item hitem := by
    rw [mem_singleton.mp hitem]
    trivial
  newest := rfl

theorem compacted_turn_replayed :
    (reconstructRollout plainReplay compactedTurn.rollout .paginated emptyHistory).history =
        (reconstructRollout plainReplay compactedTurn.rollout .legacy emptyHistory).history ∧
      (reconstructRollout plainReplay compactedTurn.rollout .paginated emptyHistory).window =
        (reconstructRollout plainReplay compactedTurn.rollout .legacy emptyHistory).window ∧
      (reconstructRollout plainReplay compactedTurn.rollout .paginated emptyHistory).worldStateBaseline =
        (reconstructRollout plainReplay compactedTurn.rollout .legacy emptyHistory).worldStateBaseline := by
  refine bounded_replay_eq_full plainReplay compactedTurn emptyHistory rfl rfl rfl ?_
  have hc : Covered [Entry.push (messageTurn "b" "two"), .push (messageTurn "c" "three"), .undo 1] :=
    ((covered_nil.push _).push _).undo (by decide)
  exact hc

end Codex.Rollout
