import Codex.ThreadHistory.Paginated

/-!
# Stored history against the live view

The store does not see errors, so that a turn which ends without one forgets those it had.
-/

namespace Codex.ThreadHistory

open Codex.Entries List ThreadHistoryBuilder PendingTurn

variable {Body Error : Type}

/-! ## The log -/

structure Turn (Body Error : Type) where
  id : Text
  seen : Option Error
  ended : Option (Bool × Ending Error)
  completions : List (ThreadItemPayload Body)

namespace Turn

def liveMetadata (t : Turn Body Error) : TurnMetadata Error :=
  match t.ended with
  | none => ⟨t.id, if t.seen.isSome then .failed else .inProgress, t.seen, none, none⟩
  | some (aborted, ending) =>
    ⟨t.id, if aborted then .interrupted else if ending.error.isSome || t.seen.isSome then .failed else .completed,
      ending.error.or t.seen, ending.completedAt, ending.durationMs⟩

def live (t : Turn Body Error) : PendingTurn Body Error :=
  ⟨t.liveMetadata, (t.completions.filter (·.shown)).foldl upsert []⟩

def row (t : Turn Body Error) : TurnMetadata Error :=
  match t.ended with
  | none => started t.id
  | some (aborted, ending) =>
    ⟨t.id, if aborted then .interrupted else if ending.error.isSome then .failed else .completed, ending.error,
      ending.completedAt, ending.durationMs⟩

def step (t : Turn Body Error) : Event Body Error → Turn Body Error
  | .turnStarted _ => t
  | .itemCompleted turnId item => if t.id = turnId then { t with completions := t.completions ++ [item] } else t
  | .error payload => if t.ended.isNone && payload.affectsTurnStatus then { t with seen := some payload.error } else t
  | .turnComplete turnId ending => if t.id = turnId then { t with ended := some (false, ending) } else t
  | .turnAborted turnId ending => if some t.id = turnId then { t with ended := some (true, ending) } else t

end Turn

open Turn

def opens : Event Body Error → List (Turn Body Error)
  | .turnStarted turnId => [⟨turnId, none, none, []⟩]
  | _ => []

def logStep (log : List (Turn Body Error)) (event : Event Body Error) : List (Turn Body Error) :=
  log.map (·.step event) ++ opens event

def Fits (log : List (Turn Body Error)) : Event Body Error → Prop
  | .turnStarted turnId => ∀ t ∈ log, t.ended ≠ none ∧ t.id ≠ turnId
  | .itemCompleted turnId _ => ∃ t ∈ log, t.id = turnId
  | .error _ => ∃ t ∈ log, t.ended = none
  | .turnComplete turnId _ => ∃ t ∈ log, t.ended = none ∧ t.id = turnId
  | .turnAborted turnId _ => ∃ t ∈ log, t.ended = none ∧ some t.id = turnId

/-- Events that fit, and the turns they tell. -/
inductive Runs : List (Event Body Error) → List (Turn Body Error) → Prop
  | nil : Runs [] []
  | step {events : List (Event Body Error)} {log : List (Turn Body Error)} {event : Event Body Error} :
      Runs events log → Fits log event → Runs (events ++ [event]) (logStep log event)

variable {events : List (Event Body Error)} {log pre : List (Turn Body Error)} {event : Event Body Error}
  {t u : Turn Body Error} {b : ThreadHistoryBuilder Body Error} {s : Store Body Error} {turnId : Text}
  {item : ThreadItemPayload Body} {ending : Ending Error}

@[simp] lemma Turn.id_step (t : Turn Body Error) (event : Event Body Error) : (t.step event).id = t.id := by
  cases event <;> simp only [Turn.step] <;> split <;> rfl

lemma Turn.live_id (t : Turn Body Error) : t.live.metadata.turnId = t.id := by
  simp only [Turn.live, liveMetadata]
  split <;> rfl

lemma Runs.nodup (h : Runs events log) :
    (log.map (·.id)).Nodup := by
  induction h with
  | nil => exact nodup_nil
  | @step _ log event _ hf ih => ?_
  have hm : (log.map (·.step event)).map (·.id) = log.map (·.id) := by simp [Function.comp_def]
  rw [logStep, map_append, hm]
  cases event with
  | turnStarted turnId =>
    refine nodup_append.mpr ⟨ih, nodup_singleton _, fun a ha b hb heq => ?_⟩
    obtain ⟨t, ht, rfl⟩ := mem_map.mp ha
    exact (hf t ht).2 (heq.trans (mem_singleton.mp hb))
  | _ => simpa [opens] using ih

def Turn.Apart (t : Turn Body Error) : Event Body Error → Prop
  | .turnStarted _ => True
  | .itemCompleted turnId _ => t.id ≠ turnId
  | .error _ => t.ended ≠ none
  | .turnComplete turnId _ => t.id ≠ turnId
  | .turnAborted turnId _ => some t.id ≠ turnId

lemma Turn.step_of_apart (event : Event Body Error) (h : t.Apart event) : t.step event = t := by
  cases event with
  | turnStarted _ => rfl
  | error payload => exact if_neg (by simpa [Option.isNone_iff_eq_none] using fun h' => absurd h' h)
  | _ => exact if_neg h

lemma map_step_of_apart (event : Event Body Error) (h : ∀ t ∈ log, t.Apart event) :
    log.map (·.step event) = log :=
  (map_congr_left fun t ht => step_of_apart event (h t ht)).trans (map_id log)

/-! ## The builder follows the log -/

/-- The builder has the turns told so far. -/
inductive Follows (log : List (Turn Body Error)) : ThreadHistoryBuilder Body Error → Prop
  | closed : (∀ t ∈ log, t.ended ≠ none) → Follows log ⟨log.map Turn.live, none⟩
  | current {before : List (Turn Body Error)} {t : Turn Body Error} (hlog : log = before ++ [t])
      (hended : ∀ u ∈ before, u.ended ≠ none) : Follows log ⟨before.map Turn.live, some t.live⟩

lemma modifyTurn_map (hn : (log.map (·.id)).Nodup) :
    modifyTurn turnId f (log.map Turn.live) = log.map fun t => if t.id = turnId then f t.live else t.live := by
  induction log with
  | nil => rfl
  | cons t log ih => ?_
  obtain ⟨hno, hn⟩ := nodup_cons.mp hn
  simp only [map_cons, modifyTurn, live_id]
  split
  · rename_i heq
    refine congrArg₂ List.cons rfl (map_congr_left fun u hu => (if_neg ?_).symm)
    rintro rfl
    exact hno (mem_map.mpr ⟨u, hu, heq.symm⟩)
  · rw [ih hn]

lemma Turn.live_completed (t : Turn Body Error) (item : ThreadItemPayload Body) :
    ({ t with completions := t.completions ++ [item] } : Turn Body Error).live =
      if item.shown then t.live.upsertItem item else t.live := by
  unfold Turn.live
  cases hs : item.shown with
  | true =>
    rw [filter_append, filter_singleton, hs, foldl_append]
    rfl
  | false =>
    rw [filter_append, filter_singleton, hs, cond_false, append_nil]
    rfl

lemma id_ne_of_nodup (hn : ((pre ++ [t]).map (·.id)).Nodup) : ∀ u ∈ pre, u.id ≠ t.id := by
  intro u hu heq
  rw [map_append, nodup_append] at hn
  exact hn.2.2 _ (mem_map_of_mem hu) _ mem_cons_self heq

lemma isCurrent_live (turns : List (PendingTurn Body Error)) (t : Turn Body Error) (turnId : Text) :
    isCurrent ⟨turns, some t.live⟩ turnId = decide (t.id = turnId) := by
  unfold isCurrent
  rw [Option.any_some, live_id]

lemma ended_step (h : t.ended ≠ none) (event : Event Body Error) : (t.step event).ended ≠ none := by
  cases event with
  | turnStarted _ => exact h
  | itemCompleted _ _ | error _ =>
    simp only [Turn.step]
    split <;> exact h
  | turnComplete _ _ | turnAborted _ _ =>
    simp only [Turn.step]
    split
    · exact Option.some_ne_none _
    · exact h

lemma ended_map_step (h : ∀ t ∈ log, t.ended ≠ none) (event : Event Body Error) :
    ∀ t ∈ log.map (·.step event), t.ended ≠ none := by
  intro t ht
  obtain ⟨u, hu, rfl⟩ := mem_map.mp ht
  exact ended_step (h u hu) event

lemma live_completed_map (turnId : Text) (hs : item.shown) :
    (log.map fun t => if t.id = turnId then t.live.upsertItem item else t.live) =
      (log.map (·.step (.itemCompleted turnId item))).map Turn.live := by
  rw [map_map]
  refine map_congr_left fun t _ => ?_
  show _ = (t.step _).live
  simp only [Turn.step]
  split
  · rw [live_completed, if_pos hs]
  · rfl

lemma Turn.live_hidden (t : Turn Body Error) (turnId : Text) (hs : item.shown = false) :
    (t.step (.itemCompleted turnId item)).live = t.live := by
  simp only [Turn.step]
  split
  · rw [live_completed, hs]
    rfl
  · rfl

lemma Follows.of_live (h : Follows log b) (event : Event Body Error)
    (hl : ∀ t : Turn Body Error, (t.step event).live = t.live) : Follows (log.map (·.step event)) b := by
  have hm : ∀ log : List (Turn Body Error), log.map Turn.live = (log.map (·.step event)).map Turn.live := by
    intro log
    rw [map_map]
    exact map_congr_left fun t _ => (hl t).symm
  cases h with
  | closed he =>
    rw [hm]
    exact .closed (ended_map_step he event)
  | @current pre t heq he =>
    subst heq
    rw [hm, ← hl t, map_append, map_singleton]
    exact .current rfl (ended_map_step he event)

lemma Follows.complete (h : Follows log b) (hn : (log.map (·.id)).Nodup) (turnId : Text)
    (hs : item.shown) :
    Follows (log.map (·.step (.itemCompleted turnId item))) (b.turnMut turnId (upsertItem item)) := by
  cases h with
  | closed he =>
    have hb : turnMut ⟨log.map Turn.live, none⟩ turnId (upsertItem item) =
        ⟨(log.map (·.step (.itemCompleted turnId item))).map Turn.live, none⟩ := by
      rw [← live_completed_map turnId hs, ← modifyTurn_map hn]
      rfl
    rw [hb]
    exact .closed (ended_map_step he _)
  | @current pre t heq he =>
    subst heq
    have hbe := (nodup_append.mp (map_append ▸ hn)).1
    rw [map_append, map_singleton]
    have hb : turnMut ⟨pre.map Turn.live, some t.live⟩ turnId (upsertItem item) =
        ⟨(pre.map (·.step (.itemCompleted turnId item))).map Turn.live,
          some (t.step (.itemCompleted turnId item)).live⟩ := by
      unfold turnMut
      rw [isCurrent_live]
      by_cases hid : t.id = turnId
      · have hst : t.step (.itemCompleted turnId item) = { t with completions := t.completions ++ [item] } :=
          if_pos hid
        rw [if_pos (decide_eq_true hid), hst, live_completed, if_pos hs,
          map_step_of_apart (.itemCompleted turnId item) fun u hu => hid ▸ id_ne_of_nodup hn u hu]
        rfl
      · rw [if_neg (by simpa using hid), step_of_apart (.itemCompleted turnId item) hid,
          ← live_completed_map turnId hs, ← modifyTurn_map hbe]
    rw [hb]
    exact .current rfl (ended_map_step he _)

lemma logStep_of_opens (h : opens event = []) : logStep log event = log.map (·.step event) := by
  rw [logStep, h, append_nil]

lemma logStep_last (u : Turn Body Error) (ho : opens event = []) (h : ∀ v ∈ pre, v.Apart event) :
    logStep (pre ++ [u]) event = pre ++ [u.step event] := by
  rw [logStep_of_opens ho, map_append, map_step_of_apart event h, map_singleton]

lemma Follows.last_of_open (h : Follows log b) (hu : u ∈ log) (ho : u.ended = none) :
    ∃ pre, log = pre ++ [u] ∧ (∀ v ∈ pre, v.ended ≠ none) ∧ b = ⟨pre.map Turn.live, some u.live⟩ := by
  cases h with
  | closed he => exact absurd ho (he u hu)
  | @current pre t heq he => ?_
  subst heq
  rcases mem_append.mp hu with hu | hu
  · exact absurd ho (he u hu)
  · obtain rfl := mem_singleton.mp hu
    exact ⟨pre, rfl, he, rfl⟩

lemma Follows.step (h : Follows log b) (hn : (log.map (·.id)).Nodup) (hf : Fits log event) :
    Follows (logStep log event) (b.handleEvent event) := by
  cases event with
  | turnStarted turnId =>
    have hl : logStep log (.turnStarted turnId) = log ++ [⟨turnId, none, none, []⟩] := by
      unfold logStep
      rw [map_step_of_apart (.turnStarted turnId) fun _ _ => trivial]
      rfl
    have htu : b.turns ++ b.currentTurn.toList = log.map Turn.live := by
      cases h with
      | closed _ => exact append_nil _
      | current hl _ =>
        rw [hl, map_append]
        rfl
    have hb : b.handleEvent (.turnStarted turnId) =
        ⟨log.map Turn.live, some (Turn.live ⟨turnId, none, none, []⟩)⟩ := by
      rw [← htu]
      rfl
    rw [hb]
    exact .current hl fun t ht => (hf t ht).1
  | itemCompleted turnId item =>
    rw [logStep_of_opens rfl]
    simp only [handleEvent]
    cases hsh : item.shown with
    | false =>
      exact h.of_live _ fun t => live_hidden t turnId hsh
    | true =>
      exact h.complete hn turnId hsh
  | error payload =>
    obtain ⟨u, hu, ho⟩ := hf
    obtain ⟨pre, rfl, he, rfl⟩ := h.last_of_open hu ho
    have hb : handleEvent ⟨pre.map Turn.live, some u.live⟩ (.error payload) =
        ⟨pre.map Turn.live, some (u.step (.error payload)).live⟩ := by
      simp only [handleEvent, Turn.step, ho, Option.isNone_none, Bool.true_and]
      split
      · simp [PendingTurn.fail, Turn.live, liveMetadata, ho]
      · rfl
    rw [hb]
    exact .current (logStep_last u rfl he) he
  | turnComplete turnId ending =>
    obtain ⟨u, hu, ho, rfl⟩ := hf
    obtain ⟨pre, rfl, he, rfl⟩ := h.last_of_open hu ho
    have hs : u.step (.turnComplete u.id ending) = { u with ended := some (false, ending) } := if_pos rfl
    have ha : u.live.applyCompletion ending = Turn.live { u with ended := some (false, ending) } := by
      simp only [applyCompletion, Turn.live, liveMetadata, ho]
      cases ending.error <;> cases u.seen <;> simp
    rw [logStep_last u rfl (id_ne_of_nodup hn), hs]
    have hb : handleEvent ⟨pre.map Turn.live, some u.live⟩ (.turnComplete u.id ending) =
        ⟨(pre ++ [{ u with ended := some (false, ending) }]).map Turn.live, none⟩ := by
      simp only [handleEvent, isCurrent_live, Option.map_some, ha, map_append]
      rfl
    rw [hb]
    refine .closed fun v hv => ?_
    rcases mem_append.mp hv with hv | hv
    · exact he v hv
    · obtain rfl := mem_singleton.mp hv
      exact Option.some_ne_none _
  | turnAborted turnId ending =>
    obtain ⟨u, hu, ho, rfl⟩ := hf
    obtain ⟨pre, rfl, he, rfl⟩ := h.last_of_open hu ho
    have hs : u.step (.turnAborted (some u.id) ending) = { u with ended := some (true, ending) } := if_pos rfl
    have ha : u.live.applyAbort ending = Turn.live { u with ended := some (true, ending) } := by
      simp [applyAbort, Turn.live, liveMetadata, ho]
    have hb : handleEvent ⟨pre.map Turn.live, some u.live⟩ (.turnAborted (some u.id) ending) =
        ⟨pre.map Turn.live, some (u.step (.turnAborted (some u.id) ending)).live⟩ := by
      simp [handleEvent, isCurrent_live, ha, hs]
    rw [hb]
    exact .current (logStep_last u rfl fun v hv heq => id_ne_of_nodup hn v hv (Option.some.inj heq)) he

lemma Runs.follows (h : Runs events log) :
    Follows log (built events) := by
  induction h with
  | nil => exact .closed (by simp)
  | step hr hf ih =>
    unfold built
    rw [foldl_append]
    exact ih.step hr.nodup hf

lemma Follows.view_eq (h : Follows log b) :
    b.view = log.map fun t => (t.liveMetadata, (t.completions.filter (·.shown)).foldl upsert []) := by
  cases h with
  | closed _ =>
    simp only [ThreadHistoryBuilder.view, Option.toList_none, append_nil, map_map]
    rfl
  | current hl _ =>
    simp only [ThreadHistoryBuilder.view, hl, map_append, map_map]
    rfl

/-! ## The store follows the log -/

lemma itemsOf_insert (items : List ((Text × Text) × ThreadItemPayload Body)) (turnId itemId : Text)
    (item : ThreadItemPayload Body) (other : Text) : itemsOf (insert items (turnId, itemId) item) other =
      if turnId = other then insert (itemsOf items other) itemId item else itemsOf items other := by
  induction items with
  | nil =>
    show itemsOf [((turnId, itemId), item)] other = _
    by_cases h : turnId = other
    · simp only [itemsOf, filterMap_cons, if_pos h]
      rfl
    · simp [itemsOf, if_neg h]
  | cons row items ih =>
    obtain ⟨⟨rowTurn, rowItem⟩, payload⟩ := row
    have hc : insert (((rowTurn, rowItem), payload) :: items) (turnId, itemId) item =
        if (rowTurn, rowItem) = (turnId, itemId) then ((rowTurn, rowItem), item) :: items
        else ((rowTurn, rowItem), payload) :: insert items (turnId, itemId) item := rfl
    have hv : ∀ (payload : ThreadItemPayload Body) rest, itemsOf (((rowTurn, rowItem), payload) :: rest) other =
        if rowTurn = other then (rowItem, payload) :: itemsOf rest other else itemsOf rest other := by
      intro payload rest
      simp only [itemsOf]
      split <;> rename_i h <;> simp_all
    have hi : ∀ rest : Items Body, insert ((rowItem, payload) :: rest) itemId item =
        if rowItem = itemId then (rowItem, item) :: rest else (rowItem, payload) :: insert rest itemId item :=
      fun _ => rfl
    rw [hc, hv]
    by_cases hs : (rowTurn, rowItem) = (turnId, itemId)
    · obtain ⟨rfl, rfl⟩ := Prod.mk.inj hs
      rw [if_pos rfl, hv]
      by_cases ho : rowTurn = other
      · rw [if_pos ho, if_pos ho, if_pos ho, hi, if_pos rfl]
      · rw [if_neg ho, if_neg ho, if_neg ho]
    rw [if_neg hs, hv, ih]
    by_cases hr : rowTurn = other
    · rw [if_pos hr, if_pos hr]
      by_cases ht : turnId = other
      · have hite : rowItem ≠ itemId := fun heq => hs (by rw [hr, ht, heq])
        rw [if_pos ht, if_pos ht, hi, if_neg hite]
      · rw [if_neg ht, if_neg ht]
    · rw [if_neg hr, if_neg hr]

def rows (log : List (Turn Body Error)) : List (Text × TurnMetadata Error) := log.map fun t => (t.id, t.row)

lemma insert_rows (turn : TurnMetadata Error)
    (hn : (log.map (·.id)).Nodup) (hm : ∃ t ∈ log, t.id = turnId) :
    insert (rows log) turnId turn = log.map fun t => (t.id, if t.id = turnId then turn else t.row) := by
  induction log with
  | nil =>
    obtain ⟨t, ht, -⟩ := hm
    cases ht
  | cons u log ih => ?_
  obtain ⟨hno, hn⟩ := nodup_cons.mp hn
  show (if u.id = turnId then (u.id, turn) :: rows log else (u.id, u.row) :: insert (rows log) turnId turn) = _
  rw [map_cons]
  by_cases hid : u.id = turnId
  · rw [if_pos hid, if_pos hid]
    refine congrArg₂ List.cons rfl (map_congr_left fun v hv => ?_)
    rw [if_neg fun heq => hno (mem_map.mpr ⟨v, hv, heq.trans hid.symm⟩)]
  obtain ⟨t, ht, heq⟩ := hm
  have hl : ∃ t ∈ log, t.id = turnId := by
    rcases mem_cons.mp ht with rfl | ht
    · exact absurd heq hid
    · exact ⟨t, ht, heq⟩
  rw [if_neg hid, if_neg hid, ih hn hl]

lemma insert_rows_fresh (turn : TurnMetadata Error)
    (h : ∀ t ∈ log, t.id ≠ turnId) : insert (rows log) turnId turn = rows log ++ [(turnId, turn)] := by
  induction log with
  | nil => rfl
  | cons u log ih =>
    show (if u.id = turnId then _ else (u.id, u.row) :: insert (rows log) turnId turn) = _
    rw [if_neg (h u mem_cons_self), ih fun t ht => h t (mem_cons_of_mem _ ht)]
    rfl

lemma get_rows (hn : (log.map (·.id)).Nodup) (ht : t ∈ log) :
    get (rows log) t.id = some t.row := by
  have hk : ((rows log).map (·.1)).Nodup := by simpa [rows, Function.comp_def] using hn
  have hm : (t.id, t.row) ∈ rows log := mem_map.mpr ⟨t, ht, rfl⟩
  exact get_of_mem hk hm

structure Kept (log : List (Turn Body Error)) (s : Store Body Error) : Prop where
  turns : s.turns = rows log
  items : ∀ t ∈ log, itemsOf s.items t.id = t.completions.foldl upsert []
  unknown : ∀ turnId, (∀ t ∈ log, t.id ≠ turnId) → itemsOf s.items turnId = []

lemma rows_map (h : ∀ t ∈ log, (t.step event).row = t.row) :
    rows (log.map (·.step event)) = rows log := by
  unfold rows
  rw [map_map]
  refine map_congr_left fun t ht => ?_
  show ((t.step event).id, (t.step event).row) = _
  rw [id_step, h t ht]

lemma upsertTurn_rows (hn : (log.map (·.id)).Nodup) (ht : t ∈ log) (ho : t.ended = none)
    (event : Event Body Error) (hid : turn.turnId = t.id)
    (hr : ∀ u ∈ log, (u.step event).row = if u.id = t.id then turn else u.row) :
    upsertTurn (rows log) turn = rows (log.map (·.step event)) := by
  have hs : (get (rows log) turn.turnId).all (·.status = .inProgress) := by
    rw [hid, get_rows hn ht]
    simp [row, ho, started]
  unfold upsertTurn
  rw [if_pos hs, hid, insert_rows turn hn ⟨t, ht, rfl⟩]
  unfold rows
  rw [map_map]
  refine map_congr_left fun u hu => ?_
  show _ = ((u.step event).id, (u.step event).row)
  rw [id_step, hr u hu]

lemma Kept.of_turns (h : Kept log s)
    (hc : ∀ t : Turn Body Error, (t.step event).completions = t.completions)
    {turns : List (Text × TurnMetadata Error)} (htu : turns = rows (log.map (·.step event))) :
    Kept (log.map (·.step event)) ⟨turns, s.items⟩ := by
  refine ⟨htu, fun t ht => ?_, fun turnId hne => h.unknown turnId fun t ht => ?_⟩
  · obtain ⟨u, hu, rfl⟩ := mem_map.mp ht
    rw [id_step, hc]
    exact h.items u hu
  · have := hne _ (mem_map_of_mem ht)
    rwa [id_step] at this

lemma Kept.step (h : Kept log s) (hn : (log.map (·.id)).Nodup) (hfi : Fits log event) :
    Kept (logStep log event) (applyChangeSet s (projectRolloutLine event)) := by
  cases event with
  | turnStarted turnId =>
    have hf : ∀ t ∈ log, t.id ≠ turnId := fun t ht => (hfi t ht).2
    have hl : logStep log (.turnStarted turnId) = log ++ [⟨turnId, none, none, []⟩] := by
      unfold logStep
      rw [map_step_of_apart (.turnStarted turnId) fun _ _ => trivial]
      rfl
    rw [hl]
    refine ⟨?_, fun t ht => ?_, fun other hne => ?_⟩
    · show upsertTurn s.turns (started turnId) = _
      have hno : get (rows log) turnId = none := by
        refine get_eq_none_iff.mpr fun e he => ?_
        obtain ⟨t, ht, rfl⟩ := mem_map.mp he
        exact hf t ht
      unfold upsertTurn
      rw [h.turns, show (started turnId : TurnMetadata Error).turnId = turnId from rfl, hno, Option.all_none,
        if_pos rfl, insert_rows_fresh _ hf]
      unfold rows
      rw [map_append]
      rfl
    · rcases mem_append.mp ht with ht | ht
      · exact h.items t ht
      · obtain rfl := mem_singleton.mp ht
        exact h.unknown turnId hf
    · exact h.unknown other fun t ht => hne t (mem_append_left _ ht)
  | itemCompleted turnId item =>
    obtain ⟨t, ht, rfl⟩ := hfi
    rw [logStep_of_opens rfl]
    refine ⟨?_, fun u hu => ?_, fun other hne => ?_⟩
    · show s.turns = _
      rw [h.turns, rows_map]
      intro u _
      simp only [Turn.step]
      split <;> rfl
    · obtain ⟨u, hm, rfl⟩ := mem_map.mp hu
      show itemsOf (insert s.items (t.id, item.id) item) _ = _
      rw [id_step, itemsOf_insert, h.items u hm]
      simp only [Turn.step]
      by_cases hid : u.id = t.id
      · rw [if_pos hid.symm, if_pos hid, foldl_append]
        rfl
      · rw [if_neg (Ne.symm hid), if_neg hid]
    · have ha : ∀ u ∈ log, u.id ≠ other := by
        intro u hu
        have := hne _ (mem_map_of_mem hu)
        rwa [id_step] at this
      show itemsOf (insert s.items (t.id, item.id) item) other = []
      rw [itemsOf_insert, if_neg (ha t ht), h.unknown other ha]
  | error payload =>
    rw [logStep_of_opens rfl]
    refine h.of_turns (fun t => ?_) ?_
    · simp only [Turn.step]
      split <;> rfl
    show s.turns = _
    rw [h.turns, rows_map]
    intro t _
    simp only [Turn.step]
    split
    · rename_i ho
      rw [Bool.and_eq_true, Option.isNone_iff_eq_none] at ho
      simp [row]
    · rfl
  | turnComplete turnId ending | turnAborted turnId ending =>
    obtain ⟨t, ht, ho, rfl⟩ := hfi
    rw [logStep_of_opens rfl]
    refine h.of_turns (fun u => ?_) ?_
    · simp only [Turn.step]
      split <;> rfl
    rw [h.turns]
    refine upsertTurn_rows hn ht ho _ rfl fun u _ => ?_
    simp only [Turn.step, Option.some.injEq]
    split
    · rename_i hid
      simp [row, hid]
    · rfl

lemma Runs.kept (h : Runs events log) :
    Kept log (stored events) := by
  induction h with
  | nil => exact ⟨rfl, by simp, fun _ _ => rfl⟩
  | step hr hf ih =>
    unfold stored
    rw [foldl_append]
    exact ih.step hr.nodup hf

lemma Kept.view_eq (h : Kept log s) :
    s.view = log.map fun t => (t.row, t.completions.foldl upsert []) := by
  unfold Store.view
  rw [h.turns, rows, map_map]
  refine map_congr_left fun t ht => ?_
  show (t.row, itemsOf s.items t.id) = _
  rw [h.items t ht]

lemma Turn.row_eq_iff (h : t.ended = some (aborted, ending)) :
    t.row = t.liveMetadata ↔ (t.seen.isSome → ending.error.isSome) := by
  simp only [row, liveMetadata, h]
  cases ending.error <;> cases t.seen <;> cases aborted <;> simp

/-- With every completed item shown, the two agree exactly if each turn that saw an error ended with one. -/
theorem stored_agrees_iff (h : Runs events log)
    (hended : ∀ t ∈ log, t.ended ≠ none) (hshown : ∀ t ∈ log, ∀ item ∈ t.completions, item.shown = true) :
    (stored events).view = (built events).view ↔
      ∀ t ∈ log, t.seen.isSome → ∀ aborted ending, t.ended = some (aborted, ending) → ending.error.isSome := by
  rw [h.kept.view_eq, h.follows.view_eq, map_inj_left]
  refine forall_congr' fun t => forall_congr' fun ht => ?_
  rw [filter_eq_self.mpr (hshown t ht), Prod.mk.injEq, and_iff_left rfl]
  obtain ⟨⟨aborted, ending⟩, he⟩ := Option.ne_none_iff_exists'.mp (hended t ht)
  rw [row_eq_iff he]
  constructor
  · intro hi hs aborted' ending' heq
    obtain ⟨rfl, rfl⟩ := Prod.mk.inj (Option.some.inj (he.symm.trans heq))
    exact hi hs
  · exact fun hi hs => hi hs _ _ he

def answer : ThreadItemPayload Unit := ⟨.agentMessage, "a", "done", ()⟩

def failing (ending : Ending Nat) : List (Event Unit Nat) :=
  [.turnStarted "t", .error ⟨true, 1⟩, .turnComplete "t" ending, .itemCompleted "t" answer]

def failed (ending : Ending Nat) : Turn Unit Nat := ⟨"t", some 1, some (false, ending), [answer]⟩

lemma failing_runs (ending : Ending Nat) : Runs (failing ending) [failed ending] := by
  have h₁ := @Runs.step _ _ _ _ (.turnStarted "t") (@Runs.nil Unit Nat) (by simp [Fits])
  have h₂ := @Runs.step _ _ _ _ (.error ⟨true, 1⟩) h₁ ⟨_, mem_cons_self, rfl⟩
  have h₃ := @Runs.step _ _ _ _ (.turnComplete "t" ending) h₂ ⟨_, mem_cons_self, rfl, rfl⟩
  exact @Runs.step _ _ _ _ (.itemCompleted "t" answer) h₃ ⟨_, mem_cons_self, rfl⟩

theorem failed_with_error_agrees :
    (stored (failing ⟨some 2, none, none⟩)).view = (built (failing ⟨some 2, none, none⟩)).view := by
  refine (stored_agrees_iff (failing_runs _) ?_ ?_).mpr ?_
  · simp [failed]
  · simp [failed, answer, ThreadItemPayload.shown]
  · rintro t ht - _ _ heq
    obtain rfl := mem_singleton.mp ht
    cases heq
    rfl

theorem failed_without_error_differs :
    (stored (failing ⟨none, none, none⟩)).view.map (·.1.status) = [.completed] ∧
      (built (failing ⟨none, none, none⟩)).view.map (·.1.status) = [.failed] :=
  ⟨rfl, rfl⟩

end Codex.ThreadHistory
