import Codex.Board.Calls
import Codex.Run

/-!
# Polling a board

A reader asks again and again for what is newer than the newest post it was shown. The clock does not go back, but a
call is told the time before it stores.
-/

namespace Codex.Board

open Codex.Agents List Option State Run

structure PostQuery (Uuid : Type) where
  channelName : Option Text := none
  query : Option Text := none
  afterMessageId : Option Uuid := none
  author : Option AgentPath := none

variable {ThreadId Uuid Time : Type} [DecidableEq ThreadId] [DecidableEq Uuid]

def PostQuery.selects (fold : Text → Text) (query : PostQuery Uuid) (post : Post Uuid Time) : Bool :=
  query.author.all (· = post.metadata.author) && query.query.all (fold · <:+: fold post.request.text)

section

variable (fold : Text → Text) (micros : Time → Int) (s : State ThreadId Uuid Time) (query : PostQuery Uuid)

/-- The positions of the posts after one of them, the newest first; `stampAt` is the key of a post. -/
def State.found (after : Option Nat) : List Nat :=
  let key := stampAt micros s.stored
  let posts := query.channelName.elim (range s.posts.length) fun name => ((s.channels.get name).map (·.posts)).getD []
  (posts.filter fun i => s.posts[i]?.any (query.selects fold) && after.all (key · < key i)).insertionSort
    fun i j => key j ≤ key i

def State.searchPosts : Except Text (List Nat) :=
  match query.afterMessageId.map s.byId.get with
  | some none => .error "post not found in this board"
  | after => .ok (s.found fold micros query after.join)

end

section

variable {α : Type}

/-- One page and the offset of the next, which the source passes as a coded cursor. -/
def page (offset limit : Nat) (results : List α) : Except Text (List α × Option Nat) :=
  let limit := min limit 50
  let found := (results.drop offset).take (limit + 1)
  let shown := found.take limit
  if limit < found.length then
    if offset + shown.length < 2 ^ 32 then .ok (shown, some (offset + shown.length))
    else .error "cursor offset exceeds the board limit"
  else .ok (shown, none)

/-- All pages from an offset on, each with a limit of its own. -/
def readPages (results : List α) : List Nat → Nat → Option (List α)
  | [], _ => none
  | limit :: limits, offset =>
    match page offset limit results with
    | .error _ => none
    | .ok (shown, none) => some shown
    | .ok (shown, some next) => (readPages results limits next).map (shown ++ ·)

lemma readPages_eq {results shown : List α} (h : readPages results limits offset = some shown) :
    shown = results.drop offset := by
  induction limits generalizing offset shown with
  | nil => cases h
  | cons limit limits ih => ?_
  unfold readPages page at h
  by_cases hm : min limit 50 < ((results.drop offset).take (min limit 50 + 1)).length
  · simp only [if_pos hm] at h
    rw [length_take] at hm
    split_ifs at h
    · obtain ⟨rest, hr, rfl⟩ := map_eq_some_iff.mp h
      have hf : min limit 50 ≤ (drop offset results).length := by omega
      rw [ih hr, take_take, Nat.min_eq_left (Nat.le_succ (min limit 50)), length_take, Nat.min_eq_left hf,
        ← drop_drop, take_append_drop]
  simp only [if_neg hm] at h
  rw [length_take] at hm
  cases h
  rw [take_take, take_of_length_le (by omega)]

end

structure Polling (ThreadId Uuid Time : Type) where
  board : System ThreadId Uuid Time := {}
  times : List Time := []
  shown : List Nat := []

inductive Polled (ThreadId Uuid Time : Type) where
  | clock (now : Time)
  | board (event : Event ThreadId Uuid Time)
  | poll (limits : List Nat)

def Event.told : Event ThreadId Uuid Time → Option Time
  | .writePost _ _ _ _ _ now _ => some now
  | _ => none

namespace Polling

section

variable [DecidableEq Time] (fold : Text → Text) (micros : Time → Int) (s : Polling ThreadId Uuid Time)

abbrev stored : List (PostMetadata Uuid Time) := s.board.state.stored

def newestShown : Option Uuid := (newest micros s.stored s.shown).bind (idAt s.stored)

def step : Polled ThreadId Uuid Time → Option (Polling ThreadId Uuid Time)
  | .clock now => if ∀ earlier ∈ s.times, micros earlier ≤ micros now then some { s with times := now :: s.times }
    else none
  | .board event => if event.told.all (· ∈ s.times) then (s.board.step micros event).map ({ s with board := · })
    else none
  | .poll limits =>
    match s.board.state.searchPosts fold micros { afterMessageId := s.newestShown micros } with
    | .error _ => none
    | .ok results => (readPages results limits 0).map fun found => { s with shown := s.shown ++ found }

/-- The reader was shown this post or a newer one. -/
def Passed (i : Nat) : Prop := ∃ j ∈ s.shown, stampAt micros s.stored i ≤ stampAt micros s.stored j

/-- A post is stored behind one that the reader was shown. -/
def Behind (event : Polled ThreadId Uuid Time) : Prop :=
  ∃ s', s.step fold micros event = some s' ∧ ∃ i < s'.stored.length, s.stored.length ≤ i ∧ s'.Passed micros i

/-- No post that the cursor has passed was skipped. -/
def Complete : Prop := ∀ i < s.stored.length, s.Passed micros i → i ∈ s.shown

/-- What polls have shown is on the board. -/
structure Follows : Prop where
  sound : s.board.Sound micros
  bound : ∀ i ∈ s.shown, i < s.stored.length

end

variable {fold : Text → Text} {micros : Time → Int} {s s' : Polling ThreadId Uuid Time}

omit [DecidableEq ThreadId] [DecidableEq Uuid] in
lemma not_passed : ¬ s.Passed micros i ↔
    (newest micros s.stored s.shown).all (stampAt micros s.stored · < stampAt micros s.stored i) := by
  rcases hn : newest micros s.stored s.shown with _ | c
  · simp [Passed, maxByKey_eq_none.mp hn]
  rw [all_some, decide_eq_true_eq, ← not_le, not_iff_not]
  constructor
  · rintro ⟨j, hj, hle⟩
    exact hle.trans (le_maxByKey hn hj)
  · intro hle
    exact ⟨c, mem_of_maxByKey hn, hle⟩

lemma Follows.search (h : s.Follows micros) (fold : Text → Text) :
    s.board.state.searchPosts fold micros { afterMessageId := s.newestShown micros } = .ok
      (s.board.state.found fold micros { afterMessageId := s.newestShown micros } (newest micros s.stored s.shown)) :=
        by
  have ha : (s.newestShown micros).map s.board.state.byId.get = (newest micros s.stored s.shown).map some := by
    unfold newestShown
    rcases hn : newest micros s.stored s.shown with _ | c
    · rfl
    have hc := lt_of_newest h.bound hn
    rw [stored, length_stored] at hc
    rw [bind_some, idAt, stored, getElem?_stored, getElem?_eq_getElem hc]
    exact congrArg some ((h.sound.indexed.byId _ c).mpr ⟨_, getElem?_eq_getElem hc, rfl⟩)
  unfold State.searchPosts
  rw [ha]
  cases newest micros s.stored s.shown <;> rfl

omit [DecidableEq ThreadId] [DecidableEq Uuid] in
lemma stampAt_keeps {s s' : State ThreadId Uuid Time} (h : Keeps s.posts s'.posts) (hi : i < s.stored.length) :
    i < s'.stored.length ∧ stampAt micros s'.stored i = stampAt micros s.stored i := by
  rw [length_stored] at hi ⊢
  obtain ⟨post, hp, hs, -⟩ := h i _ (getElem?_eq_getElem hi)
  refine ⟨(List.getElem?_eq_some_iff.mp hp).1, ?_⟩
  simp [stampAt, getElem?_stored, hp, getElem?_eq_getElem hi, hs]

variable [DecidableEq Time]

/-- A poll shows every post that the reader has not passed. -/
lemma Follows.poll (h : s.Follows micros) (hs : s.step fold micros (.poll limit) = some s') :
    ∃ found, s' = { s with shown := s.shown ++ found } ∧
      ∀ i, i ∈ found ↔ i < s.stored.length ∧ ¬ s.Passed micros i := by
  simp only [Polling.step, h.search] at hs
  obtain ⟨_, hr, rfl⟩ := map_eq_some_iff.mp hs
  rw [readPages_eq hr, drop_zero]
  refine ⟨_, rfl, fun i => ?_⟩
  rw [State.found, mem_insertionSort, mem_filter, elim_none, mem_range, not_passed, length_stored, Bool.and_eq_true]
  refine and_congr_right fun hi => ?_
  rw [getElem?_eq_getElem hi]
  exact and_iff_right rfl

lemma Follows.passed (h : s.Follows micros) (hs : s.step fold micros (.poll limit) = some s')
    (hi : i < s'.stored.length) : s'.Passed micros i := by
  obtain ⟨found, rfl, hf⟩ := h.poll hs
  by_cases hp : s.Passed micros i
  · obtain ⟨j, hj, hle⟩ := hp
    exact ⟨j, mem_append_left _ hj, hle⟩
  · exact ⟨i, mem_append_right _ ((hf i).mpr ⟨hi, hp⟩), le_rfl⟩

lemma not_behind (hs : s.step fold micros event = some s')
    (hsa : s'.stored = s.stored) : ¬ s.Behind fold micros event := by
  rintro ⟨_, ho, i, hlt, hge, -⟩
  obtain rfl := some.inj (hs.symm.trans ho)
  rw [hsa] at hlt
  omega

/-- Polls keep a reader complete, and so does every stored post that is not behind it. -/
lemma Follows.step (h : s.Follows micros) (hs : s.step fold micros event = some s') :
    s'.Follows micros ∧ (s'.Complete micros ↔ s.Complete micros ∧ ¬ s.Behind fold micros event) := by
  cases event with
  | clock now =>
    have hn := not_behind hs
    simp only [Polling.step, ite_none_right_eq_some, some.injEq] at hs
    obtain ⟨-, rfl⟩ := hs
    exact ⟨⟨h.sound, h.bound⟩, (and_iff_left (hn rfl)).symm⟩
  | poll limit =>
    have hn := not_behind hs
    have ha := fun i => h.passed (i := i) hs
    obtain ⟨found, rfl, hf⟩ := h.poll hs
    refine ⟨⟨h.sound, fun i hi => ?_⟩, ?_⟩
    · exact (mem_append.mp hi).elim (h.bound i) fun hin => ((hf i).mp hin).1
    rw [and_iff_left (hn rfl)]
    constructor
    · intro hc i hi hp
      refine (mem_append.mp (hc i hi (ha i hi))).resolve_right fun hin => ?_
      exact ((hf i).mp hin).2 hp
    intro hc i hi _
    by_cases hp : s.Passed micros i
    · exact mem_append_left _ (hc i hi hp)
    · exact mem_append_right _ ((hf i).mpr ⟨hi, hp⟩)
  | board event => ?_
  have ht := hs
  simp only [Polling.step, ite_none_right_eq_some, map_eq_some_iff] at hs
  obtain ⟨-, board, hb, rfl⟩ := hs
  obtain ⟨hso, hke⟩ := h.sound.step hb
  have hk : ∀ i < s.stored.length, i < board.state.stored.length ∧
      stampAt micros board.state.stored i = stampAt micros s.stored i := fun i => stampAt_keeps hke
  have hp : ∀ i < s.stored.length, Passed micros { s with board } i ↔ s.Passed micros i := by
    intro i hi
    refine exists_congr fun j => and_congr_right fun hj => ?_
    rw [(hk i hi).2, (hk j (h.bound j hj)).2]
  refine ⟨⟨hso, fun i hi => (hk i (h.bound i hi)).1⟩, ?_⟩
  constructor
  · intro hc
    refine ⟨fun i hi hol => hc i (hk i hi).1 ((hp i hi).mpr hol), ?_⟩
    rintro ⟨_, ho, i, hlt, hge, hnew⟩
    obtain rfl := some.inj (ht.symm.trans ho)
    exact absurd (h.bound i (hc i hlt hnew)) (not_lt.mpr hge)
  rintro ⟨hc, hn⟩ i hi hnew
  by_cases hol : i < s.stored.length
  · exact hc i hol ((hp i hol).mp hnew)
  · exact absurd ⟨_, ht, i, hi, not_lt.mp hol, hnew⟩ hn

lemma follows_run (h : run (step fold micros) {} events = some s) :
    s.Follows micros ∧ (s.Complete micros ↔ Avoids (step fold micros) (Behind fold micros) {} events) :=
  iff_avoids (Follows micros) (Complete micros)
    ⟨⟨System.Sound.run [] rfl, by simp⟩, fun i hi => absurd hi (Nat.not_lt_zero i)⟩
    (fun _ _ _ ho hs => ho.step hs) h

/-- After a poll the reader was shown every post exactly when none was stored behind it. -/
theorem shown_all_iff (events : List (Polled ThreadId Uuid Time)) (limits : List Nat)
    (hrun : run (step fold micros) {} (events ++ [.poll limits]) = some s) :
    (∀ i < s.board.state.posts.length, i ∈ s.shown) ↔
      Avoids (step fold micros) (Behind fold micros) {} (events ++ [.poll limits]) := by
  obtain ⟨middle, hb, hpo⟩ := run_concat.mp hrun
  have hp : ∀ i < s.stored.length, s.Passed micros i := fun i => (follows_run hb).1.passed hpo
  rw [← (follows_run hrun).2, ← length_stored]
  exact ⟨fun ha i hi _ => ha i hi, fun hc i hi => hc i hi (hp i hi)⟩

def note (requestId : Text) : PostRequest Nat := ⟨requestId, .newChannel requestId, "hello", []⟩

/-- Two calls are told the times 1 and 2, and the second stores first. -/
def overtaken : List (Polled Nat Nat Int) :=
  [.clock 1, .clock 2, .board (.checkPost 1 (note "a") .discussion .root),
    .board (.checkPost 2 (note "b") .discussion .root), .board (.writePost 2 (note "b") .discussion .root [] 2 0),
    .poll [1], .board (.writePost 1 (note "a") .discussion .root [] 1 1)]

theorem overtaken_missed : ∃ s, run (step id id) {} (overtaken ++ [.poll [1]]) = some s ∧
    s.board.state.posts.length = 2 ∧ s.shown = [0] := ⟨_, rfl, rfl, rfl⟩

/-- The same calls, each storing in the order of its time, with a poll between them. -/
def inOrder : List (Polled Nat Nat Int) :=
  [.clock 1, .clock 2, .board (.checkPost 1 (note "a") .discussion .root),
    .board (.checkPost 2 (note "b") .discussion .root), .board (.writePost 1 (note "a") .discussion .root [] 1 0),
    .poll [1], .board (.writePost 2 (note "b") .discussion .root [] 2 1)]

theorem shown_in_order : ∃ s : Polling Nat Nat Int, run (step id id) {} (inOrder ++ [.poll [1]]) = some s ∧
    s.shown = [0, 1] ∧ Avoids (step id id) (Behind id id) {} (inOrder ++ [.poll [1]]) := by
  obtain ⟨s, hr, ho, hs⟩ : ∃ s : Polling Nat Nat Int,
      run (step id id) {} (inOrder ++ [.poll [1]]) = some s ∧ s.board.state.posts.length = 2 ∧
        s.shown = [0, 1] := ⟨_, rfl, rfl, rfl⟩
  refine ⟨s, hr, hs, (shown_all_iff _ _ hr).mp fun i hi => ?_⟩
  rw [hs]
  simp only [mem_cons, not_mem_nil, or_false]
  omega

end Polling

end Codex.Board
