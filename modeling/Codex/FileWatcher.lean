import Codex.HashMap.Laws
import Codex.Run
import Codex.Text

/-!
# Reference counts of watched paths

The state of `file-watcher/src/lib.rs`. The watches of the operating system, which follow the counts, and the paths
that subscribers are told of are left out, with the fields that only serve them.
-/

namespace Codex.FileWatcher

open List Codex.Run
open HashMap (get_insert get_remove get_eq_some_iff total total_insert total_remove total_eq_zero)

/-! ## Paths -/

structure Path where
  absolute : Bool
  names : List Text
deriving DecidableEq

namespace Path

/-- `parent`, its `parent` and so on. -/
def ancestors (path : Path) : List Path := path.names.inits.reverse.tail.map (⟨path.absolute, ·⟩)

def join (path : Path) (names : List Text) : Path := ⟨path.absolute, path.names ++ names⟩

end Path

structure WatchPath where
  path : Path
  recursive : Bool
deriving DecidableEq

/-- What the file system answers while one function asks it. It can change at any other time. -/
structure Answers where
  pathExists : Path → Bool
  isDir : Path → Bool
  canonicalize : Path → Option Path

/-- The path to watch and the one to match. -/
def actualWatchPath (fs : Answers) (requested : WatchPath) : WatchPath × WatchPath :=
  let canonical (path : Path) := (fs.canonicalize path).getD path
  if fs.pathExists requested.path then (requested, ⟨canonical requested.path, requested.recursive⟩)
  else match requested.path.ancestors.find? fs.isDir with
    | some path =>
      let matched := (canonical path).join (requested.path.names.drop path.names.length)
      (⟨path, false⟩, ⟨matched, requested.recursive⟩)
    | none => (requested, requested)

structure SubscriberWatchKey where
  requested : WatchPath
  matched : WatchPath
deriving DecidableEq

structure SubscriberWatchState where
  actual : WatchPath
  count : Nat

/-! ## Counts -/

structure PathWatchCounts where
  nonRecursive : Nat := 0
  recursive : Nat := 0

namespace PathWatchCounts

def count (counts : PathWatchCounts) (recursive : Bool) : Nat :=
  if recursive then counts.recursive else counts.nonRecursive

def set (counts : PathWatchCounts) (recursive : Bool) (count : Nat) : PathWatchCounts :=
  if recursive then { counts with recursive := count } else { counts with nonRecursive := count }

def increment (counts : PathWatchCounts) (recursive : Bool) (amount : Nat) : PathWatchCounts :=
  counts.set recursive (counts.count recursive + amount)

/-- `none` where the subtraction would saturate. -/
def decrement (counts : PathWatchCounts) (recursive : Bool) (amount : Nat) : Option PathWatchCounts :=
  if amount ≤ counts.count recursive then some (counts.set recursive (counts.count recursive - amount)) else none

def isEmpty (counts : PathWatchCounts) : Bool := counts.nonRecursive = 0 && counts.recursive = 0

end PathWatchCounts

abbrev PathRefCounts := HashMap (id : Path → Path) PathWatchCounts

abbrev WatchedPaths := HashMap (id : SubscriberWatchKey → SubscriberWatchKey) SubscriberWatchState

abbrev Subscribers := HashMap (id : Nat → Nat) WatchedPaths

def PathRefCounts.increment (counts : PathRefCounts) (actual : WatchPath) (amount : Nat) : PathRefCounts :=
  counts.insert actual.path (((counts.get actual.path).getD {}).increment actual.recursive amount)

def PathRefCounts.decrement (counts : PathRefCounts) (actual : WatchPath) (amount : Nat) : Option PathRefCounts :=
  match counts.get actual.path with
  | none => some counts
  | some count => do
    let count ← count.decrement actual.recursive amount
    if count.isEmpty then some (counts.remove actual.path) else some (counts.insert actual.path count)

def applyActualWatchMove (counts : PathRefCounts) (move : WatchPath × WatchPath × Nat) : Option PathRefCounts :=
  let (oldActual, newActual, count) := move
  if oldActual = newActual then some counts
  else do some ((← counts.decrement oldActual count).increment newActual count)

/-! ## Calls -/

structure WatchState where
  /-- A `u64`, which fewer than 2 ^ 64 calls do not exhaust. -/
  nextSubscriberId : Nat := 0
  pathRefCounts : PathRefCounts := {}
  subscribers : Subscribers := {}

namespace WatchState

def addSubscriber (s : WatchState) : WatchState :=
  { s with
    nextSubscriberId := s.nextSubscriberId + 1
    subscribers := s.subscribers.insert s.nextSubscriberId {} }

structure SubscriberWatchRegistration where
  key : SubscriberWatchKey
  actual : WatchPath

def registration (requested : WatchPath) (fs : Answers) : SubscriberWatchRegistration :=
  let (actual, matched) := actualWatchPath fs requested
  ⟨⟨requested, matched⟩, actual⟩

/-- The entry of the map after one more registration. -/
def registered (r : SubscriberWatchRegistration) : Option SubscriberWatchState → SubscriberWatchState
  | some watch => { watch with count := watch.count + 1 }
  | none => ⟨r.actual, 1⟩

def registerPaths (id : Nat) : List SubscriberWatchRegistration → WatchState → WatchState
  | [], s => s
  | r :: rs, s => match s.subscribers.get id with
    | none => s
    | some watched =>
      let watch := registered r (watched.get r.key)
      registerPaths id rs { s with
        subscribers := s.subscribers.insert id (watched.insert r.key watch)
        pathRefCounts := s.pathRefCounts.increment watch.actual 1 }

def unregistered (key : SubscriberWatchKey) (watch : SubscriberWatchState) (watched : WatchedPaths) : WatchedPaths :=
  if watch.count - 1 = 0 then watched.remove key else watched.insert key { watch with count := watch.count - 1 }

def unregisterPaths (id : Nat) : List SubscriberWatchKey → WatchState → Option WatchState
  | [], s => some s
  | key :: keys, s => match s.subscribers.get id with
    | none => some s
    | some watched => match watched.get key with
      | none => unregisterPaths id keys s
      | some watch => do
        if watch.count = 0 then none
        else
          unregisterPaths id keys { s with
            subscribers := s.subscribers.insert id (unregistered key watch watched)
            pathRefCounts := ← s.pathRefCounts.decrement watch.actual 1 }

def removeSubscriber (order : Order) (id : Nat) (s : WatchState) : Option WatchState :=
  match s.subscribers.get id with
  | none => some s
  | some watched => do
    some { s with
      subscribers := s.subscribers.remove id
      pathRefCounts := ← (order.visit watched.values).foldlM
        (fun counts watch => counts.decrement watch.actual watch.count) s.pathRefCounts }

/-- What `notify_subscribers` has collected: the watches as updated and the moves of counts still to come. -/
structure Notifying where
  subscribers : Subscribers
  actualWatchMoves : List (WatchPath × WatchPath × Nat) := []

def visitWatch (fs : Answers) (id : Nat) (key : SubscriberWatchKey) (n : Notifying) : Notifying :=
  match n.subscribers.get id with
  | none => n
  | some watched => match watched.get key with
    | none => n
    | some watch =>
      let newActual := (actualWatchPath fs key.requested).1
      { subscribers := n.subscribers.insert id (watched.insert key { watch with actual := newActual })
        actualWatchMoves := if watch.actual = newActual then n.actualWatchMoves
          else n.actualWatchMoves ++ [(watch.actual, newActual, watch.count)] }

/-- Every watch is visited once for each event path. -/
def visits (order : Order) (eventPaths : List Path) (subscribers : Subscribers) : List (Nat × SubscriberWatchKey) :=
  (order.visit subscribers.entries).flatMap fun (id, watched) => eventPaths.flatMap fun _ =>
    (order.visit watched.keys).map (id, ·)

def notifySubscribers (order : Order) (answers : Nat → Answers) (eventPaths : List Path) (s : WatchState) :
    Option WatchState := do
  let n := (visits order eventPaths s.subscribers).zipIdx.foldl (fun n v => visitWatch (answers v.2) v.1.1 v.1.2 n)
    { subscribers := s.subscribers }
  let counts ← n.actualWatchMoves.foldlM applyActualWatchMove s.pathRefCounts
  some { s with subscribers := n.subscribers, pathRefCounts := counts }

/-- The calls, with the paths that `dedupe_watched_paths` leaves and the keys that a registration holds. -/
inductive Event where
  | addSubscriber
  | registerPaths (id : Nat) (requested : List (WatchPath × Answers))
  | dropRegistration (id : Nat) (keys : List SubscriberWatchKey)
  | dropSubscriber (id : Nat) (order : Order)
  | notifySubscribers (eventPaths : List Path) (order : Order) (answers : Nat → Answers)

def step (s : WatchState) : Event → Option WatchState
  | .addSubscriber => some s.addSubscriber
  | .registerPaths id requested =>
    some (s.registerPaths id (requested.map fun (path, fs) => registration path fs))
  | .dropRegistration id keys => s.unregisterPaths id keys
  | .dropSubscriber id order => s.removeSubscriber order id
  | .notifySubscribers eventPaths order answers => s.notifySubscribers order answers eventPaths

end WatchState

/-! ## The counts add up -/

def share (target : WatchPath) (watch : SubscriberWatchState) : Nat := if target = watch.actual then watch.count else 0

def live (subscribers : Subscribers) (target : WatchPath) : Nat := subscribers.total (total (share target))

def stored (counts : PathRefCounts) (target : WatchPath) : Nat :=
  (counts.get target.path).elim 0 (·.count target.recursive)

structure Exact (counts : PathRefCounts) (expected : WatchPath → Nat) : Prop where
  eq : ∀ target, stored counts target = expected target
  filled : ∀ path count, counts.get path = some count → count.isEmpty = false

variable {counts : PathRefCounts} {expected : WatchPath → Nat} {target actual : WatchPath}

lemma PathWatchCounts.count_set (c : PathWatchCounts) (recursive other : Bool) (n : Nat) :
    (c.set recursive n).count other = if other = recursive then n else c.count other := by
  cases recursive <;> cases other <;> rfl

lemma PathWatchCounts.isEmpty_iff {c : PathWatchCounts} : c.isEmpty ↔ ∀ recursive, c.count recursive = 0 := by
  simp [isEmpty, count]

lemma eq_iff_fields : target = actual ↔ target.path = actual.path ∧ target.recursive = actual.recursive := by
  cases target
  cases actual
  simp

/-- Only the counts of one path change. -/
lemma Exact.update (h : Exact counts expected) (path : Path) (c : PathWatchCounts)
    (hg : ∀ other, counts'.get other = if other = path then (if c.isEmpty then none else some c) else counts.get other)
    (hc : ∀ recursive, c.count recursive = expected' ⟨path, recursive⟩)
    (ho : ∀ target : WatchPath, target.path ≠ path → expected' target = expected target) : Exact counts' expected' where
  eq target := by
    unfold stored
    rw [hg]
    by_cases hp : target.path = path
    · rw [if_pos hp, show target = ⟨path, target.recursive⟩ from eq_iff_fields.mpr ⟨hp, rfl⟩, ← hc]
      split
      · rename_i he
        exact (PathWatchCounts.isEmpty_iff.mp he _).symm
      · rfl
    · rw [if_neg hp, ho target hp, ← h.eq]
      rfl
  filled other c' hc' := by
    rw [hg] at hc'
    split at hc'
    · split at hc'
      · cases hc'
      · cases hc'
        exact Bool.eq_false_iff.mpr ‹_›
    · exact h.filled other c' hc'

lemma Exact.count_getD (h : Exact counts expected) (path : Path) (recursive : Bool) :
    ((counts.get path).getD {}).count recursive = expected ⟨path, recursive⟩ := by
  rw [← h.eq]
  unfold stored
  cases counts.get path <;> cases recursive <;> rfl

/-- The expected counts with more for one target. -/
def plus (expected : WatchPath → Nat) (actual : WatchPath) (n : Nat) (target : WatchPath) : Nat :=
  expected target + if target = actual then n else 0

lemma Exact.increment (h : Exact counts expected) (hn : 0 < n) :
    Exact (counts.increment actual n) (plus expected actual n) := by
  have hc : ∀ recursive, (((counts.get actual.path).getD {}).increment actual.recursive n).count recursive =
      plus expected actual n ⟨actual.path, recursive⟩ := by
    intro recursive
    rw [PathWatchCounts.increment, PathWatchCounts.count_set, h.count_getD, h.count_getD, plus]
    simp only [eq_iff_fields, true_and]
    split
    · rename_i hr
      rw [hr]
    · rfl
  refine h.update actual.path _ (fun path => ?_) hc fun target hp => by simp [plus, eq_iff_fields, hp]
  have hne : ¬ (((counts.get actual.path).getD {}).increment actual.recursive n).isEmpty := by
    rw [PathWatchCounts.isEmpty_iff]
    intro ha
    have := (hc actual.recursive).symm.trans (ha _)
    simp only [plus, if_true] at this
    omega
  rw [PathRefCounts.increment, get_insert, if_neg hne]
  rfl

lemma Exact.decrement (h : Exact counts (plus expected actual n)) :
    ∃ counts', counts.decrement actual n = some counts' ∧ Exact counts' expected := by
  have hg := h.count_getD actual.path
  unfold PathRefCounts.decrement
  rcases hc : counts.get actual.path with _ | c
  · rw [hc] at hg
    have hz : plus expected actual n actual = 0 := by
      rw [← hg actual.recursive]
      cases actual.recursive <;> rfl
    obtain rfl : n = 0 := by
      rw [plus, if_pos rfl] at hz
      omega
    rw [show plus expected actual 0 = expected by funext; simp [plus]] at h
    exact ⟨counts, rfl, h⟩
  simp only [hc, Option.getD_some] at hg
  have ha : c.count actual.recursive = expected actual + n := (hg _).trans (by simp [plus])
  have hle : n ≤ c.count actual.recursive := by omega
  simp only [PathWatchCounts.decrement, if_pos hle, Option.bind_eq_bind, Option.bind_some]
  set c' := c.set actual.recursive (c.count actual.recursive - n) with hc'
  refine ⟨if c'.isEmpty then counts.remove actual.path else counts.insert actual.path c', by split <;> rfl,
    h.update actual.path c' (fun path => ?_) (fun recursive => ?_) fun target hp => by simp [plus, eq_iff_fields, hp]⟩
  · split
    · rw [get_remove]
      rfl
    · rw [get_insert]
      rfl
  · rw [hc', PathWatchCounts.count_set]
    by_cases hr : recursive = actual.recursive
    · rw [if_pos hr, ha, hr]
      exact Nat.add_sub_cancel _ _
    · rw [if_neg hr, hg, plus, if_neg (by simp [eq_iff_fields, hr]), Nat.add_zero]

lemma Exact.foldlM_decrement {watches : List SubscriberWatchState}
    (h : Exact counts fun target => expected target + (watches.map (share target)).sum) :
    ∃ counts', watches.foldlM (fun counts watch => counts.decrement watch.actual watch.count) counts = some counts' ∧
      Exact counts' expected := by
  induction watches generalizing counts with
  | nil => exact ⟨counts, rfl, by simpa using h⟩
  | cons watch watches ih =>
    have hp : (fun target => expected target + ((watch :: watches).map (share target)).sum) =
        plus (fun target => expected target + (watches.map (share target)).sum) watch.actual watch.count := by
      funext target
      simp only [map_cons, sum_cons, plus, share]
      omega
    obtain ⟨counts', hc, he⟩ := (hp ▸ h).decrement
    obtain ⟨last, hl, hla⟩ := ih he
    exact ⟨last, by simp [hc, hl], hla⟩

/-! ## Watches -/

section Watches

variable {id : Nat} {subscribers : Subscribers} {watched : WatchedPaths} {watch : SubscriberWatchState}

lemma live_insert (h : subscribers.get id = some watched) (watched' : WatchedPaths) (target : WatchPath) :
    live (subscribers.insert id watched') target + watched.total (share target) =
      live subscribers target + watched'.total (share target) := by
  have := total_insert (total (share target)) subscribers id watched'
  rwa [h] at this

/-- One watch is replaced. -/
lemma live_insert_insert (h : subscribers.get id = some watched) (key : SubscriberWatchKey)
    (watch : SubscriberWatchState) (target : WatchPath) :
    live (subscribers.insert id (watched.insert key watch)) target + (watched.get key).elim 0 (share target) =
      live subscribers target + share target watch := by
  have ho := total_insert (share target) watched key watch
  have ha := live_insert h (watched.insert key watch) target
  omega

lemma live_insert_remove (h : subscribers.get id = some watched) (key : SubscriberWatchKey) (target : WatchPath) :
    live (subscribers.insert id (watched.remove key)) target + (watched.get key).elim 0 (share target) =
      live subscribers target := by
  have ho := total_remove (share target) watched key
  have ha := live_insert h (watched.remove key) target
  omega

/-- The ids were given out, and every watch that is kept is held at least once. -/
def Held (bound : Nat) (subscribers : Subscribers) : Prop :=
  ∀ id watched, subscribers.get id = some watched →
    id < bound ∧ ∀ key watch, watched.get key = some watch → 0 < watch.count

lemma Held.insert (h : Held bound subscribers) (hid : id < bound)
    (hw : ∀ key watch, watched.get key = some watch → 0 < watch.count) :
      Held bound (subscribers.insert id watched) := by
  intro other watched' hg
  rw [get_insert] at hg
  split at hg
  · rename_i heq
    cases hg
    exact ⟨(show other = id from heq).trans_lt hid, hw⟩
  · exact h other watched' hg

lemma Held.insert_insert (h : Held bound subscribers) (hid : subscribers.get id = some watched) (hw : 0 < watch.count) :
    Held bound (subscribers.insert id (watched.insert key watch)) := by
  obtain ⟨hlt, ha⟩ := h id watched hid
  refine h.insert hlt fun other watched' hg => ?_
  rw [get_insert] at hg
  split at hg
  · cases hg
    exact hw
  · exact ha other watched' hg

lemma Held.insert_remove (h : Held bound subscribers) (hid : subscribers.get id = some watched) :
    Held bound (subscribers.insert id (watched.remove key)) := by
  obtain ⟨hlt, ha⟩ := h id watched hid
  refine h.insert hlt fun other watched' hg => ?_
  rw [get_remove] at hg
  split at hg
  · cases hg
  · exact ha other watched' hg

end Watches

/-! ## Every call -/

namespace WatchState

structure Sound (calls : Nat) (s : WatchState) : Prop where
  counted : s.nextSubscriberId ≤ calls
  exact : Exact s.pathRefCounts (live s.subscribers)
  held : Held s.nextSubscriberId s.subscribers

variable {s : WatchState} {id : Nat}

lemma Sound.succ (h : Sound calls s) : Sound (calls + 1) s := ⟨h.counted.trans (Nat.le_succ _), h.exact, h.held⟩

lemma Sound.registerPaths (h : Sound calls s) : Sound calls (s.registerPaths id rs) := by
  induction rs generalizing s with
  | nil => exact h
  | cons r rs ih => ?_
  unfold WatchState.registerPaths
  rcases hid : s.subscribers.get id with _ | watched
  · exact h
  apply ih
  set watch := registered r (watched.get r.key) with hw
  have hs : ∀ target, share target watch =
      (watched.get r.key).elim 0 (share target) + if target = watch.actual then 1 else 0 := by
    intro target
    rw [hw]
    cases watched.get r.key with
    | none => simp [registered, share]
    | some watch => by_cases ht : target = watch.actual <;> simp [registered, share, ht]
  have hl : live (s.subscribers.insert id (watched.insert r.key watch)) = plus (live s.subscribers) watch.actual 1 := by
    funext target
    have := live_insert_insert hid r.key watch target
    rw [hs] at this
    unfold plus
    omega
  refine ⟨h.counted, ?_, h.held.insert_insert hid ?_⟩
  · rw [hl]
    exact h.exact.increment Nat.one_pos
  · rw [hw]
    cases watched.get r.key <;> simp [registered]

lemma Sound.unregisterPaths (h : Sound calls s) : ∃ s', s.unregisterPaths id released = some s' ∧ Sound calls s' := by
  induction released generalizing s with
  | nil => exact ⟨s, rfl, h⟩
  | cons key released ih => ?_
  unfold WatchState.unregisterPaths
  rcases hid : s.subscribers.get id with _ | watched
  · exact ⟨s, rfl, h⟩
  rcases hk : watched.get key with _ | watch
  · simp only [hk]
    exact ih h
  have hp := (h.held id watched hid).2 key watch hk
  have hl : live s.subscribers =
      plus (live (s.subscribers.insert id (unregistered key watch watched))) watch.actual 1 := by
    funext target
    unfold plus unregistered
    have hr := live_insert_remove hid key target
    have hi := live_insert_insert hid key { watch with count := watch.count - 1 } target
    rw [hk] at hr hi
    split <;> by_cases ht : target = watch.actual <;> simp [share, ht] at hr hi ⊢ <;> omega
  obtain ⟨counts, hc, he⟩ := (hl ▸ h.exact).decrement
  have hh : Held s.nextSubscriberId (s.subscribers.insert id (unregistered key watch watched)) := by
    unfold unregistered
    split
    · exact h.held.insert_remove hid
    · exact h.held.insert_insert hid (by simp only; omega)
  simp only [hk, if_neg (by omega : ¬ watch.count = 0), hc, Option.bind_eq_bind, Option.bind_some]
  exact ih ⟨h.counted, he, hh⟩

lemma Sound.removeSubscriber (h : Sound calls s) (order : Order) : ∃ s', s.removeSubscriber order id = some s' ∧
    Sound calls s' := by
  unfold WatchState.removeSubscriber
  rcases hid : s.subscribers.get id with _ | watched
  · exact ⟨s, rfl, h⟩
  have hl : live s.subscribers = fun target => live (s.subscribers.remove id) target +
      ((order.visit watched.values).map (share target)).sum := by
    funext target
    have := total_remove (total (share target)) s.subscribers id
    rw [hid] at this
    rw [((order.perm watched.values).map _).sum_eq]
    exact this.symm
  obtain ⟨counts, hc, he⟩ := (hl ▸ h.exact).foldlM_decrement
  refine ⟨⟨s.nextSubscriberId, counts, s.subscribers.remove id⟩, by simp [hc], h.counted, he, ?_⟩
  intro other watched' hg
  rw [get_remove] at hg
  split at hg
  · cases hg
  · exact h.held other watched' hg

/-- Once the pending moves are made the counts are exact. -/
def Pending (start : PathRefCounts) (bound : Nat) (n : Notifying) : Prop :=
  ∃ counts, n.actualWatchMoves.foldlM applyActualWatchMove start = some counts ∧ Exact counts (live n.subscribers) ∧
    Held bound n.subscribers

lemma Pending.visitWatch {n : Notifying} (h : Pending start bound n) :
    Pending start bound (visitWatch fs id key n) := by
  obtain ⟨counts, hn, h, hh⟩ := h
  unfold WatchState.visitWatch
  rcases hid : n.subscribers.get id with _ | watched
  · exact ⟨counts, hn, h, hh⟩
  rcases hk : watched.get key with _ | watch
  · simp only [hk]
    exact ⟨counts, hn, h, hh⟩
  simp only [hk]
  set newActual := (actualWatchPath fs key.requested).1
  set rest := live (n.subscribers.insert id (watched.remove key))
  have hp := (hh _ _ hid).2 _ _ hk
  have hr : ∀ target, rest target + _ = _ := live_insert_remove hid key
  have ho : live n.subscribers = plus rest watch.actual watch.count := by
    funext target
    rw [← hr, hk]
    rfl
  have hnew : live (n.subscribers.insert id (watched.insert key ⟨newActual, watch.count⟩)) =
      plus rest newActual watch.count := by
    funext target
    have hi := live_insert_insert hid key ⟨newActual, watch.count⟩ target
    have := hr target
    show _ = rest target + share target ⟨newActual, watch.count⟩
    omega
  have hhe : Held bound (n.subscribers.insert id (watched.insert key ⟨newActual, watch.count⟩)) :=
    hh.insert_insert hid hp
  by_cases hs : watch.actual = newActual
  · rw [if_pos hs]
    refine ⟨counts, hn, ?_, hhe⟩
    rw [hnew, ← hs, ← ho]
    exact h
  rw [ho] at h
  obtain ⟨counts', hc, he⟩ := h.decrement
  refine ⟨counts'.increment newActual watch.count, ?_, ?_, hhe⟩
  · simp [hs, foldlM_append, hn, applyActualWatchMove, hc]
  · rw [hnew]
    exact he.increment hp

lemma Sound.notifySubscribers (h : Sound calls s) : ∃ s', s.notifySubscribers order answers paths = some s' ∧ Sound calls s' := by
  obtain ⟨counts, hc, he, hh⟩ := foldlRecOn (visits order paths s.subscribers).zipIdx
    (fun n v => WatchState.visitWatch (answers v.2) v.1.1 v.1.2 n)
    (show Pending s.pathRefCounts s.nextSubscriberId { subscribers := s.subscribers } from
      ⟨_, rfl, h.exact, h.held⟩) fun n hn v _ => hn.visitWatch
  exact ⟨⟨_, counts, _⟩, congrArg (Option.bind · _) hc, h.counted, he, hh⟩

lemma Sound.step (h : Sound calls s) (event : Event) : ∃ s', s.step event = some s' ∧
    Sound (calls + 1) s' := by
  cases event with
  | addSubscriber =>
    have hn : s.subscribers.get s.nextSubscriberId = none := by
      by_contra hne
      obtain ⟨watched, hg⟩ := Option.ne_none_iff_exists'.mp hne
      exact absurd (h.held _ _ hg).1 (lt_irrefl _)
    refine ⟨s.addSubscriber, rfl, Nat.succ_le_succ h.counted, ?_, ?_⟩
    · have hl : live s.addSubscriber.subscribers = live s.subscribers := by
        funext target
        have := total_insert (total (share target)) s.subscribers s.nextSubscriberId {}
        rw [hn] at this
        exact this
      rw [hl]
      exact h.exact
    · have hh : Held (s.nextSubscriberId + 1) s.subscribers := fun id watched hg =>
        ⟨Nat.lt_succ_of_lt (h.held id watched hg).1, (h.held id watched hg).2⟩
      exact hh.insert (Nat.lt_succ_self _) fun key watch hg => by cases hg
  | registerPaths id requested => exact ⟨_, rfl, h.succ.registerPaths⟩
  | dropRegistration id keys => exact h.succ.unregisterPaths
  | dropSubscriber id order => exact h.succ.removeSubscriber order
  | notifySubscribers paths order answers => exact h.succ.notifySubscribers

end WatchState

/-- Each stored count is the sum over the live watches at the path and the mode, and no subtraction has saturated. -/
theorem counts_exact (events : List WatchState.Event) :
    ∃ s, run WatchState.step {} events = some s ∧ s.nextSubscriberId ≤ events.length ∧
      (∀ path recursive, ((s.pathRefCounts.get path).elim 0 fun counts => counts.count recursive) =
        live s.subscribers ⟨path, recursive⟩) ∧
      ∀ path, (∀ id watched key watch, s.subscribers.get id = some watched → watched.get key = some watch →
        watch.actual.path ≠ path) → s.pathRefCounts.get path = none := by
  obtain ⟨s, hr, hs⟩ : ∃ s, run WatchState.step {} events = some s ∧ s.Sound events.length := by
    induction events using reverseRecOn with
    | nil => exact ⟨{}, rfl, le_rfl, ⟨fun _ => rfl, fun _ _ hg => by cases hg⟩, fun _ _ hg => by cases hg⟩
    | append_singleton events event ih =>
      obtain ⟨s, hr, hs⟩ := ih
      obtain ⟨s', hst, hs'⟩ := hs.step event
      exact ⟨s', run_concat.mpr ⟨s, hr, hst⟩, by rwa [length_append]⟩
  refine ⟨s, hr, hs.counted, fun path recursive => hs.exact.eq ⟨path, recursive⟩, fun path hno => ?_⟩
  have hz : ∀ recursive, live s.subscribers ⟨path, recursive⟩ = 0 := by
    intro recursive
    refine total_eq_zero _ fun id watched hid => total_eq_zero _ fun key watch hk => if_neg fun heq => ?_
    exact hno id watched key watch hid hk (congrArg WatchPath.path heq).symm
  by_contra hne
  obtain ⟨c, hc⟩ := Option.ne_none_iff_exists'.mp hne
  refine Bool.eq_false_iff.mp (hs.exact.filled path c hc) (PathWatchCounts.isEmpty_iff.mpr fun recursive => ?_)
  rw [← hz recursive, ← hs.exact.eq, stored, hc]
  rfl

end Codex.FileWatcher
