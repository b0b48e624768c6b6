import Codex.ApplyPatch.Delta
import Codex.TurnDiff.Pairs

/-! # The tracker follows the files: baselines are first contents, current entries present ones -/

namespace Codex.TurnDiff

open Codex.Text Codex.ApplyPatch TurnDiffTracker Function

/-! ## What deltas record -/

abbrev Files := Text × PathUri.Identity → Option Text

def pathKey (c : UrlCrates) (environmentId : Text) (path : PathUri) : Text × PathUri.Identity :=
  TrackedPath.key c ⟨environmentId, path⟩

/-- The contents that a change leaves. A file moved onto itself stays. -/
def Leaves (key : PathUri → Text × PathUri.Identity) (change : AppliedPatchChange PathUri) (s t : Files) : Prop :=
  match change.change with
  | .add content _ => t (key change.path) = some content ∧ ∀ k, k ≠ key change.path → t k = s k
  | .delete _ => t (key change.path) = none ∧ ∀ k, k ≠ key change.path → t k = s k
  | .update none _ _ newContent =>
    t (key change.path) = some newContent ∧ ∀ k, k ≠ key change.path → t k = s k
  | .update (some dest) _ _ newContent =>
    t (key dest) = some newContent ∧ (key change.path ≠ key dest → t (key change.path) = none) ∧
      ∀ k, k ≠ key change.path → k ≠ key dest → t k = s k

/-- But for a file moved onto itself, these are the contents that the run of the patch leaves. -/
lemma leaves_iff_replay {key : PathUri → Text × PathUri.Identity} {change : AppliedPatchChange PathUri} {s t : Files}
    (hself : ∀ dest old overwritten new, change.change = .update (some dest) old overwritten new →
      key change.path ≠ key dest) : Leaves key change s t ↔ t = change.replay key s := by
  obtain ⟨path, change⟩ := change
  rcases change with ⟨content, _⟩ | _ | ⟨_ | dest, _, _, new⟩
  · exact eq_update_iff.symm
  · exact eq_update_iff.symm
  · exact eq_update_iff.symm
  have hne : key path ≠ key dest := hself _ _ _ _ rfl
  refine Iff.trans ?_ eq_update_iff.symm
  constructor
  · rintro ⟨hd, hp, ho⟩
    refine ⟨hp hne, fun k hk => ?_⟩
    by_cases hkd : k = key dest
    · rw [hkd, update_self, hd]
    · rw [update_of_ne hkd, ho k hk hkd]
  · rintro ⟨hp, ho⟩
    refine ⟨by rw [ho _ hne.symm, update_self], fun _ => hp, fun k hk hkd => ?_⟩
    rw [ho k hk, update_of_ne hkd]

def RecordedChanges (key : PathUri → Text × PathUri.Identity) : Files → List (AppliedPatchChange PathUri) → Files → Prop
  | s, [], t => t = s
  | s, change :: changes, t =>
    ∃ m, change.Records key s ∧ Leaves key change s m ∧ RecordedChanges key m changes t

structure Step where
  it : Iteration
  environmentId : Text
  delta : AppliedPatchDelta PathUri

/-- What a series of deltas records. -/
def Recorded (c : UrlCrates) : Files → List Step → Files → Prop
  | s, [], t => t = s
  | s, step :: steps, t =>
    ∃ m, RecordedChanges (pathKey c step.environmentId) s step.delta.changes m ∧ Recorded c m steps t

variable {c : UrlCrates} {crates : DiffCrates} {t : TurnDiffTracker c} {first now : Files} {path : TrackedPath}

def trackAll (crates : DiffCrates) (t : TurnDiffTracker c) (steps : List Step) : TurnDiffTracker c :=
  steps.foldl (fun t step => t.trackDelta crates step.it step.environmentId step.delta) t

/-! ## One path -/

def baselineAt (t : TurnDiffTracker c) (path : TrackedPath) : Option Text :=
  (t.baselineByPath.get path).map (·.content)

def currentAt (t : TurnDiffTracker c) (path : TrackedPath) : Option Text :=
  (t.currentByPath.get path).map (·.content)

/-- The entries say how the first and present files differ. -/
structure Follows (first now : Files) (t : TurnDiffTracker c) : Prop where
  baseline : ∀ path content, baselineAt t path = some content → first (path.key c) = some content
  current : ∀ path content, currentAt t path = some content → now (path.key c) = some content
  added : ∀ path, t.currentByPath.contains path → ¬ t.baselineByPath.contains path → first (path.key c) = none
  deleted : ∀ path, t.baselineByPath.contains path → ¬ t.currentByPath.contains path → now (path.key c) = none
  unchanged : ∀ path, ¬ t.baselineByPath.contains path → ¬ t.currentByPath.contains path →
    now (path.key c) = first (path.key c)

def Mirrors (first now : Files) (t : TurnDiffTracker c) : Prop :=
  ∀ path : TrackedPath, (baselineAt t path = first (path.key c) ∧ currentAt t path = now (path.key c)) ∨
    (baselineAt t path = none ∧ currentAt t path = none ∧ now (path.key c) = first (path.key c))

lemma contains_baseline : t.baselineByPath.contains path = (baselineAt t path).isSome := by
  unfold HashMap.contains baselineAt
  rw [Option.isSome_map]

lemma contains_current : t.currentByPath.contains path = (currentAt t path).isSome := by
  unfold HashMap.contains currentAt
  rw [Option.isSome_map]

lemma Mirrors.follows (h : Mirrors first now t) : Follows first now t := by
  constructor <;> intro path
  · intro content hco
    obtain ⟨hb, -⟩ | ⟨hb, -, -⟩ := h path <;> simp_all
  · intro content hco
    obtain ⟨-, hc⟩ | ⟨-, hc, -⟩ := h path <;> simp_all
  all_goals
    rw [contains_baseline, contains_current]
    obtain ⟨hb, hc⟩ | ⟨hb, hc, heq⟩ := h path
    · rw [hb, hc]
      cases first (path.key c) <;> cases now (path.key c) <;> simp
    · simp [hb, hc, heq]

lemma mirrors_empty (roots : List (Text × PathUri)) :
    Mirrors first first (withEnvironmentDisplayRoots roots : TurnDiffTracker c) :=
  fun _ => .inr ⟨rfl, rfl, rfl⟩

/-! ## The operations -/

variable {next : Files} {q : TrackedPath} {old : Option Text}

lemma at_congr (hq : q.key c = path.key c) : baselineAt t q = baselineAt t path ∧
    currentAt t q = currentAt t path := by
  unfold baselineAt currentAt
  rw [HashMap.get_congr _ hq, HashMap.get_congr _ hq]
  exact ⟨rfl, rfl⟩

lemma currentAt_captureBaseline (old : Option Text) (q : TrackedPath) :
    currentAt (t.captureBaseline path old) q = currentAt t q := by
  unfold captureBaseline
  cases old with
  | none => rfl
  | some content => dsimp only; split <;> rfl

lemma baselineAt_captureBaseline (old : Option Text) (q : TrackedPath) :
    baselineAt (t.captureBaseline path old) q =
      if q.key c = path.key c ∧ baselineAt t path = none ∧ currentAt t path = none then old
      else baselineAt t q := by
  unfold captureBaseline
  rw [contains_baseline, contains_current]
  cases old with
  | none => ?_
  | some content =>
    cases hc : currentAt t path <;> cases hb : baselineAt t path <;> simp [baselineAt, HashMap.get_insert] at *
    split <;> simp_all
  dsimp only
  split
  · rename_i h
    rw [(at_congr h.1).1, h.2.1]
  · rfl

def Capturable (first now : Files) (t : TurnDiffTracker c) (path : TrackedPath) : Prop :=
  (if baselineAt t path = none ∧ currentAt t path = none then now (path.key c) else baselineAt t path) =
    first (path.key c)

lemma Mirrors.capturable (h : Mirrors first now t) (path : TrackedPath) : Capturable first now t path := by
  unfold Capturable
  obtain ⟨hb, hc⟩ | ⟨hb, hc, heq⟩ := h path
  · rw [hb, hc]
    split
    · rename_i hn
      rw [hn.1, hn.2]
    · rfl
  · rw [if_pos ⟨hb, hc⟩, heq]

lemma Capturable.baselineAt_eq (h : Capturable first now t path) (hold : now (path.key c) = old) :
    baselineAt (t.captureBaseline path old) path = first (path.key c) := by
  rw [baselineAt_captureBaseline, ← hold, ← h]
  simp only [true_and]

lemma Capturable.baselineAt_stays (h : Capturable first now t q) (hold : now (path.key c) = old)
    (hb : baselineAt t q = first (q.key c)) :
    baselineAt (t.captureBaseline path old) q = first (q.key c) := by
  rw [baselineAt_captureBaseline]
  split
  · rename_i hq
    rw [← (at_congr hq.1).1, ← (at_congr hq.1).2] at hq
    unfold Capturable at h
    rw [if_pos hq.2, hq.1, hold] at h
    rw [h, hq.1]
  · exact hb

lemma Capturable.captureBaseline (h : Capturable first now t q) (hold : now (path.key c) = old) :
    Capturable first now (t.captureBaseline path old) q := by
  by_cases hq : q.key c = path.key c
  · have hp : Capturable first now t path := by
      unfold Capturable at h ⊢
      rwa [hq, (at_congr hq).1, (at_congr hq).2] at h
    unfold Capturable
    rw [(at_congr hq).1, (at_congr hq).2, currentAt_captureBaseline, hp.baselineAt_eq hold, hq]
    split
    · -- Nothing was captured, so the path is absent now as it was at first.
      rename_i hn
      unfold Capturable at hp
      by_cases hb : baselineAt t path = none
      · rwa [if_pos ⟨hb, hn.2⟩] at hp
      · rw [if_neg fun hand => hb hand.1, hn.1] at hp
        exact absurd hp hb
    · rfl
  have hba : baselineAt (t.captureBaseline path old) q = baselineAt t q := by
    rw [baselineAt_captureBaseline, if_neg fun hand => hq hand.1]
  unfold Capturable
  rw [currentAt_captureBaseline, hba]
  exact h

/-! ## The changes -/

lemma currentAt_setCurrent (content : Text) (q : TrackedPath) :
    currentAt (t.setCurrent path content) q = if q.key c = path.key c then some content else currentAt t q := by
  unfold currentAt setCurrent
  rw [HashMap.get_insert]
  split <;> rfl

lemma currentAt_remove (q : TrackedPath) :
    ((t.currentByPath.remove path).get q).map (·.content) =
      if q.key c = path.key c then none else currentAt t q := by
  unfold currentAt
  rw [HashMap.get_remove]
  split <;> rfl

lemma baselineAt_setCurrent (content : Text) (q : TrackedPath) :
    baselineAt (t.setCurrent path content) q = baselineAt t q := rfl

lemma Mirrors.change_one {u : TurnDiffTracker c} (h : Mirrors first now t)
    (hnex : next (path.key c) = o ∧ ∀ k, k ≠ path.key c → next k = now k)
    (hb : baselineAt u path = first (path.key c)) (hc : currentAt u path = o)
    (hr : ∀ q : TrackedPath, q.key c ≠ path.key c → baselineAt u q = baselineAt t q ∧ currentAt u q = currentAt t q) :
    Mirrors first next u := by
  intro q
  by_cases hq : q.key c = path.key c
  · rw [hq, (at_congr hq).1, (at_congr hq).2]
    exact .inl ⟨hb, hc.trans hnex.1.symm⟩
  · rw [hnex.2 _ hq, (hr q hq).1, (hr q hq).2]
    exact h q

variable {content new environmentId : Text} {overwritten : Option Text}

section Written

variable (h : Mirrors first now t) (hold : now (path.key c) = overwritten)
  (hnex : next (path.key c) = some content ∧ ∀ k, k ≠ path.key c → next k = now k)

include h hold hnex

lemma Mirrors.overwrite :
    Mirrors first next ((t.captureBaseline path overwritten).setCurrent path content) := by
  apply h.change_one hnex
  · exact (h.capturable path).baselineAt_eq hold
  · rw [currentAt_setCurrent, if_pos rfl]
  · intro q hq
    rw [currentAt_setCurrent, if_neg hq, baselineAt_setCurrent, currentAt_captureBaseline,
      baselineAt_captureBaseline, if_neg fun hand => hq hand.1]
    exact ⟨rfl, rfl⟩

lemma Mirrors.applyAdd :
    Mirrors first next (t.applyAdd path content overwritten) := by
  have h' : Mirrors first now { t with originByCurrentPath := t.originByCurrentPath.remove path } := h
  exact h'.overwrite hold hnex

end Written

lemma applyDelete_baselineByPath (content : Text) :
    (t.applyDelete path content).baselineByPath = (t.captureBaseline path (some content)).baselineByPath := by
  unfold TurnDiffTracker.applyDelete captureBaseline
  cases hc : t.currentByPath.contains path <;> cases hb : t.baselineByPath.contains path <;> simp [hb]

lemma applyDelete_currentByPath (content : Text) :
    (t.applyDelete path content).currentByPath = t.currentByPath.remove path := by
  unfold TurnDiffTracker.applyDelete
  dsimp only
  split <;> rfl

section Mirroring

variable (h : Mirrors first now t)

include h

lemma Mirrors.applyDelete (hold : now (path.key c) = some content)
    (hnex : next (path.key c) = none ∧ ∀ k, k ≠ path.key c → next k = now k) :
    Mirrors first next (t.applyDelete path content) := by
  have hb : ∀ q, baselineAt (t.applyDelete path content) q =
      baselineAt (t.captureBaseline path (some content)) q := by
    unfold baselineAt
    rw [applyDelete_baselineByPath]
    exact fun _ => rfl
  have hc : ∀ q : TrackedPath, currentAt (t.applyDelete path content) q =
      if q.key c = path.key c then none else currentAt t q := by
    intro q
    rw [← currentAt_remove, ← applyDelete_currentByPath]
    rfl
  apply h.change_one hnex
  · rw [hb]
    exact (h.capturable path).baselineAt_eq hold
  · rw [hc, if_pos rfl]
  · intro q hq
    rw [hb, hc, if_neg hq, baselineAt_captureBaseline, if_neg fun hand => hq hand.1]
    exact ⟨rfl, rfl⟩

lemma Mirrors.applyUpdate {old : Text} (overwritten : Option Text)
    (hold : now (path.key c) = some old)
    (hnex : next (path.key c) = some new ∧ ∀ k, k ≠ path.key c → next k = now k) :
    Mirrors first next (t.applyUpdate path none old overwritten new) :=
  h.overwrite hold hnex

lemma Mirrors.applyMove {old : Text}
    (hold : now (path.key c) = some old) (ho : now (dest.key c) = overwritten)
    (hde : next (dest.key c) = some new) (hso : path.key c ≠ dest.key c → next (path.key c) = none)
    (hr : ∀ k, k ≠ path.key c → k ≠ dest.key c → next k = now k) :
    Mirrors first next (t.applyUpdate path (some dest) old overwritten new) := by
  let u := t.captureBaseline path (some old)
  have hb : ∀ q, baselineAt (t.applyUpdate path (some dest) old overwritten new) q =
      baselineAt (u.captureBaseline dest overwritten) q := fun _ => rfl
  have hc : ∀ q : TrackedPath, currentAt (t.applyUpdate path (some dest) old overwritten new) q =
      if q.key c = dest.key c then some new else if q.key c = path.key c then none else currentAt t q := by
    intro q
    show ((((u.captureBaseline dest overwritten).currentByPath.remove path).insert dest _).get q).map (·.content) = _
    rw [HashMap.get_insert]
    split
    · rfl
    · rw [currentAt_remove, currentAt_captureBaseline, currentAt_captureBaseline]
  have hca : ∀ q, Capturable first now u q := fun q => (h.capturable q).captureBaseline hold
  intro q
  rw [hb, hc]
  by_cases hd : q.key c = dest.key c
  · rw [if_pos hd, hd, (at_congr hd).1]
    exact .inl ⟨(hca dest).baselineAt_eq ho, hde.symm⟩
  rw [if_neg hd]
  by_cases hs : q.key c = path.key c
  · rw [if_pos hs, hs, (at_congr hs).1, hso fun heq => hd (hs.trans heq)]
    exact .inl ⟨(hca path).baselineAt_stays ho ((h.capturable path).baselineAt_eq hold), rfl⟩
  rw [if_neg hs, hr _ hs hd, baselineAt_captureBaseline, if_neg fun hand => hd hand.1,
    baselineAt_captureBaseline, if_neg fun hand => hs hand.1]
  exact h q

lemma Mirrors.applyChange (hr : change.Records (pathKey c environmentId) now)
    (hl : Leaves (pathKey c environmentId) change now next) :
    Mirrors first next (t.applyChange environmentId change) := by
  obtain ⟨_, change⟩ := change
  cases change with
  | add content overwritten => exact h.applyAdd hr hl
  | delete content => exact h.applyDelete hr hl
  | update movePath old overwritten new => ?_
  cases movePath with
  | none => exact h.applyUpdate overwritten hr hl
  | some dest => exact h.applyMove hr.1 hr.2 hl.1 hl.2.1 hl.2.2

end Mirroring

lemma Mirrors.applyChanges (h : Mirrors first now t)
    (hrec : RecordedChanges (pathKey c environmentId) now changes next) :
    Mirrors first next (changes.foldl (·.applyChange environmentId) t) := by
  induction changes generalizing t now with
  | nil => rwa [show next = now from hrec]
  | cons change changes ih =>
    obtain ⟨m, hr, hl, hre⟩ := hrec
    exact ih (h.applyChange hr hl) hre

/-! ## Runs -/

lemma valid_captureBaseline (old : Option Text) : (t.captureBaseline path old).valid = t.valid := by
  unfold captureBaseline
  cases old with
  | none => rfl
  | some content => dsimp only; split <;> rfl

lemma valid_applyChange (environmentId : Text) (change : AppliedPatchChange PathUri) :
    (t.applyChange environmentId change).valid = t.valid := by
  obtain ⟨_, change⟩ := change
  cases change with
  | add content overwritten => exact valid_captureBaseline overwritten
  | delete content => ?_
  | update movePath old overwritten new =>
    cases movePath with
    | none => exact valid_captureBaseline (some old)
    | some dest => exact (valid_captureBaseline overwritten).trans (valid_captureBaseline (some old))
  show (t.applyDelete _ content).valid = t.valid
  unfold TurnDiffTracker.applyDelete
  dsimp only
  split <;> rfl

lemma valid_applyChanges (environmentId : Text) (changes : List (AppliedPatchChange PathUri)) :
    (changes.foldl (·.applyChange environmentId) t).valid = t.valid := by
  induction changes generalizing t with
  | nil => rfl
  | cons change changes ih => exact ih.trans (valid_applyChange environmentId change)

lemma Mirrors.trackAll (h : Mirrors first now t) (hv : t.valid)
    (he : ∀ step ∈ steps, step.delta.exact) (hre : Recorded c now steps next) :
    Mirrors first next (TurnDiff.trackAll crates t steps) := by
  induction steps generalizing t now with
  | nil => rwa [show next = now from hre]
  | cons step steps ih => ?_
  obtain ⟨m, hc, hr⟩ := hre
  have hst : t.trackDelta crates step.it step.environmentId step.delta =
      (step.delta.changes.foldl (·.applyChange step.environmentId) t).refreshUnifiedDiff crates step.it := by
    unfold trackDelta
    simp [hv, he step]
  unfold TurnDiff.trackAll
  rw [List.foldl_cons, hst]
  -- A refresh leaves the maps and the validity as they are.
  refine ih ?_ ?_ (fun s hs => he s (List.mem_cons_of_mem _ hs)) hr
  · exact h.applyChanges hc
  · exact (valid_applyChanges _ _).trans hv

/-- **The turn diff tracks the real files**, however a refresh visits the maps. -/
theorem tracker_follows (crates : DiffCrates) (roots : List (Text × PathUri)) (first now : Files)
    (steps : List Step) (it : Iteration) (hexact : ∀ step ∈ steps, step.delta.exact = true)
    (hrec : Recorded c first steps now) :
    let t : TurnDiffTracker c := TurnDiff.trackAll crates (withEnvironmentDisplayRoots roots) steps
    Follows first now t ∧
      (∀ path, t.baselineByPath.contains path → ((t.diffPairs it).map (·.1.key c)).count (path.key c) = 1) ∧
      ∀ path, t.currentByPath.contains path → ((t.diffPairs it).map (·.2.key c)).count (path.key c) = 1 := by
  intro t
  refine ⟨?_, fun _ => diffPairs_count_left, fun _ => diffPairs_count_right⟩
  have h : Mirrors first now t := (mirrors_empty roots).trackAll rfl hexact hrec
  exact h.follows

def addThenMove : List Step :=
  let it : Iteration := ⟨.same, .same, .same⟩
  [⟨it, [], { changes := [⟨plainUri "/a", .add "x\n" none⟩] }⟩,
    ⟨it, [], { changes := [⟨plainUri "/a", .update (some (plainUri "/b")) "x\n" none "y\n"⟩] }⟩]

theorem tracker_follows_addThenMove : Follows (c := .plain) (fun _ => none)
      (Function.update (fun _ => none) (pathKey .plain [] (plainUri "/b")) (some "y\n".toList))
      (TurnDiff.trackAll ⟨id, fun _ new _ _ => new⟩ (withEnvironmentDisplayRoots [([], plainUri "/")])
        addThenMove) := by
  let a := pathKey .plain [] (plainUri "/a")
  let b := pathKey .plain [] (plainUri "/b")
  have hne : a ≠ b := by decide
  refine (tracker_follows _ _ _ _ addThenMove ⟨.same, .same, .same⟩ (by simp [addThenMove]) ?_).1
  refine ⟨Function.update (fun _ => none) a (some "x\n".toList), ⟨_, rfl, ⟨?_, ?_⟩, rfl⟩, _,
    ⟨_, ⟨?_, ?_⟩, ⟨?_, ?_, ?_⟩, rfl⟩, rfl⟩
  · exact update_self ..
  · exact fun k hk => update_of_ne hk ..
  · exact update_self ..
  · exact update_of_ne hne.symm ..
  · exact update_self ..
  · exact fun _ => update_of_ne hne ..
  · intro k hka hkb
    rw [update_of_ne hka]
    exact update_of_ne hkb ..

end Codex.TurnDiff
