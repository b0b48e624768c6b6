import Codex.ApplyPatch.Apply

/-! # A run may fail at any call: while its delta is exact, the delta is all that happened to the files -/

namespace Codex.ApplyPatch

open Codex.Text Program Codex.ApplyPatch.Run Memory

variable {P K E : Type}

/-! ## Replaying changes -/

namespace AppliedPatchChange

/-- The files after a change: what was moved is written at its destination, then removed at its path. -/
def replay [DecidableEq K] (key : P → K) (files : K → Option Text) (c : AppliedPatchChange P) : K → Option Text :=
  match c.change with
  | .add content _ => Function.update files (key c.path) (some content)
  | .delete _ => Function.update files (key c.path) none
  | .update none _ _ newContent => Function.update files (key c.path) (some newContent)
  | .update (some dest) _ _ newContent =>
    Function.update (Function.update files (key dest) (some newContent)) (key c.path) none

/-- The contents that the change says it found. -/
def Records (key : P → K) (files : K → Option Text) (c : AppliedPatchChange P) : Prop :=
  match c.change with
  | .add _ overwrittenContent => files (key c.path) = overwrittenContent
  | .delete content => files (key c.path) = some content
  | .update none oldContent _ _ => files (key c.path) = some oldContent
  | .update (some dest) oldContent overwrittenMoveContent _ =>
    files (key c.path) = some oldContent ∧ files (key dest) = overwrittenMoveContent

end AppliedPatchChange

/-! ## The steps of a hunk -/

structure Wrote (files : K → Option Text) (r t : Run P (Memory K)) : Prop where
  files_eq : t.disk.files = files
  changes_eq : t.delta.changes = r.delta.changes
  exact_le : t.delta.exact = true → r.delta.exact = true

abbrev Quiet (r t : Run P (Memory K)) : Prop := Wrote r.disk.files r t

variable {t s : Run P (Memory K)} {key : P → K}

variable {files : K → Option Text} {ε : Type} {m : Memory K}

lemma Wrote.trans (h : Quiet r s) (h' : Wrote files s t) : Wrote files r t :=
  ⟨h'.files_eq, h'.changes_eq.trans h.changes_eq, fun he => h.exact_le (h'.exact_le he)⟩

variable {api : PathApi P K E} {faults : Nat → Option Fault} {r : Run P (Memory K)} {path : P}

lemma spec_tryWrite {x : Program (Memory K) (ApplyFailure E) Unit}
    (hx : Spec x r.disk (fun _ n => n.files = files) bad) :
    Spec (tryWrite x) r (fun _ t => Wrote files r t) (fun e t => t.delta.exact = false ∧ bad e t.disk) := by
  simp only [tryWrite, spec_bind, spec_attempt, onDisk, spec_zoom]
  exact hx.mono (fun _ n hn => ⟨hn, rfl, id⟩) (fun _ _ hb => ⟨rfl, hb⟩)

variable [DecidableEq K]

lemma spec_noteExistingPathDeltaSupport :
    Spec (noteExistingPathDeltaSupport (fileSystem api.key faults) path : Program _ ε _) r
      (fun _ t => Quiet r t) (fun _ _ => False) := by
  simp only [noteExistingPathDeltaSupport, spec_bind, spec_attempt, onDisk, spec_zoom]
  refine spec_getMetadata.mono ?_ ?_
  · rintro _ m ⟨hf, -⟩
    split
    · exact ⟨hf, rfl, id⟩
    · exact ⟨hf, rfl, by simp [setInexact]⟩
  rintro _ m ⟨hf, -⟩
  split
  · exact ⟨hf, rfl, id⟩
  · exact ⟨hf, rfl, by simp [setInexact]⟩

lemma spec_readOptionalFileTextForDelta :
    Spec (readOptionalFileTextForDelta (fileSystem api.key faults) path : Program _ ε _) r
      (fun o t => Quiet r t ∧ (t.delta.exact → r.disk.files (api.key path) = o)) (fun _ _ => False) := by
  simp only [readOptionalFileTextForDelta, spec_bind]
  refine spec_noteExistingPathDeltaSupport.mono ?_ (fun _ _ => id)
  intro _ s hs
  simp only [spec_attempt, onDisk, spec_zoom]
  refine spec_readFileText.mono ?_ ?_
  · rintro content m ⟨hf, hc⟩
    rw [hs.files_eq] at hf hc
    exact ⟨hs.trans ⟨hf, rfl, id⟩, fun _ => hc⟩
  rintro source m ⟨hf, hm⟩
  rw [hs.files_eq] at hf hm
  split
  · rename_i hk
    exact ⟨hs.trans ⟨hf, rfl, id⟩, fun _ => hm hk⟩
  · exact ⟨hs.trans ⟨hf, rfl, by simp [setInexact]⟩, by simp [setInexact]⟩

lemma spec_writeFileWithMissingParentRetry (txt : Text) :
    Spec (writeFileWithMissingParentRetry api (fileSystem api.key faults) path txt) m
      (fun _ n => n.files = Function.update m.files (api.key path) (some txt)) (fun _ _ => True) := by
  simp only [writeFileWithMissingParentRetry, spec_bind, spec_attempt]
  refine (spec_writeFile txt).mono (fun _ _ => id) ?_
  rintro _ n ⟨left, hl⟩
  split
  · -- Whatever the first write left is written over by the second.
    have ha : ∀ n' : Memory K, n'.files = n.files →
        Spec ((fileSystem api.key faults).writeFile path txt |>.mapError (failedToWrite api path)) n'
          (fun _ n => n.files = Function.update m.files (api.key path) (some txt)) (fun _ _ => True) := by
      intro n' hn'
      rw [spec_mapError]
      refine (spec_writeFile txt).mono ?_ (fun _ _ _ => trivial)
      rintro _ _ hn''
      rw [hn'', hn', hl, Function.update_idem]
    rw [spec_bind, createParent]
    split
    · rw [spec_mapError]
      exact spec_createDirectory.mono (fun _ n' => ha n') (fun _ _ _ => trivial)
    · exact ha n rfl
  · trivial

lemma spec_removeFile (message : Text) (expectedContent : Option Text) :
    Spec (removeFile api (fileSystem api.key faults) message path expectedContent) r
      (fun _ t => Wrote (Function.update r.disk.files (api.key path) none) r t)
      (fun _ t => t.delta.exact → Quiet r t) := by
  simp only [removeFile, ensureNotDirectory, spec_bind, spec_mapError, onDisk, spec_zoom, spec_attempt]
  refine spec_getMetadata.mono ?_ (fun _ m h _ => ⟨h.1, rfl, id⟩)
  rintro _ m ⟨hf, -⟩
  split
  · exact fun _ => ⟨hf, rfl, id⟩
  refine spec_remove.mono ?_ ?_
  · rintro _ n hn
    exact ⟨by rw [hn, hf], rfl, id⟩
  rintro _ n hn
  rcases expectedContent with _ | expected
  · simp [removeFailureWasSideEffectFree, andExact]
  simp only [removeFailureWasSideEffectFree, spec_bind, spec_attempt]
  refine spec_readFileText.mono ?_ ?_
  · rintro _ o ⟨ho, hc⟩ hexa
    -- The file is still there, so the failing removal kept all files.
    have hk : n.files = m.files := by
      rcases hn with hn | hn
      · exact hn
      · rw [hn, Function.update_self] at hc
        simp at hc
    refine ⟨by rw [← hf, ← hk, ← ho]; rfl, rfl, fun he => ?_⟩
    exact (Bool.and_eq_true_iff.mp he).1
  · rintro _ o - hexa
    simp [andExact] at hexa

/-! ## Hunks -/

section

variable (key : P → K) (r t : Run P (Memory K))

def Grew : Prop :=
  ∃ c : AppliedPatchChange P, t.delta.changes = r.delta.changes ++ [c] ∧ c.Records key r.disk.files ∧
    t.disk.files = c.replay key r.disk.files

def Done : Prop :=
  t.delta.exact = true → r.delta.exact = true ∧ Grew key r t

def Failed : Prop :=
  t.delta.exact = true → r.delta.exact = true ∧
    ((t.delta.changes = r.delta.changes ∧ t.disk.files = r.disk.files) ∨ Grew key r t)

end

lemma Quiet.failed (h : Quiet r t) : Failed key r t :=
  fun he => ⟨h.exact_le he, .inl ⟨h.changes_eq, h.files_eq⟩⟩

lemma failed_of_inexact (h : t.delta.exact = false) : Failed key r t := by
  intro he
  simp [h] at he

lemma Quiet.done (h : Quiet r s) (h' : Done key s t) : Done key r t := by
  intro he
  obtain ⟨hs, c, hc, hr, hf⟩ := h' he
  rw [h.files_eq] at hr hf
  exact ⟨h.exact_le hs, c, hc.trans (by rw [h.changes_eq]), hr, hf⟩

lemma Quiet.then_failed (h : Quiet r s) (h' : Failed key s t) : Failed key r t := by
  intro he
  obtain ⟨hs, ⟨hc, hf⟩ | ⟨c, hc, hr, hf⟩⟩ := h' he
  · exact ⟨h.exact_le hs, .inl ⟨hc.trans h.changes_eq, hf.trans h.files_eq⟩⟩
  · rw [h.files_eq] at hr hf
    exact ⟨h.exact_le hs, .inr ⟨c, hc.trans (by rw [h.changes_eq]), hr, hf⟩⟩

lemma spec_applyAdd (txt : Text) :
    Spec (applyAdd api (fileSystem api.key faults) path txt) r (fun _ t => Done api.key r t)
      (fun _ t => Failed api.key r t) := by
  simp only [applyAdd, spec_bind]
  refine spec_readOptionalFileTextForDelta.mono ?_ (fun _ _ => False.elim)
  rintro o s ⟨hs, ho⟩
  refine (spec_tryWrite (spec_writeFileWithMissingParentRetry txt)).mono ?_ (fun _ t ht => failed_of_inexact ht.1)
  intro _ t ht he
  have he' : s.delta.exact := ht.exact_le he
  refine ⟨hs.exact_le he', ⟨path, .add txt o⟩, ?_, ho he', ?_⟩
  · simp [pushChange, ht.changes_eq, hs.changes_eq]
  · exact ht.files_eq.trans (by rw [hs.files_eq]; rfl)

lemma spec_applyDelete :
    Spec (applyDelete api (fileSystem api.key faults) path) r (fun _ t => Done api.key r t)
      (fun _ t => Failed api.key r t) := by
  simp only [applyDelete, spec_bind]
  refine spec_noteExistingPathDeltaSupport.mono ?_ (fun _ _ => False.elim)
  intro _ s hs
  simp only [spec_attempt, onDisk, spec_zoom]
  refine spec_readFileText.mono ?_ ?_
  · rintro content m ⟨hm, hc⟩
    have hr : Quiet s { s with disk := m } := ⟨hm, rfl, id⟩
    simp only [spec_bind]
    refine (spec_removeFile _ _).mono ?_ fun _ t ht he =>
      hs.then_failed (hr.then_failed fun he => (ht he).failed he) he
    intro _ t ht he
    refine hs.done (fun he => ⟨ht.exact_le he, ⟨path, .delete content⟩, ?_, hc, ?_⟩) he
    · simp [pushChange, ht.changes_eq]
    · exact ht.files_eq.trans (by rw [hm]; rfl)
  rintro _ m -
  simp only [spec_bind]
  -- The file could not be read, so the delta is not exact whatever follows.
  have hi : ∀ {t : Run P (Memory K)}, Wrote t.disk.files (setInexact { s with disk := m }) t →
      t.delta.exact = false := by
    intro t ht
    rw [Bool.eq_false_iff]
    exact fun he => by simpa [setInexact] using ht.exact_le he
  refine (spec_removeFile _ _).mono ?_ ?_
  · intro _ t ht he
    simp [hi ⟨rfl, ht.changes_eq, ht.exact_le⟩] at he
  intro _ t ht he
  have hq := ht he
  simp [hi ⟨rfl, hq.changes_eq, hq.exact_le⟩] at he

lemma spec_applyUpdate (patch : AppliedPatch) (ho : r.disk.files (api.key path) = some patch.originalContents) :
    Spec (applyUpdate api (fileSystem api.key faults) path patch) r (fun _ t => Done api.key r t)
      (fun _ t => Failed api.key r t) := by
  simp only [applyUpdate, spec_bind]
  have hw : Spec ((fileSystem api.key faults).writeFile path patch.newContents |>.mapError
      (failedToWrite api path)) r.disk
      (fun _ n => n.files = Function.update r.disk.files (api.key path) (some patch.newContents))
      (fun _ _ => True) :=
    spec_mapError.mpr ((spec_writeFile _).mono (fun _ _ => id) (fun _ _ _ => trivial))
  refine (spec_tryWrite hw).mono ?_ (fun _ t ht => failed_of_inexact ht.1)
  intro _ t ht he
  refine ⟨ht.exact_le he, ⟨path, .update none patch.originalContents none patch.newContents⟩, ?_, ho, ht.files_eq⟩
  simp [pushChange, ht.changes_eq]

lemma spec_applyMove (cwd : P) (dest : Text) (patch : AppliedPatch)
    (hol : r.disk.files (api.key path) = some patch.originalContents) :
    Spec (applyMove api (fileSystem api.key faults) cwd path dest patch) r (fun _ t => Done api.key r t)
      (fun _ t => Failed api.key r t) := by
  simp only [applyMove, spec_bind]
  rcases api.join cwd dest with e | destUri
  · exact Quiet.failed ⟨rfl, rfl, id⟩
  refine spec_readOptionalFileTextForDelta.mono ?_ (fun _ _ => False.elim)
  rintro o s ⟨hs, ho⟩
  refine (spec_tryWrite (spec_writeFileWithMissingParentRetry _)).mono ?_ (fun _ t ht => failed_of_inexact ht.1)
  intro _ t ht
  have hf : t.disk.files =
      Function.update r.disk.files (api.key destUri) (some patch.newContents) := by
    rw [ht.files_eq, hs.files_eq]
  have hc : t.delta.changes = r.delta.changes := ht.changes_eq.trans hs.changes_eq
  refine (spec_removeFile _ _).mono ?_ ?_
  · intro _ u hu he
    have he' : s.delta.exact := ht.exact_le (hu.exact_le he)
    refine ⟨hs.exact_le he', ⟨path, .update (some destUri) patch.originalContents o patch.newContents⟩,
      ?_, ⟨hol, ho he'⟩, ?_⟩
    · simp [replaceLastChange, hu.changes_eq, pushChange, hc]
    show u.disk.files = Function.update (Function.update r.disk.files _ _) _ none
    rw [hu.files_eq, ← hf]
    rfl
  -- The destination is written and recorded, and the original is still there.
  intro _ u hu he
  have hq := hu he
  have he' : s.delta.exact := ht.exact_le (hq.exact_le he)
  refine ⟨hs.exact_le he', .inr ⟨⟨destUri, .add patch.newContents o⟩, ?_, ho he', ?_⟩⟩
  · simp [hq.changes_eq, pushChange, hc]
  · exact hq.files_eq.trans hf

lemma spec_deriveNewContentsFromChunks (chunks : List UpdateFileChunk) :
    Spec (deriveNewContentsFromChunks api (fileSystem api.key faults) path chunks) m
      (fun patch n => n.files = m.files ∧ m.files (api.key path) = some patch.originalContents)
      (fun _ n => n.files = m.files) := by
  simp only [deriveNewContentsFromChunks, spec_bind, spec_mapError]
  refine spec_readFileText.mono ?_ (fun _ _ h => h.1)
  rintro content n ⟨hn, hc⟩
  cases newContents (api.inferredNativePathString path) chunks content with
  | error e => exact hn
  | ok new => exact ⟨hn, hc⟩

lemma spec_applyHunk (cwd : P) (hunk : Hunk) :
    Spec (applyHunk api (fileSystem api.key faults) cwd hunk) r (fun _ t => Done api.key r t)
      (fun _ t => Failed api.key r t) := by
  simp only [applyHunk, spec_bind]
  rcases hunk.resolvePath api cwd with e | path
  · exact Quiet.failed ⟨rfl, rfl, id⟩
  cases hunk with
  | addFile _ txt =>
    simp only [spec_bind]
    exact (spec_applyAdd txt).mono (fun _ _ => id) (fun _ _ => id)
  | deleteFile _ =>
    simp only [spec_bind]
    exact spec_applyDelete.mono (fun _ _ => id) (fun _ _ => id)
  | updateFile _ movePath chunks => ?_
  simp only [spec_bind, spec_mapError, onDisk, spec_zoom]
  refine spec_noteExistingPathDeltaSupport.mono ?_ (fun _ _ => False.elim)
  intro _ s hs
  refine (spec_deriveNewContentsFromChunks chunks).mono ?_ ?_
  · rintro patch m ⟨hm, ho⟩
    have hr : Quiet r { s with disk := m } := hs.trans ⟨hm.trans hs.files_eq, rfl, id⟩
    have ho' : m.files (api.key path) = some patch.originalContents := hm ▸ ho
    cases movePath with
    | some dest =>
      simp only [spec_bind]
      exact (spec_applyMove cwd dest patch ho').mono (fun _ _ ht => hr.done ht) (fun _ _ ht => hr.then_failed ht)
    | none =>
      simp only [spec_bind]
      exact (spec_applyUpdate patch ho').mono (fun _ _ ht => hr.done ht) (fun _ _ ht => hr.then_failed ht)
  · intro _ m hm
    exact Quiet.failed (hs.trans ⟨hm.trans hs.files_eq, rfl, id⟩)

/-! ## Whole runs -/

def replay (key : P → K) (files : K → Option Text) (changes : List (AppliedPatchChange P)) : K → Option Text :=
  changes.foldl (AppliedPatchChange.replay key) files

lemma applyHunks_exact (cwd : P) (hunks : List Hunk)
    (hru : (applyHunks api (fileSystem api.key faults) cwd hunks).exec r = (result, t))
    (he : t.delta.exact) :
    r.delta.exact ∧ ∃ changes, t.delta.changes = r.delta.changes ++ changes ∧
      replay api.key r.disk.files changes = t.disk.files ∧
      ∀ i (c : AppliedPatchChange P), changes[i]? = some c → c.Records api.key
        ((applyHunks api (fileSystem api.key faults) cwd (hunks.take i)).exec r).2.disk.files := by
  induction hunks generalizing r with
  | nil =>
    obtain ⟨-, rfl⟩ := Prod.mk.inj hru
    exact ⟨he, [], by simp, rfl, by simp⟩
  | cons hunk hunks ih => ?_
  have hsp : Spec (applyHunk api (fileSystem api.key faults) cwd hunk) r (fun _ t => Done api.key r t)
    (fun _ t => Failed api.key r t) := spec_applyHunk cwd hunk
  cases hst : (applyHunk api (fileSystem api.key faults) cwd hunk).exec r with
  | mk stepped s =>
    have hp := hsp.exec hst
    rcases stepped with e | u
    · rw [applyHunks, exec_bind_error hst] at hru
      obtain ⟨-, rfl⟩ := Prod.mk.inj hru
      obtain ⟨hr, ⟨hch, hf⟩ | ⟨c, hch, hre, hf⟩⟩ := hp he
      · exact ⟨hr, [], by simp [hch], hf.symm, by simp⟩
      refine ⟨hr, [c], hch, hf.symm, fun i c' hc' => ?_⟩
      obtain ⟨rfl, rfl⟩ : i = 0 ∧ c = c' := by
        cases i with
        | zero => simpa using hc'
        | succ i => simp at hc'
      exact hre
    rw [applyHunks, exec_bind_ok hst] at hru
    obtain ⟨hs, changes, hch, hrep, hre⟩ := ih hru
    obtain ⟨hr, c, hc, hrec, hf⟩ := hp hs
    refine ⟨hr, c :: changes, by rw [hch, hc]; simp, ?_, fun i c' hc' => ?_⟩
    · rw [replay, List.foldl_cons, ← hf]
      exact hrep
    cases i with
    | zero =>
      obtain rfl : c = c' := by simpa using hc'
      exact hrec
    | succ i =>
      rw [List.take_succ_cons, applyHunks, exec_bind_ok hst]
      exact hre i c' (by simpa using hc')

/-- **An exact delta is exact, whatever fails.** Replayed on the first files it gives the last ones. -/
theorem applyHunksToFiles_exact (api : PathApi P K E) (faults : Nat → Option Fault) (start : Memory K) (cwd : P)
    (hunks : List Hunk) (result : Except (ApplyFailure E) Unit) (t : Run P (Memory K))
    (hrun : (applyHunksToFiles api (fileSystem api.key faults) cwd hunks).exec { disk := start } = (result, t))
    (hexact : t.delta.exact = true) :
    replay api.key start.files t.delta.changes = t.disk.files ∧
      ∀ i (c : AppliedPatchChange P), t.delta.changes[i]? = some c → c.Records api.key
        ((applyHunks api (fileSystem api.key faults) cwd (hunks.take i)).exec
          { disk := start }).2.disk.files := by
  unfold applyHunksToFiles at hrun
  split at hrun
  · obtain ⟨-, rfl⟩ := Prod.mk.inj hrun
    exact ⟨rfl, by simp⟩
  obtain ⟨-, changes, hc, hre, hr⟩ := applyHunks_exact cwd hunks hrun hexact
  rw [hc]
  exact ⟨hre, hr⟩

def seventhFault : Nat → Option Fault
  | 6 => some { error := ⟨.other, "Resource busy"⟩, left := none, deleted := false }
  | _ => none

def twoInB : Memory PathUri.Identity where
  files := Function.update (fun _ => none) ((pathUriApi .plain).key (plainUri "/w/b")) (some "two\n".toList)

def brokenRun : Except (ApplyFailure PathUriParseError) Unit × Run PathUri (Memory PathUri.Identity) :=
  (applyHunksToFiles (pathUriApi .plain) (fileSystem (pathUriApi .plain).key seventhFault) (plainUri "/w")
    [.addFile "a" "one\n", .deleteFile "b"]).exec { disk := twoInB }

theorem applyHunksToFiles_exact_brokenRun :
    brokenRun.1.isOk = false ∧ brokenRun.2.delta.exact = true ∧ brokenRun.2.delta.changes.length = 1 ∧
      replay (pathUriApi .plain).key twoInB.files brokenRun.2.delta.changes = brokenRun.2.disk.files :=
  ⟨by decide, by decide, by decide,
    (applyHunksToFiles_exact (pathUriApi .plain) seventhFault twoInB (plainUri "/w")
      [.addFile "a" "one\n", .deleteFile "b"] brokenRun.1 brokenRun.2 rfl (by decide)).1⟩

end Codex.ApplyPatch
