import Codex.Plan
import Codex.ApplyPatch.Delta
import Codex.ApplyPatch.Parser
import Codex.ApplyPatch.Verify

/-!
# What is approved and what is written

Verification computes every change on the files as they are, and the run applies the hunks one after another.
-/

namespace Codex.ApplyPatch

open Codex.Text Codex.Result Codex.Plan Program Codex.ApplyPatch.Run Memory List

variable {P K E : Type}

/-! ## The approved files -/

def ApplyPatchFileChange.HoldsIn (key : P → K) (path : P) (t : K → Option Text) : ApplyPatchFileChange P → Prop
  | add content => t (key path) = some content
  | delete _ => t (key path) = none
  | update _ none newContent => t (key path) = some newContent
  | update _ (some dest) newContent =>
    t (key dest) = some newContent ∧ (key path ≠ key dest → t (key path) = none)

def ApplyPatchFileChange.dest : ApplyPatchFileChange P → Option P
  | update _ movePath _ => movePath
  | _ => none

/-- The files after the changes, and no others changed. -/
structure Written (key : P → K) (files : K → Option Text) (changes : List (P × ApplyPatchFileChange P))
    (t : K → Option Text) : Prop where
  changed : ∀ c ∈ changes, c.2.HoldsIn key c.1 t
  unchanged : ∀ k, (∀ c ∈ changes, key c.1 ≠ k ∧ c.2.dest.map key ≠ some k) → t k = files k

/-! ## Hunks as operations -/

def editOf (api : PathApi P K E) (path : P) (chunks : List UpdateFileChunk) (contents : Text) : Option Text :=
  (newContents (api.inferredNativePathString path) chunks contents).toOption

def updateOp (api : PathApi P K E) (path : P) (chunks : List UpdateFileChunk) : Option P → Op K Text
  | none => .edit (api.key path) (editOf api path chunks)
  | some dest => .transfer (api.key path) (editOf api path chunks) (api.key dest)

def hunkOp (api : PathApi P K E) (cwd : P) (hunk : Hunk) : Except E (Op K Text) := do
  let path ← hunk.resolvePath api cwd
  match hunk with
  | .addFile _ contents => return .write (api.key path) contents
  | .deleteFile _ => return .remove (api.key path)
  | .updateFile _ movePath chunks => return updateOp api path chunks (← joinOptional api cwd movePath)

def hunkOps (api : PathApi P K E) (cwd : P) : List Hunk → Except E (List (Op K Text))
  | [] => return []
  | hunk :: hunks => return (← hunkOp api cwd hunk) :: (← hunkOps api cwd hunks)

variable [DecidableEq K]

/-! ## The run -/

variable {api : PathApi P K E} {r : Run P (Memory K)} {path : P}

variable {files : K → Option Text} {key : P → K} {m : Memory K} {c : P × ApplyPatchFileChange P}
  {op : Op K Text}

lemma spec_deriveNewContents_noFaults (chunks : List UpdateFileChunk) :
    Spec (deriveNewContentsFromChunks api (fileSystem api.key noFaults) path chunks) m
      (fun patch n => n.files = m.files ∧ m.files (api.key path) = some patch.originalContents ∧
        (m.files (api.key path)).bind (editOf api path chunks) = some patch.newContents)
      (fun _ n => n.files = m.files ∧ (m.files (api.key path)).bind (editOf api path chunks) = none) := by
  simp only [deriveNewContentsFromChunks, spec_bind, spec_mapError]
  refine spec_readFileText_noFaults.mono ?_ (fun _ n h => ⟨h.1, by simp [h.2]⟩)
  rintro content n ⟨hn, hc⟩
  cases hnew : newContents (api.inferredNativePathString path) chunks content with
  | error e => exact ⟨hn, by simp [hc, editOf, hnew, Except.toOption]⟩
  | ok new => exact ⟨hn, hc, by simp [hc, editOf, hnew, Except.toOption]⟩

lemma spec_retry_noFaults (contents : Text) :
    Spec (writeFileWithMissingParentRetry api (fileSystem api.key noFaults) path contents) m
      (fun _ n => n.files = Function.update m.files (api.key path) (some contents)) (fun _ _ => False) := by
  simp only [writeFileWithMissingParentRetry, spec_bind, spec_attempt]
  exact (spec_writeFile_noFaults contents).mono (fun _ _ => id) (fun _ _ h => h.elim)

lemma spec_removeFile_noFaults (message : Text) (expectedContent : Option Text) :
    Spec (removeFile api (fileSystem api.key noFaults) message path expectedContent) r
      (fun _ t => (r.disk.files (api.key path)).isSome ∧
        t.disk.files = Function.update r.disk.files (api.key path) none)
      (fun _ _ => r.disk.files (api.key path) = none) := by
  simp only [removeFile, ensureNotDirectory, spec_bind, spec_mapError, onDisk, spec_zoom, spec_attempt]
  refine spec_getMetadata_noFaults.mono ?_ (fun _ _ h => h.2)
  rintro _ m ⟨hf, hs, hd⟩
  rw [if_neg (by simp [hd])]
  refine spec_remove_noFaults.mono ?_ ?_
  · rintro _ n ⟨-, hn⟩
    exact ⟨hs, by rw [hn, hf]⟩
  rintro _ n ⟨-, hno⟩
  rw [hf] at hno
  simp [hno] at hs

lemma spec_applyAdd_noFaults (contents : Text) :
    Spec (applyAdd api (fileSystem api.key noFaults) path contents) r
      (fun _ t => t.disk.files = Function.update r.disk.files (api.key path) (some contents))
      (fun _ _ => False) := by
  simp only [applyAdd, spec_bind]
  refine spec_readOptionalFileTextForDelta.mono ?_ (fun _ _ => False.elim)
  rintro o s ⟨hs, -⟩
  refine (spec_tryWrite (spec_retry_noFaults contents)).mono (fun _ t ht => ?_) (fun _ _ h => h.2)
  exact ht.files_eq.trans (by rw [hs.files_eq])

lemma spec_applyDelete_noFaults : Spec (applyDelete api (fileSystem api.key noFaults) path) r
      (fun _ t => (r.disk.files (api.key path)).isSome ∧
        t.disk.files = Function.update r.disk.files (api.key path) none)
      (fun _ _ => r.disk.files (api.key path) = none) := by
  simp only [applyDelete, spec_bind]
  refine spec_noteExistingPathDeltaSupport.mono ?_ (fun _ _ => False.elim)
  intro _ s hs
  simp only [spec_attempt, onDisk, spec_zoom]
  refine spec_readFileText_noFaults.mono ?_ ?_
  · rintro _ m ⟨hm, -⟩
    simp only [spec_bind]
    rw [hs.files_eq] at hm
    exact (spec_removeFile_noFaults _ _).mono (fun _ t ht => hm ▸ ht) (fun _ _ h => hm ▸ h)
  rintro _ m ⟨hm, -⟩
  rw [hs.files_eq] at hm
  exact (spec_removeFile_noFaults _ _).mono (fun _ t ht => hm ▸ ht) (fun _ _ h => hm ▸ h)

lemma spec_applyMove_noFaults (patch : AppliedPatch)
    (hd : api.join cwd dest = .ok destUri) (ho : (r.disk.files (api.key path)).isSome) :
    Spec (applyMove api (fileSystem api.key noFaults) cwd path dest patch) r
      (fun _ t => t.disk.files = Function.update
        (Function.update r.disk.files (api.key destUri) (some patch.newContents)) (api.key path) none)
      (fun _ _ => False) := by
  simp only [applyMove, spec_bind, hd, Except.mapError]
  refine spec_readOptionalFileTextForDelta.mono ?_ (fun _ _ => False.elim)
  rintro o s ⟨hs, -⟩
  refine (spec_tryWrite (spec_retry_noFaults _)).mono (fun _ t ht => ?_) (fun _ _ h => h.2)
  have hf : t.disk.files = Function.update r.disk.files (api.key destUri) (some patch.newContents) := by
    rw [ht.files_eq, hs.files_eq]
  refine (spec_removeFile_noFaults _ _).mono ?_ ?_
  · rintro _ u ⟨-, hu⟩
    show u.disk.files = _
    rw [hu, ← hf]
    rfl
  -- The original is still there: it is the destination, or it was not touched.
  rintro _ u hn
  have hn' : t.disk.files (api.key path) = none := hn
  rw [hf, Function.update_apply] at hn'
  split at hn'
  · simp at hn'
  · simp [hn'] at ho

lemma spec_applyUpdate_noFaults (patch : AppliedPatch) :
    Spec (applyUpdate api (fileSystem api.key noFaults) path patch) r
      (fun _ t => t.disk.files = Function.update r.disk.files (api.key path) (some patch.newContents))
      (fun _ _ => False) := by
  have hw : Spec ((fileSystem api.key noFaults).writeFile path patch.newContents |>.mapError
      (failedToWrite api path)) r.disk
      (fun _ n => n.files = Function.update r.disk.files (api.key path) (some patch.newContents))
      (fun _ _ => False) :=
    spec_mapError.mpr (spec_writeFile_noFaults _)
  exact (spec_tryWrite hw).mono (fun _ t ht => ht.files_eq) (fun _ _ h => h.2)

/-- **A hunk is an operation on the files.** -/
lemma spec_applyHunk_noFaults (cwd : P) (hunk : Hunk) (op : Op K Text) (hop : hunkOp api cwd hunk = .ok op) :
    Spec (applyHunk api (fileSystem api.key noFaults) cwd hunk) r
      (fun _ t => op.run r.disk.files = some t.disk.files) (fun _ _ => op.run r.disk.files = none) := by
  obtain ⟨path, hp, hop⟩ := bind_eq_ok.mp hop
  simp only [applyHunk, hp]
  cases hunk with
  | addFile _ contents =>
    obtain rfl : Op.write (api.key path) contents = op := by simpa using hop
    simp only [spec_bind]
    exact (spec_applyAdd_noFaults contents).mono (fun _ t ht => congrArg some ht.symm) (fun _ _ => False.elim)
  | deleteFile _ =>
    obtain rfl : Op.remove (api.key path) = op := by simpa using hop
    simp only [spec_bind]
    refine spec_applyDelete_noFaults.mono ?_ (fun _ _ h => by simp [Op.run, h])
    rintro _ t ⟨hso, hf⟩
    obtain ⟨_, hc⟩ := Option.isSome_iff_exists.mp hso
    simp [Op.run, hc, pushDeleted, hf]
  | updateFile _ movePath chunks => ?_
  obtain ⟨dest, hd, hop⟩ := bind_eq_ok.mp hop
  obtain rfl : updateOp api path chunks dest = op := by simpa using hop
  simp only [spec_bind, spec_mapError, onDisk, spec_zoom]
  refine spec_noteExistingPathDeltaSupport.mono ?_ (fun _ _ => False.elim)
  intro _ s hs
  refine (spec_deriveNewContents_noFaults chunks).mono ?_ ?_
  · rintro patch m ⟨hm, ho, hnew⟩
    rw [hs.files_eq] at hm hnew ho
    rcases movePath with _ | text
    · obtain rfl : none = dest := by simpa [joinOptional] using hd
      simp only [spec_bind]
      refine (spec_applyUpdate_noFaults patch).mono (fun _ t ht => ?_) (fun _ _ => False.elim)
      simp [updateOp, Op.run, hnew, pushModified, ht, hm]
    obtain ⟨destUri, hjo, rfl⟩ : ∃ d, api.join cwd text = .ok d ∧ some d = dest := by
      cases hj : api.join cwd text <;> simp_all [joinOptional, Except.map]
    simp only [spec_bind]
    refine (spec_applyMove_noFaults patch hjo (by simp [hm, ho])).mono (fun _ t ht => ?_) (fun _ _ => False.elim)
    simp [updateOp, Op.run, hnew, pushModified, ht, hm]
  rintro _ m ⟨-, hn⟩
  rw [hs.files_eq] at hn
  cases dest <;> simp [updateOp, Op.run, hn]

lemma spec_applyHunks_noFaults (cwd : P) (hunks : List Hunk) (ops : List (Op K Text))
    (ho : hunkOps api cwd hunks = .ok ops) :
    Spec (applyHunks api (fileSystem api.key noFaults) cwd hunks) r
      (fun _ t => runAll r.disk.files ops = some t.disk.files) (fun _ _ => runAll r.disk.files ops = none) := by
  induction hunks generalizing r ops with
  | nil =>
    obtain rfl : [] = ops := by simpa [hunkOps] using ho
    rfl
  | cons hunk hunks ih => ?_
  obtain ⟨op, hop, ho⟩ := bind_eq_ok.mp ho
  obtain ⟨rest, hr, ho⟩ := bind_eq_ok.mp ho
  obtain rfl : op :: rest = ops := by simpa using ho
  simp only [applyHunks, spec_bind]
  refine (spec_applyHunk_noFaults cwd hunk op hop).mono (fun _ s hs => ?_) (fun _ _ h => ?_)
  · refine (ih rest hr).mono (fun _ t ht => ?_) (fun _ _ h => ?_)
    · simpa [runAll, hs] using ht
    · simpa [runAll, hs] using h
  · simp [runAll, h]

/-! ## The verification -/

inductive Plans (key : P → K) (files : K → Option Text) :
    P × ApplyPatchFileChange P → Op K Text → Prop
  | add (path : P) (content : Text) : Plans key files (path, .add content) (.write (key path) content)
  | delete (path : P) (content : Text) (h : files (key path) = some content) :
      Plans key files (path, .delete content) (.remove (key path))
  | update (path : P) (diff newContent : Text) (f : Text → Option Text)
      (h : (files (key path)).bind f = some newContent) :
      Plans key files (path, .update diff none newContent) (.edit (key path) f)
  | move (path dest : P) (diff newContent : Text) (f : Text → Option Text)
      (h : (files (key path)).bind f = some newContent) :
      Plans key files (path, .update diff (some dest) newContent) (.transfer (key path) f (key dest))

omit [DecidableEq K] in
lemma Plans.plannable (h : Plans key files c op) : op.Plannable files := by
  cases h with
  | add => trivial
  | delete path content h | update path diff new f h | move path dest diff new f h => simp [Op.Plannable, h]

omit [DecidableEq K] in
lemma Plans.holdsIn_iff (h : Plans key files c op) (t : K → Option Text) :
    c.2.HoldsIn key c.1 t ↔ ∀ k o, op.Wants files k o → t k = o := by
  cases h with
  | add path content | delete path content h => simp [ApplyPatchFileChange.HoldsIn, Op.Wants]
  | update path diff new f h => simp [ApplyPatchFileChange.HoldsIn, Op.Wants, h]
  | move path dest diff new f h => ?_
  simp only [ApplyPatchFileChange.HoldsIn, Op.Wants, h]
  constructor
  · rintro ⟨hn, hg⟩ k o (⟨rfl, rfl⟩ | ⟨rfl, hne, rfl⟩)
    · exact hn
    · exact hg hne
  · exact fun hw => ⟨hw _ _ (.inl ⟨rfl, rfl⟩), fun hne => hw _ _ (.inr ⟨rfl, hne, rfl⟩)⟩

omit [DecidableEq K] in
lemma Plans.source_eq (h : Plans key files c op) : op.source = key c.1 ∧ op.dest = c.2.dest.map key := by
  cases h <;> exact ⟨rfl, rfl⟩

omit [DecidableEq K] in
lemma forall_mem_congr {α β : Type} {R : α → β → Prop} {A : α → Prop} {B : β → Prop} {as : List α}
    {bs : List β} (h : List.Forall₂ R as bs) (hAB : ∀ a b, R a b → (A a ↔ B b)) :
    (∀ a ∈ as, A a) ↔ ∀ b ∈ bs, B b := by
  induction h with
  | nil => simp
  | cons hab _ ih => simp [hAB _ _ hab, ih]

omit [DecidableEq K] in
lemma written_iff_meets {t : K → Option Text} {changes : List (P × ApplyPatchFileChange P)}
    {ops : List (Op K Text)} (h : List.Forall₂ (Plans key files) changes ops) :
    Written key files changes t ↔ Meets files ops t := by
  have hch := forall_mem_congr h fun c op hc => hc.holdsIn_iff t
  have hu : ∀ k, (∀ c ∈ changes, key c.1 ≠ k ∧ c.2.dest.map key ≠ some k) ↔
      ∀ op ∈ ops, op.source ≠ k ∧ op.dest ≠ some k := fun k =>
    forall_mem_congr h fun c op hc => by rw [hc.source_eq.1, hc.source_eq.2]
  exact ⟨fun hw => ⟨hch.mp hw.changed, fun k hk => hw.unchanged k ((hu k).mpr hk)⟩,
    fun hm => ⟨hch.mpr hm.wanted, fun k hk => hm.kept k ((hu k).mp hk)⟩⟩

lemma spec_verifyChange (diff : UnifiedDiff) (cwd : P) (hunk : Hunk) (hp : hunk.resolvePath api cwd = .ok path) :
    Spec (verifyChange api (fileSystem api.key noFaults) diff cwd path hunk) m
      (fun change n => n.files = m.files ∧ ∃ op, hunkOp api cwd hunk = .ok op ∧ Plans api.key m.files (path, change) op)
      (fun _ _ => True) := by
  cases hunk with
  | addFile _ contents =>
    refine ⟨rfl, .write (api.key path) contents, ?_, .add path contents⟩
    simp [hunkOp, hp]
  | deleteFile _ =>
    simp only [verifyChange, spec_bind, spec_mapError]
    refine spec_readFileText_noFaults.mono ?_ (fun _ _ _ => trivial)
    rintro content n ⟨hn, hc⟩
    refine ⟨hn, .remove (api.key path), ?_, .delete path content hc⟩
    simp [hunkOp, hp]
  | updateFile _ movePath chunks => ?_
  simp only [verifyChange, unifiedDiffFromChunks, spec_bind]
  refine (spec_deriveNewContents_noFaults chunks).mono ?_ (fun _ _ _ => trivial)
  rintro _ n ⟨hn, -, hnew⟩
  rcases hd : joinOptional api cwd movePath with e | dest
  · trivial
  refine ⟨hn, updateOp api path chunks dest, ?_, ?_⟩
  · simp [hunkOp, hp, hd]
  cases dest with
  | none => exact .update path _ _ _ hnew
  | some dest => exact .move path dest _ _ _ hnew

lemma spec_verifyHunks (diff : UnifiedDiff) (cwd : P) (hunks : List Hunk)
    (changes : List (P × ApplyPatchFileChange P)) (m : Memory K) :
    Spec (verifyHunks api (fileSystem api.key noFaults) diff cwd changes hunks) m
      (fun changes' _ => ∃ new ops, changes' = changes ++ new ∧ hunkOps api cwd hunks = .ok ops ∧
        List.Forall₂ (Plans api.key m.files) new ops ∧ (ops.map Op.source).Nodup ∧
        ∀ op ∈ ops, ∀ c ∈ changes, api.key c.1 ≠ op.source)
      (fun _ _ => True) := by
  induction hunks generalizing changes m with
  | nil => exact ⟨[], [], by simp, rfl, .nil, by simp, by simp⟩
  | cons hunk hunks ih => ?_
  simp only [verifyHunks, spec_bind, spec_ofResult]
  rcases hpa : hunk.resolvePath api cwd with e | path
  · trivial
  simp only [Except.mapError]
  split
  · trivial
  rename_i hf
  rw [spec_bind]
  refine (spec_verifyChange diff cwd hunk hpa).mono ?_ (fun _ _ _ => trivial)
  rintro change n ⟨hn, op, hop, hp⟩
  refine (ih (changes ++ [(path, change)]) n).mono ?_ (fun _ _ _ => trivial)
  rintro changes' _ ⟨new, ops, rfl, ho, ha, hno, hne⟩
  rw [hn] at ha
  refine ⟨(path, change) :: new, op :: ops, by simp, by simp [hunkOps, hop, ho], .cons hp ha, ?_, ?_⟩
  · rw [map_cons, nodup_cons]
    refine ⟨fun hm => ?_, hno⟩
    obtain ⟨op', hop', heq⟩ := mem_map.mp hm
    exact hne op' hop' (path, change) (by simp) (by rw [heq, hp.source_eq.1])
  intro op' hop' c hc
  rcases mem_cons.mp hop' with rfl | hop'
  · rw [hp.source_eq.1]
    simpa using fun h => hf (any_eq_true.mpr ⟨c, hc, by simpa using h⟩)
  · exact hne op' hop' c (by simp [hc])

lemma spec_tryVerifyApplyPatchArgs (diff : UnifiedDiff) (args : ApplyPatchArgs) (cwd : P) (m : Memory K) :
    Spec (tryVerifyApplyPatchArgs api (fileSystem api.key noFaults) diff args cwd) m
      (fun action _ => ∃ ops, hunkOps api action.cwd args.hunks = .ok ops ∧
        List.Forall₂ (Plans api.key m.files) action.changes ops ∧ (ops.map Op.source).Nodup)
      (fun _ _ => True) := by
  simp only [tryVerifyApplyPatchArgs, spec_bind]
  rcases joinOptional api cwd args.workdir with e | workdir
  · trivial
  refine (spec_verifyHunks diff _ args.hunks [] m).mono ?_ (fun _ _ _ => trivial)
  rintro changes _ ⟨_, ops, rfl, ho, ha, hn, -⟩
  exact ⟨ops, ho, ha, hn⟩

/-! ## Approved and written -/

lemma applyHunksToFiles_noFaults_iff (ho : hunkOps api cwd hunks = .ok ops) (A : (K → Option Text) → Prop) :
    (∃ t, (applyHunksToFiles api (fileSystem api.key noFaults) cwd hunks).exec { disk := { files } } =
      (.ok (), t) ∧ A t.disk.files) ↔ hunks ≠ [] ∧ ∃ t, runAll files ops = some t ∧ A t := by
  rcases hunks with _ | ⟨hunk, hunks⟩
  · simp [applyHunksToFiles]
  rw [applyHunksToFiles, if_neg (by simp)]
  have hs := spec_applyHunks_noFaults (r := { disk := { files } }) cwd _ ops ho
  rcases hr : (applyHunks api (fileSystem api.key noFaults) cwd (hunk :: hunks)).exec
    { disk := { files } } with ⟨e | u, t⟩
  · simp [show runAll files ops = none from hs.exec hr]
  · simp [show runAll files ops = some t.disk.files from hs.exec hr]

/-- **What is approved is what is written exactly when there is a hunk and the plan of the hunks is
coherent.** -/
theorem approved_written_iff (api : PathApi P K E) (diff : UnifiedDiff) (files : K → Option Text)
    (args : ApplyPatchArgs) (cwd : P) (action : ApplyPatchAction P)
    (hverify : ((tryVerifyApplyPatchArgs api (fileSystem api.key noFaults) diff args cwd).exec
      { files }).1 = .ok action) :
    (∃ t, (applyHunksToFiles api (fileSystem api.key noFaults) action.cwd args.hunks).exec
        { disk := { files } } = (.ok (), t) ∧ Written api.key files action.changes t.disk.files) ↔
      args.hunks ≠ [] ∧ ∃ ops, hunkOps api action.cwd args.hunks = .ok ops ∧ Coherent files ops := by
  obtain ⟨ops, ho, ha, hn⟩ := (spec_tryVerifyApplyPatchArgs diff args cwd { files }).exec
    (show _ = (Except.ok action, _) from Prod.ext hverify rfl)
  have hp : ∀ op ∈ ops, op.Plannable files :=
    (forall_mem_congr (A := fun _ => True) ha fun _ _ h => by simp [h.plannable]).mp fun _ _ => trivial
  rw [applyHunksToFiles_noFaults_iff ho (Written api.key files action.changes)]
  simp only [written_iff_meets ha, runs_as_planned_iff hn hp, ho, Except.ok.injEq, exists_eq_left']

def oneFile : PathUri.Identity → Option Text :=
  Function.update (fun _ => none) ((pathUriApi .plain).key (plainUri "/w/a")) (some "x\n".toList)

def movePatch (dest : Text) : Text :=
  "*** Begin Patch\n*** Update File: a\n*** Move to: ".toList ++ dest ++ "\n@@\n-x\n+y\n*** End Patch".toList

def moveArgs (dest : Text) : ApplyPatchArgs where
  patch := movePatch dest
  hunks := [.updateFile "a" (some dest) [{ oldLines := ["x".toList], newLines := ["y".toList] }]]
  workdir := none
  environmentId := none

def moveAction (dest : Text) : ApplyPatchAction PathUri where
  changes := [(plainUri "/w/a", .update [] (some (plainUri ("/w/".toList ++ dest))) "y\n")]
  patch := movePatch dest
  cwd := plainUri "/w"

theorem move_written : parsePatch (movePatch "b") = .ok (moveArgs "b") ∧
    ∃ t, (applyHunksToFiles (pathUriApi .plain) (fileSystem (pathUriApi .plain).key noFaults) (plainUri "/w")
        (moveArgs "b").hunks).exec { disk := { files := oneFile } } = (.ok (), t) ∧
      Written (pathUriApi .plain).key oneFile (moveAction "b").changes t.disk.files := by
  have hv : ((tryVerifyApplyPatchArgs (pathUriApi .plain) (fileSystem (pathUriApi .plain).key noFaults)
    (fun _ _ _ => []) (moveArgs "b") (plainUri "/w")).exec { files := oneFile }).1 = .ok (moveAction "b") := by
    decide
  refine ⟨by decide, (approved_written_iff _ _ _ _ _ _ hv).mpr ⟨by decide, _, rfl,
    coherent_of_apart (nodup_singleton _) ?_ ?_⟩⟩
  · simp
  · decide

theorem selfMove_not_written : parsePatch (movePatch "a") = .ok (moveArgs "a") ∧
    ((tryVerifyApplyPatchArgs (pathUriApi .plain) (fileSystem (pathUriApi .plain).key noFaults) (fun _ _ _ => [])
      (moveArgs "a") (plainUri "/w")).exec { files := oneFile }).1 = .ok (moveAction "a") ∧
    ((applyHunksToFiles (pathUriApi .plain) (fileSystem (pathUriApi .plain).key noFaults) (moveAction "a").cwd
      (moveArgs "a").hunks).exec { disk := { files := oneFile } }).1 = .ok () ∧
    ¬ Written (pathUriApi .plain).key oneFile (moveAction "a").changes
      ((applyHunksToFiles (pathUriApi .plain) (fileSystem (pathUriApi .plain).key noFaults) (moveAction "a").cwd
        (moveArgs "a").hunks).exec { disk := { files := oneFile } }).2.disk.files := by
  refine ⟨by decide, by decide, by decide, fun h => ?_⟩
  have := (h.changed _ (mem_singleton.mpr rfl)).1
  revert this
  decide

end Codex.ApplyPatch
