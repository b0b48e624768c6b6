import Codex.Result
import Codex.ApplyPatch.StreamingParser

/-! # The streaming parser, line by line, whatever the cuts of the text -/

namespace Codex.ApplyPatch.StreamingPatchParser

open Codex.Text Codex.Result List

/-! ## What a line can change -/

inductive Headed (p : StreamingPatchParser) (line : Text) : StreamingPatchParser → Prop
  | environmentId (rest : Text) (hmode : p.state.mode = .startedPatch)
      (hline : stripPrefix environmentIdMarker line = some rest) :
      Headed p line { p with state := { p.state with environmentId := some (trim rest) } }
  | endPatch (hline : line = endPatchMarker) (hlast : p.ensureUpdateHunkIsNotEmpty line = .ok ()) :
      Headed p line (p.setMode .endedPatch)
  | addFile (path : Text) (hline : stripPrefix addFileMarker line = some path) :
      Headed p line { p with state := { p.state with
        hunks := p.state.hunks ++ [.addFile path []], mode := .addFile } }
  | deleteFile (path : Text) (hline : stripPrefix deleteFileMarker line = some path) :
      Headed p line { p with state := { p.state with
        hunks := p.state.hunks ++ [.deleteFile path], mode := .deleteFile } }
  | updateFile (path : Text) (hline : stripPrefix updateFileMarker line = some path) :
      Headed p line { p with state := { p.state with
        hunks := p.state.hunks ++ [.updateFile path none []], mode := .updateFile p.lineNumber } }

variable {p q : StreamingPatchParser} {line path : Text} {movePath : Option Text}
  {chunks : List UpdateFileChunk}

lemma startHunk_ok (h : p.startHunk line hunk mode = .ok (some q)) :
    q = { p with state := { p.state with hunks := p.state.hunks ++ [hunk], mode := mode } } := by
  obtain ⟨_, -, h⟩ := bind_eq_ok.mp h
  simpa using h.symm

lemma handleEnvironmentId_ok (h : p.handleEnvironmentId rest = .ok (some q)) :
    q = { p with state := { p.state with environmentId := some (trim rest) } } := by
  unfold handleEnvironmentId at h
  split_ifs at h
  simpa using h.symm

lemma headed_of_ok (h : p.handleHunkHeadersAndEndPatch line = .ok (some q)) : Headed p line q := by
  unfold handleHunkHeadersAndEndPatch at h
  split at h
  · rename_i rest hm hl
    rw [handleEnvironmentId_ok h]
    exact .environmentId rest hm hl
  split at h
  · rename_i hl
    obtain ⟨_, hla, h⟩ := bind_eq_ok.mp h
    simp only [pure_eq_ok, Except.ok.injEq, Option.some.injEq] at h
    exact h ▸ .endPatch hl hla
  split at h
  · rw [startHunk_ok h]
    exact .addFile _ (by assumption)
  split at h
  · rw [startHunk_ok h]
    exact .deleteFile _ (by assumption)
  split at h
  · rw [startHunk_ok h]
    exact .updateFile _ (by assumption)
  · simp at h

inductive Chunked (chunks : List UpdateFileChunk) (line : Text) : List UpdateFileChunk → Prop
  | closedBlank (hclosed : chunks.getLast?.any (·.isEndOfFile) = true) (hline : trimEnd line = []) :
      Chunked chunks line chunks
  | emptyHeader (hline : trimEnd line = emptyChangeContextMarker) :
      Chunked chunks line (chunks ++ [({} : UpdateFileChunk)])
  | header (context : Text) (hline : stripPrefix changeContextMarker (trimEnd line) = some context) :
      Chunked chunks line (chunks ++ [{ changeContext := some context }])
  | endOfFile (hopen : chunks.getLast?.any (·.isEndOfFile) = false) (hline : trimEnd line = eofMarker) :
      Chunked chunks line (markEndOfFile chunks)
  | context (text : Text) (hopen : chunks.getLast?.any (·.isEndOfFile) = false)
      (hline : line = [] ∧ text = [] ∨ line = ' ' :: text) :
      Chunked chunks line (onLastChunk chunks (·.pushContextLine text))
  | added (text : Text) (hopen : chunks.getLast?.any (·.isEndOfFile) = false) (hline : line = '+' :: text) :
      Chunked chunks line (onLastChunk chunks (·.pushNewLine text))
  | removed (text : Text) (hopen : chunks.getLast?.any (·.isEndOfFile) = false) (hline : line = '-' :: text) :
      Chunked chunks line (onLastChunk chunks (·.pushOldLine text))

lemma setUpdateHunk_self (hl : p.state.hunks.getLast? = some (.updateFile path movePath chunks)) :
    p.setUpdateHunk path movePath chunks = p := by
  have h : p.state.hunks.dropLast ++ [Hunk.updateFile path movePath chunks] = p.state.hunks :=
    dropLast_append_getLast? _ hl
  simp [setUpdateHunk, h]

lemma processChangeLine_ok (ho : chunks.getLast?.any (·.isEndOfFile) = false)
    (h : p.processChangeLine path movePath chunks line = .ok q) :
    ∃ chunks', Chunked chunks line chunks' ∧ q = p.setUpdateHunk path movePath chunks' := by
  unfold processChangeLine at h
  split at h
  · exact ⟨_, .context [] ho (.inl ⟨rfl, rfl⟩), by simpa using h.symm⟩
  · exact ⟨_, .context _ ho (.inr rfl), by simpa using h.symm⟩
  · exact ⟨_, .added _ ho rfl, by simpa using h.symm⟩
  · exact ⟨_, .removed _ ho rfl, by simpa using h.symm⟩
  · split_ifs at h

lemma processUpdateLine_ok (hla : p.state.hunks.getLast? = some (.updateFile path movePath chunks))
    (h : p.processUpdateLine path movePath chunks line = .ok q) :
    (∃ dest, chunks = [] ∧ movePath = none ∧ stripPrefix moveToMarker (trimEnd line) = some dest ∧
      q = p.setUpdateHunk path (some dest) chunks) ∨
    ∃ chunks', Chunked chunks line chunks' ∧ q = p.setUpdateHunk path movePath chunks' := by
  unfold processUpdateLine at h
  simp only at h
  split at h
  · rename_i hb
    simp only [Bool.and_eq_true, List.isEmpty_iff] at hb
    refine .inr ⟨chunks, .closedBlank hb.1 hb.2, ?_⟩
    rw [setUpdateHunk_self hla]
    simpa using h.symm
  split at h
  · simp at h
  rename_i hc
  split at h
  · rename_i dest hm
    unfold moveTarget at hm
    split_ifs at hm with hf
    simp only [Bool.and_eq_true, List.isEmpty_iff, Option.isNone_iff_eq_none] at hf
    exact .inl ⟨dest, hf.1, hf.2, hm, by simpa using h.symm⟩
  right
  split at h
  · simp at h
  split at h
  · rename_i hl
    exact ⟨_, .emptyHeader hl, by simpa using h.symm⟩
  rename_i hn
  split at h
  · rename_i context hl
    exact ⟨_, .header context hl, by simpa using h.symm⟩
  rename_i hnh
  -- No context marker is left, so a closed chunk has been refused above.
  have ho : chunks.getLast?.any (·.isEndOfFile) = false := by
    simpa [isContextMarker, hn, startsWith_eq_isSome, hnh] using hc
  split at h
  · rename_i hl
    split at h
    · simp at h
    · exact ⟨_, .endOfFile ho hl, by simpa using h.symm⟩
  · exact processChangeLine_ok ho h

inductive Processed (p : StreamingPatchParser) (line : Text) : StreamingPatchParser → Prop
  | beginPatch (hmode : p.state.mode = .notStarted) (hline : trim line = beginPatchMarker) :
      Processed p line (p.setMode .startedPatch)
  | headed {q : StreamingPatchParser}
      (hmode : p.state.mode = .startedPatch ∨ p.state.mode = .addFile ∨ p.state.mode = .deleteFile)
      (hq : Headed p (trim line) q) : Processed p line q
  | headedInUpdate {q : StreamingPatchParser} (n : Nat) (hmode : p.state.mode = .updateFile n)
      (hq : Headed p (trimEnd line) q) : Processed p line q
  | addLine (path contents text : Text) (hmode : p.state.mode = .addFile)
      (hlast : p.state.hunks.getLast? = some (.addFile path contents)) (hline : line = '+' :: text) :
      Processed p line { p with state := { p.state with
        hunks := p.state.hunks.dropLast ++ [.addFile path (contents ++ text ++ ['\n'])] } }
  | moveTo (n : Nat) (path dest : Text) (hmode : p.state.mode = .updateFile n)
      (hlast : p.state.hunks.getLast? = some (.updateFile path none []))
      (hline : stripPrefix moveToMarker (trimEnd line) = some dest) :
      Processed p line (p.setUpdateHunk path (some dest) [])
  | chunked (n : Nat) (path : Text) (movePath : Option Text) (chunks chunks' : List UpdateFileChunk)
      (hmode : p.state.mode = .updateFile n)
      (hlast : p.state.hunks.getLast? = some (.updateFile path movePath chunks))
      (hchunks : Chunked chunks line chunks') : Processed p line (p.setUpdateHunk path movePath chunks')
  | afterEnd (hmode : p.state.mode = .endedPatch) (hline : trim line = []) : Processed p line p

lemma processAddLine_ok (hm : p.state.mode = .addFile) (h : p.processAddLine line = .ok q) :
    Processed p line q := by
  unfold processAddLine at h
  split at h
  · rename_i text path contents hl
    simp only [Except.ok.injEq] at h
    exact h ▸ .addLine path contents text hm hl rfl
  · simp at h

lemma processed_of_ok (h : p.processLine line = .ok q) : Processed p line q := by
  unfold processLine at h
  split at h
  · rename_i hm
    split_ifs at h with hl
    simp only [Except.ok.injEq] at h
    exact h ▸ .beginPatch hm hl
  · rename_i hm
    obtain ⟨_ | r, hr, h⟩ := bind_eq_ok.mp h
    · simp at h
    · simp only [pure_eq_ok, Except.ok.injEq] at h
      exact h ▸ .headed (.inl hm) (headed_of_ok hr)
  · rename_i hm
    obtain ⟨_ | r, hr, h⟩ := bind_eq_ok.mp h
    · exact processAddLine_ok hm h
    · simp only [pure_eq_ok, Except.ok.injEq] at h
      exact h ▸ .headed (.inr (.inl hm)) (headed_of_ok hr)
  · rename_i hm
    obtain ⟨_ | r, hr, h⟩ := bind_eq_ok.mp h
    · simp at h
    · simp only [pure_eq_ok, Except.ok.injEq] at h
      exact h ▸ .headed (.inr (.inr hm)) (headed_of_ok hr)
  · rename_i n hm
    obtain ⟨_ | r, hr, h⟩ := bind_eq_ok.mp h
    · simp only at h
      split at h
      · rename_i path movePath chunks hla
        obtain ⟨dest, rfl, rfl, hl, rfl⟩ | ⟨chunks', hc, rfl⟩ := processUpdateLine_ok hla h
        · exact .moveTo n path dest hm hla hl
        · exact .chunked n path movePath chunks chunks' hm hla hc
      · simp at h
    · simp only [pure_eq_ok, Except.ok.injEq] at h
      exact h ▸ .headedInUpdate n hm (headed_of_ok hr)
  · rename_i hm
    split_ifs at h with hl
    simp only [Except.ok.injEq] at h
    exact h ▸ .afterEnd hm (isEmpty_iff.mp hl)

lemma Processed.frame (h : Processed p line q) :
    q.lineBuffer = p.lineBuffer ∧ q.lineNumber = p.lineNumber := by
  cases h with
  | headed _ hq | headedInUpdate _ _ hq => cases hq <;> exact ⟨rfl, rfl⟩
  | _ => exact ⟨rfl, rfl⟩

/-! ## Deltas -/

section

variable (p : StreamingPatchParser)

/-- `push_delta` at an LF, for the line it has collected. -/
def feedLine (line : Text) : Except ParseError StreamingPatchParser :=
  { p with lineNumber := p.lineNumber + 1 }.processLine (stripCr line)

def feedLines (ls : List Text) : Except ParseError StreamingPatchParser :=
  ls.foldlM feedLine p

lemma pushDelta_append (s t : Text) : p.pushDelta (s ++ t) = p.pushDelta s >>= fun q => q.pushDelta t :=
  foldlM_append

lemma pushDelta_flatten (deltas : List Text) : deltas.foldlM pushDelta p = p.pushDelta deltas.flatten :=
  foldlM_flatten pushChar deltas p

lemma pushDelta_of_not_mem (r : Text) (h : '\n' ∉ r) :
    p.pushDelta r = .ok { p with lineBuffer := p.lineBuffer ++ r } := by
  induction r generalizing p with
  | nil => simp [pushDelta]
  | cons c r ih => ?_
  simp only [mem_cons, not_or] at h
  have hc : p.pushChar c = .ok { p with lineBuffer := p.lineBuffer ++ [c] } := by
    simp [pushChar, Ne.symm h.1]
  have hr := ih { p with lineBuffer := p.lineBuffer ++ [c] } h.2
  rw [pushDelta, foldlM_cons, hc, ok_bind]
  simpa [pushDelta] using hr

lemma pushChar_lf :
    p.pushChar '\n' = { p with lineBuffer := [] }.feedLine p.lineBuffer := rfl

/-- **Characters in, lines out.** -/
lemma pushDelta_unbreak (hp : p.lineBuffer = []) (ls : List Text) (r : Text)
    (hls : ∀ l ∈ ls, '\n' ∉ l) (hr : '\n' ∉ r) :
    p.pushDelta (unbreak ls r) = p.feedLines ls >>= fun q => .ok { q with lineBuffer := r } := by
  induction ls generalizing p with
  | nil => simp [unbreak_nil, pushDelta_of_not_mem p r hr, hp, feedLines]
  | cons l ls ih => ?_
  have hs : p.pushDelta (l ++ ['\n']) = p.feedLine l := by
    have hp' : { p with lineBuffer := [] } = p := by rw [← hp]
    rw [pushDelta_append, pushDelta_of_not_mem p l (hls l (by simp)), ok_bind, hp, nil_append]
    simp only [pushDelta, foldlM_cons, foldlM_nil, pushChar_lf, hp', bind_pure]
  rw [unbreak_cons, ← singleton_append, ← append_assoc, pushDelta_append, hs, feedLines, foldlM_cons, bind_assoc]
  rcases hq : p.feedLine l with e | q
  · rfl
  have hb := (processed_of_ok hq).frame.1
  exact ih q (hb.trans hp) fun m hm => hls m (by simp [hm])

lemma pushDelta_eq (hp : p.lineBuffer = []) (t : Text) :
    p.pushDelta t =
      p.feedLines (breakLines t).1 >>= fun q => .ok { q with lineBuffer := (breakLines t).2 } := by
  have h := breakLines_no_lf t
  rw [← pushDelta_unbreak p hp _ _ h.1 h.2, unbreak_breakLines]

end

end Codex.ApplyPatch.StreamingPatchParser
