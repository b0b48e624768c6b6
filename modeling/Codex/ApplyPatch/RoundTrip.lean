import Codex.ApplyPatch.Parser
import Codex.ApplyPatch.Lines
import Codex.ApplyPatch.Print

/-! # Parsing undoes printing: each printed line takes the parser from a known state to a known state -/

namespace Codex.ApplyPatch.Print

open Codex.Text Codex.Result StreamingPatchParser List UpdateFileChunk

/-! ## Printed lines are what they look like -/

lemma Name.trimEnd_marked (name : Name) (marker : Text) : trimEnd (marker ++ name.text) = marker ++ name.text :=
  trimEnd_append_visible marker name.text name.ne_nil (trimEnd_of_trim name.trimmed)

lemma trim_of_star (hs : line.head? = some '*') (h : trimEnd line = line) :
    trim line = line := by
  rcases line with _ | ⟨c, line⟩
  · simp at hs
  obtain rfl : c = '*' := by simpa using hs
  rw [trim_cons '*' line (by decide), h]

lemma handleHunkHeadersAndEndPatch_of_head (p : StreamingPatchParser) (h : line.head? ≠ some '*') :
    p.handleHunkHeadersAndEndPatch line = .ok none := by
  have hno : ∀ marker : Text, marker.head? = some '*' → stripPrefix marker line = none :=
    fun marker hm => stripPrefix_of_head hm h
  have he : line ≠ endPatchMarker := by
    rintro rfl
    exact h (by decide)
  simp [handleHunkHeadersAndEndPatch, hno environmentIdMarker (by decide), hno addFileMarker (by decide),
    hno deleteFileMarker (by decide), hno updateFileMarker (by decide), he]

/-! ## Lines that take the parser from one state to another -/

/-- From any parser state in `P` the lines are accepted and lead into `Q`. -/
def Takes (P : StreamingParserState → Prop) (ls : List Text) (Q : StreamingParserState → Prop) : Prop :=
  ∀ p : StreamingPatchParser, P p.state → ∃ q, p.feedLines ls = .ok q ∧ Q q.state

lemma Takes.nil (P : StreamingParserState → Prop) : Takes P [] P := fun p hp => ⟨p, rfl, hp⟩

variable {s : StreamingParserState} {P Q : StreamingParserState → Prop}

variable {ls : List Text} {p : StreamingPatchParser} {marker : Text} {hunk : Hunk}
  {mode : StreamingParserMode → Prop}

lemma Takes.append (h : Takes P ls Q) (h' : Takes Q ms R) :
    Takes P (ls ++ ms) R := by
  intro p hp
  obtain ⟨q, hq, hQ⟩ := h p hp
  obtain ⟨r, hr, hR⟩ := h' q hQ
  exact ⟨r, foldlM_append_ok.mpr ⟨q, hq, hr⟩, hR⟩

lemma Takes.cons {P Q R : StreamingParserState → Prop} {l : Text} {ls : List Text} (h : Takes P [l] Q)
    (h' : Takes Q ls R) : Takes P (l :: ls) R := h.append h'

lemma Takes.line {line : Text} (hcr : stripCr line = line)
    (h : ∀ p : StreamingPatchParser, P p.state → ∃ q, p.processLine line = .ok q ∧ Q q.state) :
    Takes P [line] Q := by
  intro p hp
  obtain ⟨q, hq, hQ⟩ := h { p with lineNumber := p.lineNumber + 1 } hp
  exact ⟨q, foldlM_cons_ok.mpr ⟨q, by rw [feedLine, hcr, hq], rfl⟩, hQ⟩

/-! ## Between two hunks -/

structure Ready (hunks : List Hunk) (environmentId : Option Text) (s : StreamingParserState) : Prop where
  started : s.mode ≠ .notStarted
  notEnded : s.mode ≠ .endedPatch
  full : ∀ p : StreamingPatchParser, p.state = s → ∀ line, p.ensureUpdateHunkIsNotEmpty line = .ok ()
  hunks_eq : s.hunks = hunks
  environmentId_eq : s.environmentId = environmentId

lemma processLine_of_header (hst : p.state.mode ≠ .notStarted)
    (ho : p.state.mode ≠ .endedPatch) (hs : line.head? = some '*') (he : trimEnd line = line)
    (h : p.handleHunkHeadersAndEndPatch line = .ok (some q)) : p.processLine line = .ok q := by
  unfold processLine
  rw [trim_of_star hs he, he, h]
  cases hm : p.state.mode <;> simp_all

section

variable (p : StreamingPatchParser) (path : Text)

lemma handle_addFile :
    p.handleHunkHeadersAndEndPatch (addFileMarker ++ path) =
      p.startHunk (addFileMarker ++ path) (.addFile path []) .addFile := by
  simp (disch := decide) [handleHunkHeadersAndEndPatch, stripPrefix_append]
  cases p.state.mode <;> rfl

lemma handle_deleteFile :
    p.handleHunkHeadersAndEndPatch (deleteFileMarker ++ path) =
      p.startHunk (deleteFileMarker ++ path) (.deleteFile path) .deleteFile := by
  simp (disch := decide) [handleHunkHeadersAndEndPatch, stripPrefix_append]
  cases p.state.mode <;> rfl

lemma handle_updateFile :
    p.handleHunkHeadersAndEndPatch (updateFileMarker ++ path) =
      p.startHunk (updateFileMarker ++ path) (.updateFile path none []) (.updateFile p.lineNumber) := by
  simp (disch := decide) [handleHunkHeadersAndEndPatch, stripPrefix_append]
  cases p.state.mode <;> rfl

end

structure Started (before : List Hunk) (environmentId : Option Text) (hunk : Hunk)
    (mode : StreamingParserMode → Prop) (s : StreamingParserState) : Prop where
  mode_eq : mode s.mode
  hunks_eq : s.hunks = before ++ [hunk]
  environmentId_eq : s.environmentId = environmentId

abbrev Adding (before : List Hunk) (environmentId : Option Text) (path contents : Text) :=
  Started before environmentId (.addFile path contents) (· = .addFile)

abbrev Deleting (before : List Hunk) (environmentId : Option Text) (path : Text) :=
  Started before environmentId (.deleteFile path) (· = .deleteFile)

abbrev Updating (before : List Hunk) (environmentId : Option Text) (path : Text) (movePath : Option Text)
    (chunks : List UpdateFileChunk) :=
  Started before environmentId (.updateFile path movePath chunks) (fun mode => ∃ n, mode = .updateFile n)

section

variable {pre : List Hunk} {environmentId : Option Text} {path : Text} {movePath : Option Text}
  {chunks : List UpdateFileChunk}

lemma takes_header (path : Name) (hs : marker.head? = some '*')
    (h : ∀ p : StreamingPatchParser, ∃ m, mode m ∧ p.handleHunkHeadersAndEndPatch (marker ++ path.text) =
      p.startHunk (marker ++ path.text) hunk m) :
    Takes (Ready pre environmentId) [marker ++ path.text] (Started pre environmentId hunk mode) := by
  have he := path.trimEnd_marked marker
  refine Takes.line (stripCr_of_trimmed he) fun p hp => ?_
  obtain ⟨m, hm, hq⟩ := h p
  rw [startHunk, hp.full p rfl, ok_bind, pure_eq_ok] at hq
  refine ⟨_, processLine_of_header hp.started hp.notEnded (by simp [hs]) he hq, ?_⟩
  exact ⟨hm, by simp [hp.hunks_eq], hp.environmentId_eq⟩

lemma Started.ready (h : Started pre environmentId hunk mode s) (hm : ¬ mode .notStarted ∧ ¬ mode .endedPatch)
    (hf : ∀ p : StreamingPatchParser, p.state.hunks.getLast? = some hunk → ∀ line, p.ensureUpdateHunkIsNotEmpty line =
      .ok ()) :
    Ready (pre ++ [hunk]) environmentId s where
  started := fun hs => hm.1 (hs ▸ h.mode_eq)
  notEnded := fun hs => hm.2 (hs ▸ h.mode_eq)
  full := by
    rintro p rfl line
    exact hf p (by simp [h.hunks_eq]) line
  hunks_eq := h.hunks_eq
  environmentId_eq := h.environmentId_eq

lemma Adding.ready (h : Adding pre environmentId path txt s) :
    Ready (pre ++ [.addFile path txt]) environmentId s :=
  Started.ready h (by simp) fun p hp line => by simp [ensureUpdateHunkIsNotEmpty, hp]

lemma Deleting.ready (h : Deleting pre environmentId path s) :
    Ready (pre ++ [.deleteFile path]) environmentId s :=
  Started.ready h (by simp) fun p hp line => by simp [ensureUpdateHunkIsNotEmpty, hp]

lemma Updating.ready (h : Updating pre environmentId path movePath chunks s) (hne : chunks ≠ [])
    (hf : lastChunkIsBare chunks = false) :
    Ready (pre ++ [.updateFile path movePath chunks]) environmentId s := by
  refine Started.ready h (by simp) fun p hp line => ?_
  cases chunks with
  | nil => cases hne rfl
  | cons c cs => simp [ensureUpdateHunkIsNotEmpty, hp, hf]

/-! ## The lines of an add hunk -/

lemma Line.stripCr_cons (line : Line) (c : Char) (hc : c ≠ '\r') :
    stripCr (c :: line.text) = c :: line.text := by
  refine stripCr_of_last _ ?_
  have := line.no_cr
  cases ht : line.text.getLast? <;> simp_all [getLast?_cons]

section

variable (pre : List Hunk) (environmentId : Option Text) (path txt : Text)

lemma takes_addLine (line : Line) :
    Takes (Adding pre environmentId path txt) ['+' :: line.text]
      (Adding pre environmentId path (txt ++ (line.text ++ ['\n']))) := by
  refine Takes.line (line.stripCr_cons '+' (by decide)) fun p hp => ?_
  have hh : (trim ('+' :: line.text)).head? ≠ some '*' := by
    rw [trim_cons _ _ (by decide)]
    exact trimEnd_head_ne (by simp)
  have hl : p.processLine ('+' :: line.text) = p.processAddLine ('+' :: line.text) := by
    simp [processLine, hp.mode_eq, handleHunkHeadersAndEndPatch_of_head p hh]
  refine ⟨_, by rw [hl]; simp only [processAddLine, hp.hunks_eq, getLast?_concat]; rfl, ?_⟩
  exact ⟨hp.mode_eq, by simp [append_assoc], hp.environmentId_eq⟩

lemma takes_addLines (lines : List Line) :
    Takes (Adding pre environmentId path txt) (lines.map fun line => '+' :: line.text)
      (Adding pre environmentId path (txt ++ lines.flatMap fun line => line.text ++ ['\n'])) := by
  induction lines generalizing txt with
  | nil => simpa using Takes.nil _
  | cons line lines ih =>
    have h := (takes_addLine pre environmentId path txt line).cons (ih _)
    rwa [append_assoc] at h

end

/-! ## The lines of an update hunk -/

lemma handleHunkHeadersAndEndPatch_of_differ (p : StreamingPatchParser)
    (h : ∀ m ∈ [environmentIdMarker, endPatchMarker, addFileMarker, deleteFileMarker, updateFileMarker],
      differ m marker)
    (t : Text) : p.handleHunkHeadersAndEndPatch (marker ++ t) = .ok none := by
  simp only [forall_mem_cons] at h
  obtain ⟨he, hen, ha, hd, hu, -⟩ := h
  simp [handleHunkHeadersAndEndPatch, stripPrefix_of_differ he, ne_of_differ hen,
    stripPrefix_of_differ ha, stripPrefix_of_differ hd, stripPrefix_of_differ hu]

lemma takes_updateLine (hcr : stripCr line = line)
    (hh : ∀ p : StreamingPatchParser, p.handleHunkHeadersAndEndPatch (trimEnd line) = .ok none)
    (hl : ∀ p : StreamingPatchParser,
      p.processUpdateLine path movePath chunks line = .ok (p.setUpdateHunk path movePath' chunks')) :
    Takes (Updating pre environmentId path movePath chunks) [line]
      (Updating pre environmentId path movePath' chunks') := by
  refine Takes.line hcr fun p hp => ?_
  obtain ⟨n, hn⟩ := hp.mode_eq
  have hla : p.state.hunks.getLast? = some (.updateFile path movePath chunks) := by simp [hp.hunks_eq]
  refine ⟨p.setUpdateHunk path movePath' chunks', ?_, ⟨n, hn⟩, ?_, hp.environmentId_eq⟩
  · simp [processLine, hn, hh p, hla, hl p]
  · simp [setUpdateHunk, hp.hunks_eq]

lemma takes_moveTo (dest : Name) :
    Takes (Updating pre environmentId path none []) [moveToMarker ++ dest.text]
      (Updating pre environmentId path (some dest.text) []) := by
  have he := dest.trimEnd_marked moveToMarker
  refine takes_updateLine (stripCr_of_trimmed he) (fun p => ?_) fun p => ?_
  · rw [he]
    exact handleHunkHeadersAndEndPatch_of_differ p (by decide) _
  · simp [processUpdateLine, he, moveTarget, stripPrefix_append]

def Change.push : Change → UpdateFileChunk → UpdateFileChunk
  | context line, c => c.pushContextLine line.text
  | added line, c => c.pushNewLine line.text
  | removed line, c => c.pushOldLine line.text

lemma Change.render_head (c : Change) : c.render.head? ≠ some '*' ∧ c.render.head? ≠ some '@' := by
  cases c <;> simp [Change.render]

lemma Change.stripCr_render (c : Change) : stripCr c.render = c.render := by
  cases c <;> exact Line.stripCr_cons _ _ (by decide)

lemma processUpdateLine_of_head (p : StreamingPatchParser)
    (ho : chunks.getLast?.any (·.isEndOfFile) = false) (hs : line.head? ≠ some '*')
    (hat : line.head? ≠ some '@') :
    p.processUpdateLine path movePath chunks line = p.processChangeLine path movePath chunks line := by
  have hs' := trimEnd_head_ne hs
  have hat' := trimEnd_head_ne hat
  have hm : moveTarget movePath chunks (trimEnd line) = none := by
    simp [moveTarget, stripPrefix_of_head (show moveToMarker.head? = some '*' by decide) hs']
  have he : trimEnd line ≠ emptyChangeContextMarker := fun h => hat' (h ▸ by decide)
  have hc : stripPrefix changeContextMarker (trimEnd line) = none :=
    stripPrefix_of_head (show changeContextMarker.head? = some '@' by decide) hat'
  have heo : trimEnd line ≠ eofMarker := fun h => hs' (h ▸ by decide)
  simp [processUpdateLine, ho, hm, isContextMarker, he, startsWith_eq_isSome, hc, heo]

lemma takes_change (ho : chunks.getLast?.any (·.isEndOfFile) = false) (c : Change) :
    Takes (Updating pre environmentId path movePath chunks) [c.render]
      (Updating pre environmentId path movePath (onLastChunk chunks c.push)) := by
  refine takes_updateLine c.stripCr_render
    (fun p => handleHunkHeadersAndEndPatch_of_head p (trimEnd_head_ne c.render_head.1)) fun p => ?_
  rw [processUpdateLine_of_head p ho c.render_head.1 c.render_head.2]
  cases c <;> rfl

lemma foldl_push (c : UpdateFileChunk) (changes : List Change) :
    changes.foldl (fun c change => change.push c) c = { c with
      oldLines := c.oldLines ++ changes.filterMap Change.old
      newLines := c.newLines ++ changes.filterMap Change.new
      contextLineIndices :=
        c.contextLineIndices ++ contextIndices c.oldLines.length c.newLines.length changes } := by
  induction changes generalizing c with
  | nil => simp [contextIndices]
  | cons change changes ih => ?_
  rw [foldl_cons, ih]
  cases change <;>
    simp [Change.push, pushContextLine, pushNewLine,
      pushOldLine, Change.old, Change.new, contextIndices, filterMap_cons]

lemma takes_changes (chunk : UpdateFileChunk) (ho : chunk.isEndOfFile = false) (changes : List Change) :
    Takes (Updating pre environmentId path movePath (chunks ++ [chunk])) (changes.map Change.render)
      (Updating pre environmentId path movePath
        (chunks ++ [changes.foldl (fun c change => change.push c) chunk])) := by
  induction changes generalizing chunk with
  | nil => exact Takes.nil _
  | cons change changes ih => ?_
  have hl : onLastChunk (chunks ++ [chunk]) change.push = chunks ++ [change.push chunk] := by
    simp [onLastChunk]
  refine Takes.cons (hl ▸ takes_change (by simpa using ho) change) (ih (change.push chunk) ?_)
  cases change <;> exact ho

lemma takes_endOfFile (chunk : UpdateFileChunk) (ho : chunk.isEndOfFile = false) (hf : chunk.isBare = false) :
    Takes (Updating pre environmentId path movePath (chunks ++ [chunk])) [eofMarker]
      (Updating pre environmentId path movePath (chunks ++ [{ chunk with isEndOfFile := true }])) := by
  have hen : trimEnd eofMarker = eofMarker := by decide
  refine takes_updateLine (stripCr_of_trimmed hen) (fun p => ?_) fun p => ?_
  · rw [hen, ← append_nil eofMarker]
    exact handleHunkHeadersAndEndPatch_of_differ p (by decide) _
  have hm : moveTarget movePath (chunks ++ [chunk]) eofMarker = none := by simp [moveTarget]
  have hno : isContextMarker eofMarker = false := by decide
  have he : eofMarker ≠ emptyChangeContextMarker := by decide
  have hc : stripPrefix changeContextMarker eofMarker = none := by decide
  simp [processUpdateLine, hen, hm, he, hc, ho, lastChunkIsBare, hf, markEndOfFile]

lemma Header.trimEnd_render (hea : Header) : trimEnd hea.render = hea.render := by
  cases hea with
  | none => decide
  | some context => exact trimEnd_append_visible _ _ context.ne_nil context.trimmed

lemma Header.render_head (hea : Header) : hea.render.head? ≠ some '*' := by
  rcases hea with _ | context
  · decide
  rw [Header.render, head?_append, show changeContextMarker.head? = some '@' by decide]
  simp

lemma takes_chunkHeader (hf : lastChunkIsBare chunks = false) (hea : Header) :
    Takes (Updating pre environmentId path movePath chunks) [hea.render]
      (Updating pre environmentId path movePath
        (chunks ++ [{ changeContext := hea.map Context.text }])) := by
  have he := hea.trimEnd_render
  refine takes_updateLine (stripCr_of_trimmed he) (fun p => ?_) fun p => ?_
  · rw [he]
    exact handleHunkHeadersAndEndPatch_of_head p hea.render_head
  have hmo : moveTarget movePath chunks hea.render = none := by
    simp [moveTarget, stripPrefix_of_head (show moveToMarker.head? = some '*' by decide) hea.render_head]
  rcases hea with _ | context
  · have hm : isContextMarker emptyChangeContextMarker := by decide
    have hne : emptyChangeContextMarker ≠ [] := by decide
    simp only [Header.render] at he hmo ⊢
    simp [processUpdateLine, he, hmo, hm, hne, hf]
  have hm : isContextMarker (changeContextMarker ++ context.text) := by
    simp [isContextMarker, startsWith_eq_isSome, stripPrefix_append]
  have hne : changeContextMarker ++ context.text ≠ emptyChangeContextMarker := by
    intro h
    have := congrArg List.length h
    have h2 : emptyChangeContextMarker.length = 2 := by decide
    have h3 : changeContextMarker.length = 3 := by decide
    rw [length_append] at this
    omega
  simp only [Header.render] at he hmo ⊢
  simp [processUpdateLine, he, hmo, hm, hne, hf, stripPrefix_append, context.ne_nil]

lemma Body.toChunk_isBare (hea : Header) (body : Body) : (body.toChunk hea).isBare = false := by
  obtain ⟨_ | ⟨change, _⟩, hne, _⟩ := body
  · cases hne rfl
  · cases change <;> simp [Body.toChunk, isBare, Change.old, Change.new]

lemma takes_body (ho : chunks.getLast?.any (·.isEndOfFile) = false)
    (hl : ∀ f, onLastChunk chunks f = done ++ [f { changeContext := hea.map Context.text }])
    (body : Body) :
    Takes (Updating pre environmentId path movePath chunks) body.render
      (Updating pre environmentId path movePath (done ++ [body.toChunk hea])) := by
  have hfu := body.toChunk_isBare hea
  obtain ⟨_ | ⟨change, changes⟩, hne, eof⟩ := body
  · cases hne rfl
  set start : UpdateFileChunk := { changeContext := hea.map Context.text } with hs
  have hch : (change :: changes).foldl (fun c change => change.push c) start =
      (Body.mk (change :: changes) hne false).toChunk hea := by
    rw [foldl_push]
    simp [hs, Body.toChunk]
  have hf : (change.push start).isEndOfFile = false := by cases change <;> rfl
  have hc : Takes (Updating pre environmentId path movePath chunks) ((change :: changes).map Change.render)
      (Updating pre environmentId path movePath
        (done ++ [(Body.mk (change :: changes) hne false).toChunk hea])) := by
    rw [← hch]
    exact Takes.cons (hl change.push ▸ takes_change ho change) (takes_changes _ hf changes)
  cases eof with
  | false => simpa [Body.render] using hc
  | true => exact hc.append (takes_endOfFile _ rfl hfu)

lemma takes_chunk (hf : lastChunkIsBare chunks = false) (c : Header × Body) :
    Takes (Updating pre environmentId path movePath chunks) (renderChunk c)
      (Updating pre environmentId path movePath (chunks ++ [c.2.toChunk c.1])) :=
  (takes_chunkHeader hf c.1).cons (takes_body (by simp) (by simp [onLastChunk]) c.2)

lemma takes_chunks (hf : lastChunkIsBare chunks = false) (cs : List (Header × Body)) :
    Takes (Updating pre environmentId path movePath chunks) (cs.flatMap renderChunk)
      (Updating pre environmentId path movePath (chunks ++ cs.map fun c => c.2.toChunk c.1)) := by
  induction cs generalizing chunks with
  | nil => simpa using Takes.nil _
  | cons c cs ih => ?_
  have hn : lastChunkIsBare (chunks ++ [c.2.toChunk c.1]) = false := by
    simp [lastChunkIsBare, c.2.toChunk_isBare]
  have h := (takes_chunk hf c).append (ih hn)
  rwa [append_assoc] at h

end

/-! ## Whole patches -/

lemma Takes.mono (h : Takes P ls Q) (hQ : ∀ s, Q s → Q' s) :
    Takes P ls Q' := by
  intro p hp
  obtain ⟨q, hq, hqs⟩ := h p hp
  exact ⟨q, hq, hQ _ hqs⟩

lemma takes_movePath {environmentId : Option Text} (movePath : Option Name) :
    Takes (Updating pre environmentId path none []) (movePath.toList.map (moveToMarker ++ ·.text))
      (Updating pre environmentId path (movePath.map Name.text) []) := by
  cases movePath with
  | none => exact Takes.nil _
  | some dest => exact takes_moveTo dest

lemma takes_firstChunk {environmentId : Option Text} (hea : Option Header) (body : Body) :
    Takes (Updating pre environmentId path movePath []) (hea.toList.map Header.render ++ body.render)
      (Updating pre environmentId path movePath [body.toChunk (hea.getD none)]) := by
  cases hea with
  | none => ?_
  | some hea => exact takes_chunk (by simp [lastChunkIsBare]) (hea, body)
  have hb : Takes (Updating pre environmentId path movePath []) body.render
      (Updating pre environmentId path movePath ([] ++ [body.toChunk none])) :=
    takes_body rfl (fun _ => rfl) body
  exact hb

lemma lastChunkIsBare_of_forall (h : ∀ c ∈ chunks, c.isBare = false) :
    lastChunkIsBare chunks = false := by
  rw [lastChunkIsBare, Option.any_eq_false]
  intro c hc
  simpa using h c (mem_of_getLast? hc)

lemma takes_hunk (pre : List Hunk) (environmentId : Option Text) (hunk : PrintedHunk) :
    Takes (Ready pre environmentId) hunk.render (Ready (pre ++ [hunk.toHunk]) environmentId) := by
  cases hunk with
  | addFile path lines =>
    have hh : Takes (Ready pre environmentId) [addFileMarker ++ path.text]
        (Adding pre environmentId path.text []) :=
      takes_header path (by decide) fun p => ⟨_, rfl, handle_addFile p path.text⟩
    exact (hh.cons (takes_addLines pre environmentId path.text [] lines)).mono fun s hs => hs.ready
  | deleteFile path =>
    have hh : Takes (Ready pre environmentId) [deleteFileMarker ++ path.text]
        (Deleting pre environmentId path.text) :=
      takes_header path (by decide) fun p => ⟨_, rfl, handle_deleteFile p path.text⟩
    exact hh.mono fun s hs => hs.ready
  | updateFile path movePath hea body rest => ?_
  have hh : Takes (Ready pre environmentId) [updateFileMarker ++ path.text]
      (Updating pre environmentId path.text none []) :=
    takes_header path (by decide) fun p => ⟨_, ⟨_, rfl⟩, handle_updateFile p path.text⟩
  have hb : lastChunkIsBare [body.toChunk (hea.getD none)] = false := by
    simp [lastChunkIsBare, body.toChunk_isBare]
  refine (hh.cons (((takes_movePath movePath).append (takes_firstChunk hea body)).append
    (takes_chunks hb rest))).mono fun s hs => hs.ready (by simp) (lastChunkIsBare_of_forall ?_)
  intro c hc
  rcases mem_cons.mp hc with rfl | hc
  · exact body.toChunk_isBare _
  · obtain ⟨d, -, rfl⟩ := mem_map.mp hc
    exact d.2.toChunk_isBare _

lemma takes_hunks (pre : List Hunk) (environmentId : Option Text) (hunks : List PrintedHunk) :
    Takes (Ready pre environmentId) (hunks.flatMap PrintedHunk.render)
      (Ready (pre ++ hunks.map PrintedHunk.toHunk) environmentId) := by
  induction hunks generalizing pre with
  | nil => simpa using Takes.nil _
  | cons hunk hunks ih =>
    have h := (takes_hunk pre environmentId hunk).append (ih (pre ++ [hunk.toHunk]))
    rwa [append_assoc] at h

structure Begun (environmentId : Option Text) (s : StreamingParserState) : Prop where
  mode_eq : s.mode = .startedPatch
  hunks_eq : s.hunks = []
  environmentId_eq : s.environmentId = environmentId

lemma Begun.ready {environmentId : Option Text} (h : Begun environmentId s) :
    Ready [] environmentId s where
  started := by simp [h.mode_eq]
  notEnded := by simp [h.mode_eq]
  full := by
    rintro p rfl _
    simp [ensureUpdateHunkIsNotEmpty, h.hunks_eq]
  hunks_eq := h.hunks_eq
  environmentId_eq := h.environmentId_eq

lemma takes_beginPatch : Takes (· = {}) [beginPatchMarker] (Begun none) := by
  refine Takes.line (by decide) fun p hp => ⟨p.setMode .startedPatch, ?_, ?_⟩
  · simp [processLine, hp, show trim beginPatchMarker = beginPatchMarker by decide]
  · exact ⟨rfl, by simp [setMode, hp], by simp [setMode, hp]⟩

lemma takes_environmentId (id : Name) :
    Takes (Begun none) [environmentIdMarker ++ ' ' :: id.text] (Begun (some id.text)) := by
  have hm := id.trimEnd_marked (environmentIdMarker ++ [' '])
  have hid : trim (' ' :: id.text) = id.text := by
    exact id.trimmed
  refine Takes.line (stripCr_of_trimmed hm) fun p hp =>
    ⟨{ p with state := { p.state with environmentId := some id.text } }, ?_, ?_⟩
  · refine processLine_of_header (by simp [hp.mode_eq]) (by simp [hp.mode_eq]) ?_ hm ?_
    · rfl
    · simp [handleHunkHeadersAndEndPatch, hp.mode_eq, stripPrefix_append, handleEnvironmentId,
        hp.environmentId_eq, hid, id.ne_nil]
  · exact ⟨hp.mode_eq, hp.hunks_eq, rfl⟩

section

variable (environmentId : Option Name) (hunks : List PrintedHunk)

lemma takes_renderLines :
    Takes (· = {}) (renderLines environmentId hunks)
      (Ready (hunks.map PrintedHunk.toHunk) (environmentId.map Name.text)) := by
  refine takes_beginPatch.cons (Takes.append (Q := Begun (environmentId.map Name.text)) ?_ ?_)
  · cases environmentId with
    | none => exact Takes.nil _
    | some id => exact takes_environmentId id
  · intro p hp
    exact takes_hunks [] _ hunks p hp.ready

lemma finish_of_ready {hunks : List Hunk} {environmentId : Option Text}
    (hp : Ready hunks environmentId p.state) (hb : p.lineBuffer = endPatchMarker) :
    ∃ q, p.finish = .ok q ∧ q.state.hunks = hunks ∧ q.state.environmentId = environmentId := by
  have hne : endPatchMarker ≠ [] := by decide
  have ht : trim endPatchMarker = endPatchMarker := by decide
  let q : StreamingPatchParser := { state := p.state, lineNumber := p.lineNumber + 1 }
  have hl : p.finishLine = .ok (q.setMode .endedPatch) := by
    simp only [finishLine, hb, ht]
    rw [hp.full q rfl]
    rfl
  refine ⟨q.setMode .endedPatch, ?_, hp.hunks_eq, hp.environmentId_eq⟩
  simp [finish, hl, setMode]

/-! ## The printed lines stay apart -/

def Clean (l : Text) : Prop := '\n' ∉ l ∧ stripCr l = l

lemma Name.clean_marked (name : Name) (marker : Text) (h : '\n' ∉ marker) : Clean (marker ++ name.text) :=
  ⟨by simp [h, name.no_lf], stripCr_of_trimmed (name.trimEnd_marked marker)⟩

lemma Change.clean_render (c : Change) : Clean c.render := by
  refine ⟨?_, c.stripCr_render⟩
  cases c with
  | context line | added line | removed line => simp [Change.render, line.no_lf]

lemma Body.clean_render (b : Body) : ∀ l ∈ b.render, Clean l := by
  intro l hl
  rcases mem_append.mp hl with hl | hl
  · obtain ⟨c, -, rfl⟩ := mem_map.mp hl
    exact c.clean_render
  obtain rfl : l = eofMarker := by
    cases hb : b.isEndOfFile <;> simp [hb] at hl
    exact hl
  exact ⟨by decide, by decide⟩

lemma Header.clean_render (h : Header) : Clean h.render := by
  refine ⟨?_, stripCr_of_trimmed h.trimEnd_render⟩
  rcases h with _ | context
  · decide
  rw [Header.render, mem_append, not_or]
  exact ⟨by decide, context.no_lf⟩

lemma clean_renderChunk (c : Header × Body) : ∀ l ∈ renderChunk c, Clean l := by
  intro l hl
  rcases mem_cons.mp hl with rfl | hl
  · exact Header.clean_render c.1
  · exact c.2.clean_render l hl

lemma PrintedHunk.clean_render (h : PrintedHunk) : ∀ l ∈ h.render, Clean l := by
  cases h with
  | addFile path lines =>
    intro l hl
    rcases mem_cons.mp hl with rfl | hl
    · exact path.clean_marked _ (by decide)
    · obtain ⟨line, -, rfl⟩ := mem_map.mp hl
      exact (Change.added line).clean_render
  | deleteFile path =>
    intro l hl
    obtain rfl := mem_singleton.mp hl
    exact path.clean_marked _ (by decide)
  | updateFile path movePath hea body rest => ?_
  intro l hl
  simp only [render, mem_cons, mem_append, mem_map, mem_flatMap] at hl
  obtain rfl | (⟨dest, -, rfl⟩ | ⟨h, -, rfl⟩ | hl) | ⟨c, -, hl⟩ := hl
  · exact path.clean_marked _ (by decide)
  · exact dest.clean_marked _ (by decide)
  · exact h.clean_render
  · exact body.clean_render l hl
  · exact clean_renderChunk c l hl

lemma clean_renderLines :
    ∀ l ∈ renderLines environmentId hunks, Clean l := by
  intro l hl
  simp only [renderLines, mem_cons, mem_append, mem_map, mem_flatMap] at hl
  obtain rfl | ⟨id, -, rfl⟩ | ⟨h, -, hl⟩ := hl
  · exact ⟨by decide, by decide⟩
  · have h := id.clean_marked (environmentIdMarker ++ [' ']) (by decide)
    rwa [append_assoc, singleton_append] at h
  · exact h.clean_render l hl

lemma trim_render (finalLf : Bool) :
    trim (render environmentId hunks finalLf) =
      joinLf (renderLines environmentId hunks ++ [endPatchMarker]) := by
  obtain ⟨t, ht⟩ : ∃ t, joinLf (renderLines environmentId hunks ++ [endPatchMarker]) = '*' :: t := by
    rw [joinLf_concat, renderLines, unbreak_cons,
      show beginPatchMarker = '*' :: beginPatchMarker.tail by decide, cons_append]
    exact ⟨_, rfl⟩
  have he : trimEnd ('*' :: t) = '*' :: t := by
    rw [← ht, joinLf_concat, unbreak]
    exact trimEnd_append_visible _ _ (by decide) (by decide)
  rw [render, ht, cons_append, trim_cons _ _ (by decide), ← cons_append,
    trimEnd_append_ws _ _ (all_eq_true.mp (by cases finalLf <;> decide)), he]

/-- **Parsing undoes printing.** -/
theorem parsePatch_render (finalLf : Bool) :
    parsePatch (render environmentId hunks finalLf) = .ok {
      patch := joinLf (renderLines environmentId hunks ++ [endPatchMarker])
      hunks := hunks.map PrintedHunk.toHunk
      workdir := none
      environmentId := environmentId.map Name.text } := by
  have hc := clean_renderLines environmentId hunks
  obtain ⟨p, hp, hr⟩ := takes_renderLines environmentId hunks {} rfl
  obtain ⟨q, hq, hh, hid⟩ := finish_of_ready (p := { p with lineBuffer := endPatchMarker }) hr rfl
  have hli : lines (joinLf (renderLines environmentId hunks ++ [endPatchMarker])) =
      renderLines environmentId hunks ++ [endPatchMarker] :=
    lines_joinLf _ _ hc (by decide) (by decide)
  have hb : checkPatchBoundariesLenient (renderLines environmentId hunks ++ [endPatchMarker]) =
      .ok (renderLines environmentId hunks ++ [endPatchMarker]) := by
    refine checkPatchBoundariesLenient_of_strict ?_
    rw [getLast?_concat, renderLines, cons_append, head?_cons]
    decide
  have hd : pushDelta {} (joinLf (renderLines environmentId hunks ++ [endPatchMarker])) =
      .ok { p with lineBuffer := endPatchMarker } := by
    rw [joinLf_concat, pushDelta_unbreak {} rfl _ _ (fun l hl => (hc l hl).1) (by decide), hp]
    rfl
  simp only [parsePatch, parsePatchText, parseInStrictMode, trim_render, hli]
  simp [hb, hd, hq, hh, hid, StreamingPatchParser.environmentId]

end

end Codex.ApplyPatch.Print
