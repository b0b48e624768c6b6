import Mathlib
import Codex.ApplyPatch.Lines

/-! # Which lines of a patch carry text into a hunk, told from the lines alone -/

namespace Codex.ApplyPatch

open Codex.Text Codex.Result StreamingPatchParser List

inductive Section where
  | outside
  | addFile
  | updateFresh
  | updateOpen
  | updateClosed
deriving DecidableEq

namespace Section

def ofHeader (trimmed : Text) : Option Section :=
  if trimmed = endPatchMarker then some .outside
  else if startsWith addFileMarker trimmed then some .addFile
  else if startsWith deleteFileMarker trimmed then some .outside
  else if startsWith updateFileMarker trimmed then some .updateFresh
  else none

def nextInUpdate : Section → Text → Section
  | .updateFresh, l =>
    if startsWith moveToMarker (trimEnd l) || trimEnd l = eofMarker then .updateFresh else .updateOpen
  | .updateOpen, l => if trimEnd l = eofMarker then .updateClosed else .updateOpen
  | .updateClosed, l => if isContextMarker (trimEnd l) then .updateOpen else .updateClosed
  | s, _ => s

def next : Section → Text → Section
  | .outside, l => (ofHeader (trim l)).getD .outside
  | .addFile, l => (ofHeader (trim l)).getD .addFile
  | s, l => (ofHeader (trimEnd l)).getD (s.nextInUpdate l)

def carriesText : Section → Text → Bool
  | .addFile, l => l.head? = some '+'
  | .updateFresh, l => l.head? = some ' ' || l.head? = some '+' || l.head? = some '-'
  | .updateOpen, l => l.head? = some ' ' || l.head? = some '+' || l.head? = some '-'
  | _, _ => false

/-- The characters the line adds to the hunk: a context line counts for the old and the new side. -/
def gain (s : Section) (l : Text) : Nat :=
  if s.carriesText l then
    if s = .addFile then l.length else if l.head? = some ' ' then 2 * (l.length - 1) else l.length - 1
  else 0

lemma next_congr (s : Section) (h : trimEnd l = trimEnd m) : s.next l = s.next m := by
  cases s <;> simp only [next, nextInUpdate, trim_congr h, h]

end Section

/-! ## The section a parser is in -/

open Section

def chunksSection (chunks : List UpdateFileChunk) : Section :=
  match chunks.getLast? with
  | none => .updateFresh
  | some chunk => if chunk.isEndOfFile then .updateClosed else .updateOpen

def StreamingParserState.currentSection (s : StreamingParserState) : Section :=
  match s.mode with
  | .addFile => .addFile
  | .updateFile _ =>
    match s.hunks.getLast? with
    | some (.updateFile _ _ chunks) => chunksSection chunks
    | _ => .outside
  | _ => .outside

/-! ## The characters in the hunks -/

open StreamingParserState

def textLength (ls : List Text) : Nat := (ls.map List.length).sum

def UpdateFileChunk.weight (c : UpdateFileChunk) : Nat := textLength c.oldLines + textLength c.newLines

open UpdateFileChunk

def Hunk.weight : Hunk → Nat
  | .addFile _ contents => contents.length
  | .deleteFile _ => 0
  | .updateFile _ _ chunks => (chunks.map UpdateFileChunk.weight).sum

def hunksWeight (hunks : List Hunk) : Nat := (hunks.map Hunk.weight).sum

lemma hunksWeight_concat (hunks : List Hunk) (h : Hunk) :
    hunksWeight (hunks ++ [h]) = hunksWeight hunks + h.weight := by
  simp [hunksWeight]

variable {l line : Text} {p q : StreamingPatchParser} {s : Section} {chunks : List UpdateFileChunk} {n : Nat}
  {f : UpdateFileChunk → UpdateFileChunk}

lemma hunksWeight_replace {hunks : List Hunk} (hl : hunks.getLast? = some last) (h : Hunk)
    (hw : h.weight = last.weight + n) : hunksWeight (hunks.dropLast ++ [h]) = hunksWeight hunks + n := by
  obtain ⟨_, rfl⟩ := getLast?_eq_some_iff.mp hl
  rw [dropLast_concat, hunksWeight_concat, hunksWeight_concat, hw, Nat.add_assoc]

/-! ## One line -/

lemma Section.ofHeader_of_head (h : l.head? ≠ some '*') : ofHeader l = none := by
  have hen : l ≠ endPatchMarker := fun he => h (he ▸ by decide)
  simp [ofHeader, hen, startsWith_eq_isSome, stripPrefix_of_head (show addFileMarker.head? = some '*' by decide) h,
    stripPrefix_of_head (show deleteFileMarker.head? = some '*' by decide) h,
    stripPrefix_of_head (show updateFileMarker.head? = some '*' by decide) h]

lemma Section.ofHeader_of_differ
    (h : ∀ m ∈ [endPatchMarker, addFileMarker, deleteFileMarker, updateFileMarker], differ m marker)
    (t : Text) : ofHeader (marker ++ t) = none := by
  simp only [forall_mem_cons] at h
  obtain ⟨he, ha, hd, hu, -⟩ := h
  simp [ofHeader, startsWith_eq_isSome, ne_of_differ he, stripPrefix_of_differ ha,
    stripPrefix_of_differ hd, stripPrefix_of_differ hu]

structure Tracks (s : Section) (p : StreamingPatchParser) (l : Text) (q : StreamingPatchParser) : Prop where
  section_eq : q.state.currentSection = s.next l
  weight_eq : hunksWeight q.state.hunks = hunksWeight p.state.hunks + s.gain l

lemma StreamingPatchParser.Headed.tracks (h : Headed p line q) :
    line.head? = some '*' ∧ hunksWeight q.state.hunks = hunksWeight p.state.hunks ∧
      q.state.currentSection = (ofHeader line).getD p.state.currentSection := by
  cases h with
  | environmentId rest hm hl => ?_
  | endPatch hl hla =>
    subst hl
    exact ⟨by decide, rfl, rfl⟩
  | addFile path hl =>
    obtain rfl := stripPrefix_eq_some.mp hl
    refine ⟨?_, by simp [hunksWeight, Hunk.weight], ?_⟩
    · simp [show addFileMarker.head? = some '*' by decide]
    · simp (disch := decide) [ofHeader, startsWith_eq_isSome, stripPrefix_append, currentSection, ne_of_differ]
  | deleteFile path hl =>
    obtain rfl := stripPrefix_eq_some.mp hl
    refine ⟨?_, by simp [hunksWeight, Hunk.weight], ?_⟩
    · simp [show deleteFileMarker.head? = some '*' by decide]
    · simp (disch := decide) [ofHeader, startsWith_eq_isSome, stripPrefix_append, currentSection,
        stripPrefix_of_differ]
  | updateFile path hl =>
    obtain rfl := stripPrefix_eq_some.mp hl
    refine ⟨?_, by simp [hunksWeight, Hunk.weight], ?_⟩
    · simp [show updateFileMarker.head? = some '*' by decide]
    · simp (disch := decide) [ofHeader, startsWith_eq_isSome, stripPrefix_append, currentSection, ne_of_differ,
        stripPrefix_of_differ, chunksSection]
  obtain rfl := stripPrefix_eq_some.mp hl
  refine ⟨?_, rfl, ?_⟩
  · simp [show environmentIdMarker.head? = some '*' by decide]
  · rw [ofHeader_of_differ (by decide)]
    simp [currentSection]

lemma chunksSection_of_open (ho : chunks.getLast?.any (·.isEndOfFile) = false) :
    chunksSection chunks = .updateFresh ∨ chunksSection chunks = .updateOpen := by
  cases hl : chunks.getLast? with
  | none => simp [chunksSection, hl]
  | some chunk => simp_all [chunksSection]

lemma chunksSection_onLastChunk (ho : chunks.getLast?.any (·.isEndOfFile) = false)
    (hf : ∀ c, (f c).isEndOfFile = c.isEndOfFile) : chunksSection (onLastChunk chunks f) = .updateOpen := by
  cases hl : chunks.getLast? with
  | none => simp [chunksSection, onLastChunk, hl, hf]
  | some chunk => simp_all [chunksSection, onLastChunk]

def chunksWeight (chunks : List UpdateFileChunk) : Nat := (chunks.map UpdateFileChunk.weight).sum

lemma chunksWeight_onLastChunk (chunks : List UpdateFileChunk) (hf : ∀ c, (f c).weight = c.weight + n) :
    chunksWeight (onLastChunk chunks f) = chunksWeight chunks + n := by
  rcases hl : chunks.getLast? with _ | chunk
  · obtain rfl := getLast?_eq_none_iff.mp hl
    simpa [chunksWeight, onLastChunk, UpdateFileChunk.weight, textLength] using hf {}
  obtain ⟨_, rfl⟩ := getLast?_eq_some_iff.mp hl
  simp [chunksWeight, onLastChunk, hf, Nat.add_assoc]

lemma Section.nextInUpdate_of_head (hs : s = .updateFresh ∨ s = .updateOpen) (h : l.head? ≠ some '*') :
    s.nextInUpdate l = .updateOpen := by
  have hl := trimEnd_head_ne h
  have heo : trimEnd l ≠ eofMarker := fun he => hl (he ▸ by decide)
  rcases hs with rfl | rfl <;>
    simp [nextInUpdate, heo, startsWith_eq_isSome,
      stripPrefix_of_head (show moveToMarker.head? = some '*' by decide) hl]

lemma Section.nextInUpdate_of_contextMarker (hs : s ≠ .outside ∧ s ≠ .addFile)
    (hm : isContextMarker (trimEnd l)) (h : l.head? ≠ some '*') :
    s.nextInUpdate l = .updateOpen := by
  cases s with
  | updateFresh => exact nextInUpdate_of_head (.inl rfl) h
  | updateOpen => exact nextInUpdate_of_head (.inr rfl) h
  | updateClosed => simp [nextInUpdate, hm]
  | outside | addFile => simp at hs

lemma chunksSection_ne (chunks : List UpdateFileChunk) :
    chunksSection chunks ≠ .outside ∧ chunksSection chunks ≠ .addFile := by
  unfold chunksSection
  split
  · simp
  · split <;> simp

lemma Section.gain_of_not_carries (h : s.carriesText l = false) : s.gain l = 0 := by
  simp [gain, h]

variable {c : Char} {chunks' : List UpdateFileChunk}

lemma Section.carriesText_of_head (h : l.head? = some c) (hc : c ≠ ' ' ∧ c ≠ '+' ∧ c ≠ '-') :
    s.carriesText l = false := by
  cases s <;> simp [carriesText, h, hc]

lemma head_of_trimEnd (h : (trimEnd l).head? = some c) : l.head? = some c := by
  by_contra hne
  exact trimEnd_head_ne hne h

lemma tracks_chunkHeader (chunks : List UpdateFileChunk) (context : Option Text)
    (hm : isContextMarker (trimEnd line)) (hh : (trimEnd line).head? = some '@') :
    chunksSection (chunks ++ [{ changeContext := context }]) = (chunksSection chunks).nextInUpdate line ∧
      chunksWeight (chunks ++ [{ changeContext := context }]) =
        chunksWeight chunks + (chunksSection chunks).gain line := by
  have hl := head_of_trimEnd hh
  rw [nextInUpdate_of_contextMarker (chunksSection_ne chunks) hm (by simp [hl]),
    gain_of_not_carries (carriesText_of_head hl (by decide))]
  exact ⟨by simp [chunksSection], by simp [chunksWeight, UpdateFileChunk.weight, textLength]⟩

lemma tracks_change (ho : chunks.getLast?.any (·.isEndOfFile) = false) (hh : line.head? ≠ some '*')
    (hf : ∀ c, (f c).isEndOfFile = c.isEndOfFile)
    (hg : ∀ c, (f c).weight = c.weight + (chunksSection chunks).gain line) :
    chunksSection (onLastChunk chunks f) = (chunksSection chunks).nextInUpdate line ∧
      chunksWeight (onLastChunk chunks f) = chunksWeight chunks + (chunksSection chunks).gain line := by
  rw [nextInUpdate_of_head (chunksSection_of_open ho) hh, chunksSection_onLastChunk ho hf,
    chunksWeight_onLastChunk chunks hg]
  exact ⟨rfl, rfl⟩

lemma Section.gain_change (hs : s = .updateFresh ∨ s = .updateOpen) (text : Text) :
    s.gain (' ' :: text) = 2 * text.length ∧ s.gain ('+' :: text) = text.length ∧
      s.gain ('-' :: text) = text.length ∧ s.gain [] = 0 := by
  rcases hs with rfl | rfl <;> simp [gain, carriesText]

lemma StreamingPatchParser.Chunked.tracks (h : Chunked chunks line chunks') :
    chunksSection chunks' = (chunksSection chunks).nextInUpdate line ∧
      chunksWeight chunks' = chunksWeight chunks + (chunksSection chunks).gain line := by
  cases h with
  | closedBlank hcl hl =>
    obtain ⟨c, hc, _⟩ := (Option.any_eq_true _ _).mp hcl
    have hse : chunksSection chunks = .updateClosed := by simp_all [chunksSection]
    have hm : isContextMarker [] = false := by decide
    simp [hse, Section.nextInUpdate, hl, hm, gain, Section.carriesText]
  | emptyHeader hl =>
    exact tracks_chunkHeader chunks none (by rw [hl]; decide) (by rw [hl]; decide)
  | header context hl =>
    have hl' := stripPrefix_eq_some.mp hl
    refine tracks_chunkHeader chunks (some context) ?_ ?_
    · simp [isContextMarker, startsWith_eq_isSome, hl]
    · rw [hl', head?_append, show changeContextMarker.head? = some '@' by decide]
      rfl
  | endOfFile ho hl => ?_
  | context text ho hl =>
    have hs := gain_change (chunksSection_of_open ho) text
    obtain ⟨rfl, rfl⟩ | rfl := hl
    · refine tracks_change ho (by simp) (fun c => rfl) fun c => ?_
      simp [hs, UpdateFileChunk.weight, pushContextLine, textLength]
    refine tracks_change ho (by simp) (fun c => rfl) fun c => ?_
    simp [UpdateFileChunk.weight, pushContextLine, textLength]
    omega
  | added text ho hl =>
    subst hl
    have hs := gain_change (chunksSection_of_open ho) text
    refine tracks_change ho (by simp) (fun c => rfl) fun c => ?_
    simp [UpdateFileChunk.weight, pushNewLine, textLength]
    omega
  | removed text ho hl =>
    subst hl
    have hs := gain_change (chunksSection_of_open ho) text
    refine tracks_change ho (by simp) (fun c => rfl) fun c => ?_
    simp [UpdateFileChunk.weight, pushOldLine, textLength]
    omega
  have hh : line.head? = some '*' := head_of_trimEnd (by rw [hl]; decide)
  rw [gain_of_not_carries (carriesText_of_head hh (by decide))]
  rcases hla : chunks.getLast? with _ | chunk
  · obtain rfl := getLast?_eq_none_iff.mp hla
    simp [chunksSection, markEndOfFile, Section.nextInUpdate, hl]
  obtain ⟨_, rfl⟩ := getLast?_eq_some_iff.mp hla
  have hc : chunk.isEndOfFile = false := by simpa using ho
  simp [chunksSection, markEndOfFile, Section.nextInUpdate, hl, hc, chunksWeight, UpdateFileChunk.weight]

lemma StreamingPatchParser.Chunked.ofHeader_eq_none (h : Chunked chunks line chunks') :
    ofHeader (trimEnd line) = none := by
  cases h with
  | closedBlank hc hl =>
    rw [hl]
    decide
  | emptyHeader hl =>
    rw [hl]
    decide
  | header context hl =>
    rw [stripPrefix_eq_some.mp hl]
    exact ofHeader_of_differ (by decide) context
  | endOfFile ho hl =>
    rw [hl]
    decide
  | context text ho hl =>
    refine ofHeader_of_head (trimEnd_head_ne ?_)
    obtain ⟨rfl, -⟩ | rfl := hl <;> simp
  | added text ho hl | removed text ho hl =>
    subst hl
    exact ofHeader_of_head (trimEnd_head_ne (by simp))

lemma StreamingPatchParser.Headed.ofHeader_isSome (h : Headed p line q)
    (hm : p.state.mode ≠ .startedPatch) : (ofHeader line).isSome := by
  cases h with
  | environmentId rest hs hl => exact absurd hs hm
  | endPatch hl hla => simp [ofHeader, hl]
  | addFile path hl | deleteFile path hl | updateFile path hl =>
    simp only [ofHeader, startsWith_eq_isSome, hl, Option.isSome_some]
    split_ifs <;> rfl

lemma trim_of_trimEnd_star (h : (trimEnd l).head? = some '*') : trim l = trimEnd l := by
  rcases l with _ | ⟨c, l⟩
  · rfl
  obtain rfl : c = '*' := by simpa using head_of_trimEnd h
  exact trim_cons _ _ (by decide)

lemma Section.next_of_header (hs : (trimEnd l).head? = some '*')
    (h : (ofHeader (trimEnd l)).isSome) (d : Section) : s.next l = (ofHeader (trimEnd l)).getD d := by
  obtain ⟨t, ht⟩ := Option.isSome_iff_exists.mp h
  cases s <;> simp [next, trim_of_trimEnd_star hs, ht]

lemma Section.next_of_update (hs : s ≠ .outside ∧ s ≠ .addFile) (l : Text) :
    s.next l = (ofHeader (trimEnd l)).getD (s.nextInUpdate l) := by
  cases s with
  | outside | addFile => simp at hs
  | _ => rfl

lemma carriesText_of_trim_star (h : (trim l).head? = some '*') (s : Section)
    (hs : s = .outside ∨ s = .addFile) : s.carriesText l = false := by
  rcases l with _ | ⟨c, l⟩
  · simp [trim, trimStart, trimEnd] at h
  by_cases hc : c = '+'
  · subst hc
    rw [trim_cons _ _ (by decide)] at h
    exact absurd h (trimEnd_head_ne (by simp))
  · rcases hs with rfl | rfl <;> simp [Section.carriesText, hc]

lemma currentSection_setUpdateHunk (hm : p.state.mode = .updateFile n) (path : Text)
    (movePath : Option Text) (chunks : List UpdateFileChunk) :
    (p.setUpdateHunk path movePath chunks).state.currentSection = chunksSection chunks := by
  simp [currentSection, setUpdateHunk, hm]

lemma currentSection_of_update (hm : p.state.mode = .updateFile n)
    (hl : p.state.hunks.getLast? = some (.updateFile path movePath chunks)) :
    p.state.currentSection = chunksSection chunks := by
  simp [currentSection, hm, hl]

/-- **The scan and the parser agree on every accepted line.** -/
lemma tracks_of_processed (h : Processed p line q) : Tracks p.state.currentSection p line q := by
  cases h with
  | beginPatch hm hl =>
    have hse : p.state.currentSection = .outside := by simp [currentSection, hm]
    have hn : ofHeader beginPatchMarker = none := by decide
    refine ⟨?_, ?_⟩
    · rw [hse, Section.next, hl, hn]
      rfl
    · simp [hse, gain, Section.carriesText, setMode]
  | headed hm hq =>
    obtain ⟨hst, hw, hse⟩ := hq.tracks
    have hs : p.state.currentSection = .outside ∨ p.state.currentSection = .addFile := by
      rcases hm with h | h | h <;> simp [currentSection, h]
    refine ⟨?_, ?_⟩
    · rw [hse]
      rcases hs with hs | hs <;> rw [hs] <;> rfl
    · rw [hw, gain_of_not_carries (carriesText_of_trim_star hst _ hs), Nat.add_zero]
  | headedInUpdate n hm hq =>
    obtain ⟨hst, hw, hse⟩ := hq.tracks
    have hh := head_of_trimEnd hst
    refine ⟨?_, ?_⟩
    · rw [hse, next_of_header hst (hq.ofHeader_isSome (by simp [hm]))]
    · rw [hw, gain_of_not_carries (carriesText_of_head hh (by decide)), Nat.add_zero]
  | addLine path contents text hm hla hl =>
    subst hl
    have hse : p.state.currentSection = .addFile := by simp [currentSection, hm]
    have hn : ofHeader (trim ('+' :: text)) = none := by
      rw [trim_cons _ _ (by decide)]
      exact ofHeader_of_head (trimEnd_head_ne (by simp))
    refine ⟨?_, ?_⟩
    · rw [hse, Section.next, hn]
      simp [currentSection, hm]
    · refine hunksWeight_replace hla _ ?_
      simp [Hunk.weight, hse, gain, Section.carriesText]
  | moveTo n path dest hm hla hl => ?_
  | chunked n path movePath chunks chunks' hm hla hc =>
    have hse := currentSection_of_update hm hla
    refine ⟨?_, ?_⟩
    · rw [currentSection_setUpdateHunk hm, hse, next_of_update (chunksSection_ne _),
        hc.ofHeader_eq_none]
      exact hc.tracks.1
    · rw [hse]
      exact hunksWeight_replace hla _ hc.tracks.2
  | afterEnd hm hl =>
    have hse : p.state.currentSection = .outside := by simp [currentSection, hm]
    have hn : ofHeader [] = none := by decide
    refine ⟨?_, ?_⟩
    · rw [hse, Section.next, hl, hn]
      rfl
    · simp [hse, gain, Section.carriesText]
  have hse := currentSection_of_update hm hla
  have hh : line.head? = some '*' := head_of_trimEnd (by
    rw [stripPrefix_eq_some.mp hl, head?_append, show moveToMarker.head? = some '*' by decide]
    rfl)
  have hn : ofHeader (trimEnd line) = none := by
    rw [stripPrefix_eq_some.mp hl]
    exact ofHeader_of_differ (by decide) dest
  refine ⟨?_, ?_⟩
  · rw [currentSection_setUpdateHunk hm, hse, next_of_update (chunksSection_ne _), hn]
    simp [chunksSection, Section.nextInUpdate, startsWith_eq_isSome, hl]
  · rw [gain_of_not_carries (carriesText_of_head hh (by decide))]
    exact hunksWeight_replace hla _ rfl

/-! ## Whole runs -/

namespace Section

section

variable (s : Section)

def scan (ls : List Text) : Section := ls.foldl next s

def gains : Section → List Text → Nat
  | _, [] => 0
  | s, l :: ls => s.gain (stripCr l) + (s.next l).gains ls

/-- No line that carries text ends in two CRs. -/
def SingleCr : Section → List Text → Prop
  | _, [] => True
  | s, l :: ls => ¬ (s.carriesText l = true ∧ ['\r', '\r'] <:+ l) ∧ (s.next l).SingleCr ls

instance SingleCr.decidable : (s : Section) → (ls : List Text) → Decidable (s.SingleCr ls)
  | _, [] => .isTrue trivial
  | s, l :: ls =>
    haveI := SingleCr.decidable (s.next l) ls
    inferInstanceAs (Decidable (¬ (s.carriesText l = true ∧ ['\r', '\r'] <:+ l) ∧ (s.next l).SingleCr ls))

lemma singleCr_append (ls ms : List Text) :
    s.SingleCr (ls ++ ms) ↔ s.SingleCr ls ∧ (s.scan ls).SingleCr ms := by
  induction ls generalizing s with
  | nil => simp [SingleCr, scan]
  | cons l ls ih => simp [SingleCr, ih, scan, and_assoc]

lemma next_stripCr (l : Text) : s.next (stripCr l) = s.next l :=
  s.next_congr (trimEnd_stripCr l)

lemma carriesText_append_cr (l : Text) (w : Text) (hw : ∀ c ∈ w, c = '\r') :
    s.carriesText (l ++ w) = s.carriesText l := by
  cases l with
  | cons c l => cases s <;> rfl
  | nil => ?_
  rcases w with _ | ⟨c, w⟩
  · rfl
  obtain rfl := hw c (by simp)
  cases s <;> rfl

lemma carriesText_stripCr (l : Text) : s.carriesText (stripCr l) = s.carriesText l := by
  by_cases hcr : l.getLast? = some '\r'
  · obtain ⟨m, rfl⟩ := getLast?_eq_some_iff.mp hcr
    rw [stripCr_concat, if_pos rfl, s.carriesText_append_cr m ['\r'] (by simp)]
  · rw [stripCr_of_last l hcr]

lemma gain_stripCr_le (l : Text) : s.gain (stripCr l) ≤ s.gain l := by
  by_cases hcr : l.getLast? = some '\r'
  · obtain ⟨m, rfl⟩ := getLast?_eq_some_iff.mp hcr
    rw [stripCr_concat, if_pos rfl, gain, gain, s.carriesText_append_cr m ['\r'] (by simp)]
    cases m with
    | nil => cases s <;> simp [carriesText]
    | cons c m =>
      grind
  · rw [stripCr_of_last l hcr]

lemma gain_stripCr_lt {s : Section} (hc : s.carriesText l)
    (hcr : ['\r', '\r'] <:+ l) : s.gain (stripCr (stripCr l)) < s.gain (stripCr l) := by
  obtain ⟨m, rfl⟩ := hcr
  have hl : m ++ ['\r', '\r'] = (m ++ ['\r']) ++ ['\r'] := by simp
  rw [s.carriesText_append_cr m _ (by simp)] at hc
  rw [hl, stripCr_concat, if_pos rfl, stripCr_concat, if_pos rfl, gain, gain,
    s.carriesText_append_cr m ['\r'] (by simp), hc, if_pos rfl, if_pos rfl]
  cases m with
  | nil => cases s <;> simp [carriesText] at hc
  | cons c m =>
    grind

lemma gains_stripCr_le (ls : List Text) : s.gains (ls.map stripCr) ≤ s.gains ls := by
  induction ls generalizing s with
  | nil => exact le_rfl
  | cons l ls ih =>
    simp only [map_cons, gains, next_stripCr]
    exact Nat.add_le_add (gain_stripCr_le _ _) (ih _)

end

lemma gains_stripCr_lt (h : ¬ s.SingleCr ls) :
    s.gains (ls.map stripCr) < s.gains ls := by
  induction ls generalizing s with
  | nil => exact absurd trivial h
  | cons l ls ih => ?_
  simp only [map_cons, gains, next_stripCr]
  rw [SingleCr, Classical.not_and_iff_not_or_not, not_not] at h
  rcases h with ⟨hc, hcr⟩ | h
  · exact Nat.add_lt_add_of_lt_of_le (gain_stripCr_lt hc hcr) (gains_stripCr_le _ _)
  · exact Nat.add_lt_add_of_le_of_lt (gain_stripCr_le _ _) (ih h)

end Section

lemma feedLine_tracks (h : p.feedLine l = .ok q) :
    q.state.currentSection = p.state.currentSection.next l ∧
      hunksWeight q.state.hunks = hunksWeight p.state.hunks + p.state.currentSection.gain (stripCr l) := by
  have ht := tracks_of_processed (processed_of_ok h)
  exact ⟨ht.section_eq.trans (next_stripCr _ l), ht.weight_eq⟩

lemma feedLines_tracks (h : p.feedLines ls = .ok q) :
    q.state.currentSection = p.state.currentSection.scan ls ∧
      hunksWeight q.state.hunks = hunksWeight p.state.hunks + p.state.currentSection.gains ls := by
  induction ls generalizing p with
  | nil =>
    obtain rfl : p = q := by simpa [feedLines] using h
    exact ⟨rfl, rfl⟩
  | cons l ls ih => ?_
  obtain ⟨m, hm, h⟩ := foldlM_cons_ok.mp h
  obtain ⟨hs, hw⟩ := feedLine_tracks hm
  obtain ⟨hs', hw'⟩ := ih h
  rw [hs] at hs' hw'
  exact ⟨hs', by rw [hw', hw, Section.gains, Nat.add_assoc]⟩

end Codex.ApplyPatch
