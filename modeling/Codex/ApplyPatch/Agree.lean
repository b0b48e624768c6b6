import Codex.ApplyPatch.Parser
import Codex.ApplyPatch.Sections

/-!
# The streamed and the whole parse

`parse_patch` trims the text and cuts it with `str::lines` before it streams the lines.
-/

namespace Codex.ApplyPatch

open Codex.Text Codex.Result StreamingPatchParser List Section

/-! ## A second CR -/

variable {p q m : StreamingPatchParser} {ls : List Text} {l e r : Text}

variable {path a b line first : Text} {movePath : Option Text} {chunks : List UpdateFileChunk}
  {blanks : List Text}

lemma processUpdateLine_congr (ht : trimEnd a = trimEnd b)
    (hch : chunks.getLast?.any (·.isEndOfFile) = false → ∀ r, p.processChangeLine path movePath chunks a ≠ .ok r)
    (h : p.processUpdateLine path movePath chunks a = .ok q) :
    p.processUpdateLine path movePath chunks b = .ok q := by
  unfold processUpdateLine at h ⊢
  simp only [ht] at h ⊢
  split at h
  · rwa [if_pos ‹_›]
  rw [if_neg ‹_›]
  split at h
  · simp at h
  rename_i hcl
  rw [if_neg hcl]
  cases hm : moveTarget movePath chunks (trimEnd b) with
  | some dest => simpa [hm] using h
  | none => ?_
  simp only [hm] at h ⊢
  split at h
  · simp at h
  rw [if_neg ‹_›]
  split at h
  · rwa [if_pos ‹_›]
  rename_i he
  rw [if_neg he]
  cases hc : stripPrefix changeContextMarker (trimEnd b) with
  | some context => simpa [hc] using h
  | none => ?_
  simp only [hc] at h ⊢
  split at h
  · split at h
    · simp at h
    · rwa [if_pos ‹_›, if_neg ‹_›]
  · refine absurd h (hch ?_ q)
    simpa [isContextMarker, he, startsWith_eq_isSome, hc] using hcl

lemma processChangeLine_head (h : p.processChangeLine path movePath chunks line = .ok q) :
    line = [] ∨ line.head? = some ' ' ∨ line.head? = some '+' ∨ line.head? = some '-' := by
  unfold processChangeLine at h
  split at h
  · exact .inl rfl
  · exact .inr (.inl rfl)
  · exact .inr (.inr (.inl rfl))
  · exact .inr (.inr (.inr rfl))
  · split_ifs at h

lemma processLine_congr (ht : trimEnd a = trimEnd b) (hne : a ≠ [])
    (hc : p.state.currentSection.carriesText a = false) (h : p.processLine a = .ok q) :
    p.processLine b = .ok q := by
  have ht' : trim a = trim b := trim_congr ht
  unfold processLine at h ⊢
  cases hm : p.state.mode with
  | notStarted | startedPatch | deleteFile | endedPatch => simpa only [hm, ht'] using h
  | addFile =>
    simp only [hm, ht'] at h ⊢
    obtain ⟨r, hr, h⟩ := bind_eq_ok.mp h
    rw [hr, ok_bind]
    cases r with
    | some r => exact h
    | none =>
      -- Only a `'+'` line is taken he, and it carries text.
      obtain ⟨text, rfl⟩ : ∃ text, a = '+' :: text := by
        simp only [processAddLine] at h
        split at h
        · exact ⟨_, rfl⟩
        · simp at h
      simp [StreamingParserState.currentSection, hm, carriesText] at hc
  | updateFile n => ?_
  simp only [hm, ht] at h ⊢
  obtain ⟨r, hr, h⟩ := bind_eq_ok.mp h
  rw [hr, ok_bind]
  cases r with
  | some r => exact h
  | none => ?_
  simp only at h ⊢
  split at h
  · rename_i hl
    refine processUpdateLine_congr ht (fun ho r hr => ?_) h
    rw [currentSection_of_update hm hl] at hc
    rcases processChangeLine_head hr with rfl | hh
    · exact hne rfl
    · rcases chunksSection_of_open ho with hs | hs <;>
        simp [hs, carriesText] at hc <;> tauto
  · simp at h

lemma feedLine_stripCr (hcr : ¬ (p.state.currentSection.carriesText l ∧ ['\r', '\r'] <:+ l))
    (h : p.feedLine l = .ok q) : p.feedLine (stripCr l) = .ok q := by
  unfold feedLine at h ⊢
  by_cases hla : (stripCr l).getLast? = some '\r'
  · obtain ⟨m, hm⟩ := getLast?_eq_some_iff.mp hla
    have hl : l = m ++ ['\r', '\r'] := by
      by_cases hl : l.getLast? = some '\r'
      · obtain ⟨t, rfl⟩ := getLast?_eq_some_iff.mp hl
        rw [stripCr_concat, if_pos rfl] at hm
        simp [hm]
      · rw [stripCr_of_last l hl] at hla
        exact absurd hla hl
    have hca : p.state.currentSection.carriesText (stripCr l) = false := by
      rw [carriesText_stripCr, Bool.eq_false_iff]
      exact fun hc => hcr ⟨hc, hl ▸ suffix_append m _⟩
    exact processLine_congr (trimEnd_stripCr _).symm (by simp [hm]) hca h
  · rwa [stripCr_of_last _ hla]

lemma feedLines_stripCr (hcr : p.state.currentSection.SingleCr ls) (h : p.feedLines ls = .ok q) :
    p.feedLines (ls.map stripCr) = .ok q := by
  induction ls generalizing p with
  | nil => exact h
  | cons l ls ih => ?_
  obtain ⟨m, hm, h⟩ := foldlM_cons_ok.mp h
  refine foldlM_cons_ok.mpr ⟨m, feedLine_stripCr hcr.1 hm, ih ?_ h⟩
  rw [(feedLine_tracks hm).1]
  exact hcr.2

/-! ## The end of the patch -/

lemma mode_of_blank (hb : trimEnd l = []) (h : Processed p l q) :
    q.state.mode = p.state.mode ∧ (p.state.mode = .endedPatch → q.state = p.state) := by
  have htr := trim_eq_nil.mpr hb
  cases h with
  | beginPatch hm hl =>
    rw [htr] at hl
    cases hl
  | headed hm hq =>
    have hs := hq.tracks.1
    simp [htr] at hs
  | headedInUpdate n hm hq =>
    have hs := hq.tracks.1
    simp [hb] at hs
  | addLine path contents text hm hla hl =>
    obtain ⟨t, ht⟩ := trimEnd_cons_visible '+' text (by decide)
    simp [hl, ht] at hb
  | moveTo n path dest hm hla hl =>
    rw [hb] at hl
    exact absurd (stripPrefix_eq_some.mp hl) (by simp [show moveToMarker ≠ [] by decide])
  | chunked n path movePath chunks chunks' hm hla hc =>
    exact ⟨rfl, fun he => absurd (hm.symm.trans he) (by simp)⟩
  | afterEnd hm hl => exact ⟨rfl, fun _ => rfl⟩

structure Ends (p : StreamingPatchParser) (l : Text) (q : StreamingPatchParser) : Prop where
  line_eq : trim l = endPatchMarker
  parser_eq : q = p.setMode .endedPatch
  full : p.ensureUpdateHunkIsNotEmpty endPatchMarker = .ok ()
  no_text : p.state.currentSection.carriesText l = false

lemma ends_of_ended (hv : trimEnd l ≠ []) (he : q.state.mode = .endedPatch) (h : Processed p l q) :
    Ends p l q := by
  cases h with
  | beginPatch hm hl => simp [setMode] at he
  | headed hm hq => ?_
  | headedInUpdate n hm hq =>
    have hsta := hq.tracks.1
    have hc : p.state.currentSection.carriesText l = false :=
      carriesText_of_head (head_of_trimEnd hsta) (by decide)
    cases hq with
    | environmentId rest hst hl => simp [hst] at he
    | endPatch hl hla => exact ⟨(trim_of_trimEnd_star hsta).trans hl, rfl, hl ▸ hla, hc⟩
    | addFile | deleteFile | updateFile => simp at he
  | addLine path contents text hm hla hl => simp [hm] at he
  | moveTo n path dest hm hla hl
  | chunked n path movePath chunks chunks' hm hla hch => simp [setUpdateHunk, hm] at he
  | afterEnd hm hl => exact absurd (trim_eq_nil.mp hl) hv
  have hs : p.state.currentSection = .outside ∨ p.state.currentSection = .addFile := by
    rcases hm with h | h | h <;> simp [StreamingParserState.currentSection, h]
  have hc := carriesText_of_trim_star hq.tracks.1 _ hs
  cases hq with
  | environmentId rest hst hl => simp [hst] at he
  | endPatch hl hla => exact ⟨hl, rfl, hl ▸ hla, hc⟩
  | addFile | deleteFile | updateFile => simp at he

lemma feedLines_blanks (hb : ∀ l ∈ ls, trimEnd l = []) (h : p.feedLines ls = .ok q) :
    q.state.mode = p.state.mode ∧ (p.state.mode = .endedPatch → q.state = p.state) := by
  refine foldlM_invariant (fun q => q.state.mode = p.state.mode ∧ (p.state.mode = .endedPatch → q.state = p.state)) h
    ⟨rfl, fun _ => rfl⟩ fun s l t hl hs ht => ?_
  obtain ⟨hm, hst⟩ := mode_of_blank ((trimEnd_stripCr l).trans (hb l hl)) (processed_of_ok ht)
  exact ⟨hm.trans hs.1, fun he => (hst (hs.1.trans he)).trans (hs.2 he)⟩

lemma exists_last_visible (ls : List Text) : (∀ l ∈ ls, trimEnd l = []) ∨
    ∃ pre last blanks, ls = pre ++ last :: blanks ∧ trimEnd last ≠ [] ∧ ∀ b ∈ blanks, trimEnd b = [] := by
  induction ls with
  | nil => simp
  | cons l ls ih => ?_
  obtain hb | ⟨pre, last, blanks, rfl, hla, hbl⟩ := ih
  · by_cases hl : trimEnd l = []
    · exact .inl (by simpa [hl] using hb)
    · exact .inr ⟨[], l, ls, rfl, hl, hb⟩
  · exact .inr ⟨l :: pre, last, blanks, rfl, hla, hbl⟩

lemma ensure_ok_congr (h : p.ensureUpdateHunkIsNotEmpty line = .ok ())
    (hs : q.state = p.state) : q.ensureUpdateHunkIsNotEmpty line' = .ok () := by
  unfold ensureUpdateHunkIsNotEmpty at h ⊢
  split at h
  · split at h
    · simp at h
    split at h
    · split at h <;> simp at h
    · simp_all
  · simp_all

lemma finish_of_end (he : trim e = endPatchMarker) :
    { p with lineBuffer := e }.finish =
      ({ p with lineBuffer := [], lineNumber := p.lineNumber + 1 }.ensureUpdateHunkIsNotEmpty endPatchMarker >>=
        fun _ => .ok ({ p with lineBuffer := [], lineNumber := p.lineNumber + 1 }.setMode .endedPatch)) := by
  have hne : e ≠ [] := by
    rintro rfl
    cases he
  simp only [finish, finishLine, List.isEmpty_iff, hne, if_false, he, if_true, bind_assoc]
  rfl

lemma finish_ok (h : { p with lineBuffer := r }.finish = .ok q) :
    (trimEnd r = [] ∧ p.state.mode = .endedPatch ∧ q.state = p.state) ∨
    (trim r = endPatchMarker ∧ p.ensureUpdateHunkIsNotEmpty endPatchMarker = .ok () ∧
      q.state = { p.state with mode := .endedPatch }) := by
  by_cases he : trim r = endPatchMarker
  · rw [finish_of_end he] at h
    obtain ⟨_, hf, h⟩ := bind_eq_ok.mp h
    cases h
    exact .inr ⟨he, ensure_ok_congr hf rfl, rfl⟩
  obtain ⟨m, hm, h⟩ := bind_eq_ok.mp h
  split_ifs at h with hen
  obtain rfl : m = q := by simpa using h
  unfold finishLine at hm
  simp only [List.isEmpty_iff, he] at hm
  split at hm
  · rename_i hn
    cases hm
    exact .inl ⟨by rw [hn]; rfl, hen, rfl⟩
  by_cases hb : trimEnd r = []
  · obtain ⟨hmo, hs⟩ := mode_of_blank hb (processed_of_ok hm)
    have hp : p.state.mode = .endedPatch := hmo.symm.trans hen
    exact .inl ⟨hb, hp, hs hp⟩
  · exact absurd (ends_of_ended hb hen (processed_of_ok hm)).line_eq he

structure Streamed (ls : List Text) (r : Text) (state : StreamingParserState) (pre : List Text) (e : Text)
    (blanks : List Text) (m : StreamingPatchParser) : Prop where
  lines_eq : ls ++ [r] = pre ++ e :: blanks
  end_eq : trim e = endPatchMarker
  blanks_eq : ∀ b ∈ blanks, trimEnd b = []
  parsed : feedLines {} pre = .ok m
  full : m.ensureUpdateHunkIsNotEmpty endPatchMarker = .ok ()
  state_eq : state = { m.state with mode := .endedPatch }
  singleCr_iff : Section.outside.SingleCr ls ↔ Section.outside.SingleCr pre

lemma Section.singleCr_blanks (h : ∀ l ∈ ls, trimEnd l = []) : outside.SingleCr ls := by
  induction ls with
  | nil => trivial
  | cons l ls ih => ?_
  have hn : outside.next l = .outside := by
    rw [next, trim_eq_nil.mpr (h l (by simp))]
    decide
  rw [SingleCr, hn]
  exact ⟨by simp [carriesText], ih fun m hm => h m (by simp [hm])⟩

lemma streamed_of_ok (hf : feedLines {} ls = .ok p) (hfi : { p with lineBuffer := r }.finish = .ok q) :
    ∃ pre e blanks m, Streamed ls r q.state pre e blanks m := by
  obtain ⟨hbl, hend, hs⟩ | ⟨he, hfu, hs⟩ := finish_ok hfi
  · obtain ha | ⟨pre, e, blanks, rfl, hv, hb⟩ := exists_last_visible ls
    · -- No line was visible, so the patch never started.
      have hmo := (feedLines_blanks ha hf).1
      exact absurd (hmo.symm.trans hend) (by decide)
    obtain ⟨m, hm, hr⟩ := foldlM_append_ok.mp hf
    obtain ⟨n, hn, hr⟩ := foldlM_cons_ok.mp hr
    obtain ⟨hmo, hk⟩ := feedLines_blanks hb hr
    have hnen : n.state.mode = .endedPatch := hmo.symm.trans hend
    have hen := ends_of_ended ((trimEnd_stripCr e).symm ▸ hv) hnen (processed_of_ok hn)
    refine ⟨pre, e, blanks ++ [r], m, ?_, ?_, ?_, hm, ?_, ?_, ?_⟩
    · simp
    · rw [← hen.line_eq, trim_congr (trimEnd_stripCr e)]
    · simpa [or_imp, forall_and] using ⟨hb, hbl⟩
    · exact ensure_ok_congr hen.full rfl
    · rw [hs, hk hnen, hen.parser_eq]
      rfl
    · -- The lines from `*** End Patch` on carry no text.
      have hse : Section.outside.scan pre = m.state.currentSection := (feedLines_tracks hm).1.symm
      have hc : m.state.currentSection.carriesText e = false :=
        (carriesText_stripCr _ e).symm.trans hen.no_text
      have hnex : m.state.currentSection.next e = .outside := by
        rw [← (feedLine_tracks hn).1]
        simp [StreamingParserState.currentSection, hnen]
      rw [singleCr_append, hse, Section.SingleCr, hnex]
      simp [hc, singleCr_blanks hb]
  · exact ⟨ls, r, [], p, rfl, he, by simp, hf, hfu, hs, Iff.rfl⟩

/-! ## Both parses -/

lemma feedLine_begin (hm : p.state.mode = .notStarted) :
    p.feedLine l = .ok q ↔ trim l = beginPatchMarker ∧
      q = { p with lineNumber := p.lineNumber + 1 }.setMode .startedPatch := by
  simp only [feedLine, processLine, hm, trim_congr (trimEnd_stripCr l)]
  split_ifs with h
  · simp [h, eq_comm]
  · simp [h]

def begun : StreamingPatchParser := { state := { mode := .startedPatch }, lineNumber := 1 }

lemma parsePatch_eq (hf : trim first = beginPatchMarker) (he : trim e = endPatchMarker)
    (hb : ∀ b ∈ blanks, trimEnd b = []) (hlf : ∀ l ∈ first :: ls ++ e :: blanks, '\n' ∉ l) :
    ∃ patch, parsePatch (joinLf (first :: ls ++ e :: blanks)) =
      (begun.feedLines (ls.map stripCr) >>= fun m => { m with lineBuffer := trimEnd e }.finish >>= fun q =>
        .ok { patch, hunks := q.state.hunks, workdir := none, environmentId := q.state.environmentId }) := by
  have hs : trimStart first ≠ [] := by
    intro h
    rw [trim, h] at hf
    cases hf
  have hen : trimEnd e ≠ [] := by
    intro h
    rw [trim_eq_nil.mpr h] at he
    cases he
  have hlff : '\n' ∉ trimStart first := fun h => hlf first (by simp) (mem_trimStart h)
  have hll : ∀ l ∈ trimStart first :: ls, '\n' ∉ l := by
    intro l hl
    rcases mem_cons.mp hl with rfl | hl
    · exact hlff
    · exact hlf l (by simp [hl])
  have hlfe : '\n' ∉ trimEnd e := fun h => hlf e (by simp) (mem_trimEnd h)
  have hli := lines_unbreak (trimStart first :: ls) (trimEnd e) hll hlfe hen
  have hh : trim (stripCr (trimStart first)) = beginPatchMarker := by
    rw [trim_congr (trimEnd_stripCr _), trim, trimStart, trimStart, dropWhile_idempotent]
    exact hf
  have hla : trim (trimEnd e) = endPatchMarker := by
    rw [trim_congr (trimEnd_trimEnd e), he]
  have hbo : checkPatchBoundariesLenient ((trimStart first :: ls).map stripCr ++ [trimEnd e]) =
      .ok ((trimStart first :: ls).map stripCr ++ [trimEnd e]) := by
    refine checkPatchBoundariesLenient_of_strict ?_
    rw [getLast?_concat, map_cons, cons_append, head?_cons]
    simp [checkStartAndEndLinesStrict, hh, hla]
  have hls : ∀ l ∈ (trimStart first :: ls).map stripCr, '\n' ∉ l := by
    intro l hl
    obtain ⟨m, hm, rfl⟩ := mem_map.mp hl
    exact fun h => hll m hm (mem_stripCr h)
  have hfe : feedLine {} (stripCr (trimStart first)) = .ok begun :=
    (feedLine_begin rfl).mpr ⟨hh, rfl⟩
  refine ⟨joinLf ((trimStart first :: ls).map stripCr ++ [trimEnd e]), ?_⟩
  simp only [parsePatch, parsePatchText, trim_joinLf hs hen hb, hli, hbo, ok_bind]
  rw [joinLf_concat, pushDelta_unbreak {} rfl _ _ hls hlfe, map_cons, feedLines,
    foldlM_cons, hfe, ok_bind, bind_assoc]
  rfl

lemma parsePatch_of_end (h : trim t = endPatchMarker) : parsePatch t = .error firstLineError := by
  have hl : lines endPatchMarker = [endPatchMarker] := by decide
  have hb : checkPatchBoundariesLenient [endPatchMarker] = .error firstLineError := by rfl
  simp [parsePatch, parsePatchText, parseInStrictMode, h, hl, hb]

lemma Section.singleCr_cons_begin (h : trim l = beginPatchMarker) (ls : List Text) :
    outside.SingleCr (l :: ls) ↔ outside.SingleCr ls := by
  have hn : outside.next l = .outside := by
    rw [next, h]
    decide
  simp [SingleCr, carriesText, hn]

lemma singleCr_of_hunks_eq (h : p.feedLines ls = .ok m)
    (h' : p.feedLines (ls.map stripCr) = .ok m') (hh : m'.state.hunks = m.state.hunks) :
    p.state.currentSection.SingleCr ls := by
  by_contra hcr
  have hw := (feedLines_tracks h).2
  have hw' := (feedLines_tracks h').2
  have hlt := gains_stripCr_lt hcr
  rw [hh] at hw'
  omega

lemma finish_hunks (h : { m with lineBuffer := r }.finish = .ok q) :
    q.state.hunks = m.state.hunks ∧ q.state.environmentId = m.state.environmentId := by
  obtain ⟨-, -, hs⟩ | ⟨-, -, hs⟩ := finish_ok h <;> rw [hs] <;> exact ⟨rfl, rfl⟩

lemma parsePatch_agrees_iff (hfi : trim first = beginPatchMarker)
    (he : trim e = endPatchMarker) (hb : ∀ b ∈ blanks, trimEnd b = [])
    (hlf : ∀ l ∈ first :: pre ++ e :: blanks, '\n' ∉ l) (hp : begun.feedLines pre = .ok m)
    (hf : m.ensureUpdateHunkIsNotEmpty endPatchMarker = .ok ()) :
    (∃ args, parsePatch (joinLf (first :: pre ++ e :: blanks)) = .ok args ∧
      args.hunks = m.state.hunks ∧ args.environmentId = m.state.environmentId) ↔
    Section.outside.SingleCr pre := by
  obtain ⟨_, hpa⟩ := parsePatch_eq hfi he hb hlf
  rw [hpa]
  constructor
  · rintro ⟨args, ha, hh, -⟩
    obtain ⟨_, hm', ha⟩ := bind_eq_ok.mp ha
    obtain ⟨_, hq', ha⟩ := bind_eq_ok.mp ha
    rw [← Except.ok.inj ha] at hh
    exact singleCr_of_hunks_eq hp hm' ((finish_hunks hq').1.symm.trans hh)
  intro hcr
  have hs : begun.feedLines (pre.map stripCr) = .ok m := feedLines_stripCr hcr hp
  rw [hs, ok_bind, finish_of_end (show trim (trimEnd e) = _ by rw [trim_congr (trimEnd_trimEnd e), he])]
  have hf' : StreamingPatchParser.ensureUpdateHunkIsNotEmpty
      { m with lineBuffer := [], lineNumber := m.lineNumber + 1 } endPatchMarker = .ok () :=
    ensure_ok_congr hf rfl
  rw [hf']
  exact ⟨_, rfl, rfl, rfl⟩

/-- **Streamed and whole parse agree exactly when the text has an LF and no line with text in it ends in
two CRs.** -/
theorem streamed_agrees_iff (deltas : List Text) (p : StreamingPatchParser)
    (h : (deltas.foldlM pushDelta {} >>= finish) = .ok p) :
    (∃ args, parsePatch deltas.flatten = .ok args ∧ args.hunks = p.state.hunks ∧ args.environmentId = p.environmentId) ↔
    '\n' ∈ deltas.flatten ∧ Section.outside.SingleCr (breakLines deltas.flatten).1 := by
  rw [pushDelta_flatten] at h
  generalize deltas.flatten = t at h ⊢
  rw [pushDelta_eq {} rfl, bind_assoc] at h
  obtain ⟨q, hf, hfi⟩ := bind_eq_ok.mp h
  have hlf := breakLines_no_lf t
  have ht : joinLf ((breakLines t).1 ++ [(breakLines t).2]) = t := by rw [joinLf_concat, unbreak_breakLines]
  obtain ⟨pre, e, blanks, m, hs⟩ := streamed_of_ok hf hfi
  rw [lf_mem_iff, hs.singleCr_iff, StreamingPatchParser.environmentId, hs.state_eq]
  rcases hls : (breakLines t).1 with _ | ⟨first, ls⟩
  · -- The text is one unterminated line, which only `finish` accepts.
    have hen : trim t = endPatchMarker := by
      obtain ⟨-, he⟩ : pre = [] ∧ [e] = [(breakLines t).2] := by
        have ho := hs.lines_eq
        rw [hls, nil_append] at ho
        cases pre with
        | nil => simp_all
        | cons => simp at ho
      have hr : (breakLines t).2 = t := by simpa [hls, joinLf] using ht
      rw [← hr, ← (cons.inj he).1, hs.end_eq]
    simp [parsePatch_of_end hen]
  have hl := hs.lines_eq
  rw [hls, cons_append] at hl
  rw [hls] at hf
  obtain ⟨_, hfir, -⟩ := foldlM_cons_ok.mp hf
  obtain ⟨hb, -⟩ := (feedLine_begin rfl).mp hfir
  rcases pre with _ | ⟨first', pre⟩
  · obtain rfl : first = e := (cons.inj hl).1
    exact absurd (hb.symm.trans hs.end_eq) (by decide)
  obtain rfl : first = first' := (cons.inj hl).1
  obtain ⟨m₁, hm₁, hp⟩ := foldlM_cons_ok.mp hs.parsed
  obtain rfl : m₁ = begun := ((feedLine_begin rfl).mp hm₁).2
  have hlf' : ∀ l ∈ first :: pre ++ e :: blanks, '\n' ∉ l := by
    rw [← hs.lines_eq]
    simpa [or_imp, forall_and] using hlf
  rw [← ht, hs.lines_eq, singleCr_cons_begin hb, parsePatch_agrees_iff hb hs.end_eq hs.blanks_eq hlf' hp hs.full]
  simp

def streamedExample : List Text := ["*** Begin Patch\n*** Add File: a.txt\n+o", "ne\r\n*** End Patch"]

theorem streamed_agrees_example : ∃ args, parsePatch streamedExample.flatten = .ok args ∧
    args.hunks = [.addFile "a.txt" "one\n"] ∧ args.environmentId = none := by
  have hr : (streamedExample.foldlM pushDelta {} >>= finish) = .ok {
      state := { mode := .endedPatch, hunks := [.addFile "a.txt" "one\n"] }, lineNumber := 4 } := by decide
  exact (streamed_agrees_iff streamedExample _ hr).mpr (by decide)

/-- The two ways to part: a stream that is only `*** End Patch`, and an added line that ends in CR CR LF. -/
theorem streamed_disagrees :
    (pushDelta {} "*** End Patch" >>= finish).isOk ∧ ¬ (parsePatch "*** End Patch").isOk ∧
    ((pushDelta {} "*** Begin Patch\n*** Add File: a\n+x\r\r\n*** End Patch" >>= finish).map
      (·.state.hunks) = .ok [.addFile "a" "x\r\n"]) ∧
    ((parsePatch "*** Begin Patch\n*** Add File: a\n+x\r\r\n*** End Patch").map
      (·.hunks) = .ok [.addFile "a" "x\n"]) := by
  refine ⟨?_, ?_, ?_, ?_⟩
  all_goals decide

end Codex.ApplyPatch
