import Mathlib.Data.List.DropRight
import Mathlib.Data.List.Infix
import Mathlib.Data.List.ModifyLast

/-! # Text as the list of its characters, and the parts of `str` the programs use -/

namespace Codex

open List

abbrev Text := List Char

instance : Coe String Text := ⟨String.toList⟩

namespace Text

/-! ## White space -/

def isWhitespace (c : Char) : Bool :=
  let n := c.toNat
  (9 ≤ n && n ≤ 13) || n == 0x20 || n == 0x85 || n == 0xA0 || n == 0x1680 ||
    (0x2000 ≤ n && n ≤ 0x200A) || n == 0x2028 || n == 0x2029 || n == 0x202F || n == 0x205F ||
    n == 0x3000

def trimStart (s : Text) : Text := s.dropWhile isWhitespace
def trimEnd (s : Text) : Text := s.rdropWhile isWhitespace
def trim (s : Text) : Text := trimEnd (trimStart s)

def stripPrefix (p s : Text) : Option Text := s.dropPrefix? p

def startsWith (p s : Text) : Bool := p.isPrefixOf s

def splitOnce (pattern : Text) : Text → Option (Text × Text)
  | [] => if pattern.isEmpty then some ([], []) else none
  | c :: s =>
    match stripPrefix pattern (c :: s) with
    | some rest => some ([], rest)
    | none => (splitOnce pattern s).map fun (first, rest) => (c :: first, rest)

/-- One CR comes off the end, as `strip_suffix('\r')` does. -/
def stripCr (s : Text) : Text := if s.getLast? = some '\r' then s.dropLast else s

lemma trimEnd_concat (s : Text) (c : Char) : trimEnd (s ++ [c]) = if isWhitespace c then trimEnd s else s ++ [c] :=
  rdropWhile_concat _ _ _

lemma trimEnd_concat_ws (s : Text) (c : Char) (h : isWhitespace c) :
    trimEnd (s ++ [c]) = trimEnd s := by
  rw [trimEnd_concat, if_pos h]

lemma trimEnd_append_ws (s w : Text) (h : ∀ c ∈ w, isWhitespace c) :
    trimEnd (s ++ w) = trimEnd s := by
  induction w using reverseRecOn with
  | nil => simp
  | append_singleton w c ih =>
    rw [← append_assoc, trimEnd_concat_ws _ _ (h c (by simp))]
    exact ih (fun d hd => h d (by simp [hd]))

lemma trimEnd_append_visible (s t : Text) (h : t ≠ []) (ht : trimEnd t = t) :
    trimEnd (s ++ t) = s ++ t := by
  have hl := rdropWhile_eq_self_iff.mp ht h
  refine rdropWhile_eq_self_iff.mpr fun hne => ?_
  rwa [getLast_append_of_ne_nil _ h]

lemma trimStart_cons (c : Char) (s : Text) (h : isWhitespace c = false) :
    trimStart (c :: s) = c :: s := by
  simp [trimStart, h]

lemma trim_cons (c : Char) (s : Text) (h : isWhitespace c = false) :
    trim (c :: s) = trimEnd (c :: s) := by
  rw [trim, trimStart_cons c s h]

lemma trimEnd_cons_visible (c : Char) (s : Text) (h : isWhitespace c = false) :
    ∃ t, trimEnd (c :: s) = c :: t := by
  induction s using reverseRecOn with
  | nil => exact ⟨[], by simp [trimEnd, h]⟩
  | append_singleton s d ih => ?_
  obtain ⟨t, ht⟩ := ih
  rw [← cons_append, trimEnd_concat]
  split
  · exact ⟨t, ht⟩
  · exact ⟨s ++ [d], rfl⟩

lemma trimEnd_trimEnd (s : Text) : trimEnd (trimEnd s) = trimEnd s := rdropWhile_idempotent _ _

variable {s p q : Text} {c : Char}

lemma trimEnd_of_trim (h : trim s = s) : trimEnd s = s := by
  calc trimEnd s = trimEnd (trim s) := by rw [h]
    _ = trim s := trimEnd_trimEnd _
    _ = s := h

lemma trimStart_append_ws (w s : Text) (h : ∀ c ∈ w, isWhitespace c) :
    trimStart (w ++ s) = trimStart s := by
  induction w with
  | nil => rfl
  | cons c w ih =>
    simp only [trimStart, cons_append, dropWhile_cons, h c (by simp)]
    exact ih (fun d hd => h d (by simp [hd]))

lemma trimEnd_cons (c : Char) (s : Text) :
    trimEnd (c :: s) = if trimEnd s = [] ∧ isWhitespace c then [] else c :: trimEnd s := by
  induction s using reverseRecOn with
  | nil => by_cases hc : isWhitespace c <;> simp [trimEnd, rdropWhile_singleton]
  | append_singleton s d ih =>
    rw [← cons_append, trimEnd_concat, trimEnd_concat]
    by_cases hd : isWhitespace d <;> simp [hd, ih]

lemma trimEnd_append (t : Text) (h : trimEnd s ≠ []) : trimEnd (t ++ s) = t ++ trimEnd s := by
  induction t with
  | nil => rfl
  | cons c t ih =>
    rw [cons_append, trimEnd_cons, ih, if_neg (by simp [h]), cons_append]

lemma trimStart_append (t : Text) (h : trimStart s ≠ []) : trimStart (s ++ t) = trimStart s ++ t := by
  induction s with
  | nil => cases h rfl
  | cons c s ih => ?_
  by_cases hc : isWhitespace c
  · simp only [trimStart, cons_append, dropWhile_cons, hc] at h ⊢
    exact ih h
  · simp [trimStart, hc]

lemma trim_eq (s : Text) : trim s = trimStart (trimEnd s) := by
  rw [trim]
  induction s with
  | nil => rfl
  | cons c s ih => ?_
  by_cases hc : isWhitespace c
  · have hs : trimStart (c :: s) = trimStart s := trimStart_append_ws [c] s (by simpa using hc)
    rw [hs, ih, trimEnd_cons]
    by_cases hn : trimEnd s = []
    · rw [if_pos ⟨hn, hc⟩, hn]
    · rw [if_neg fun h => hn h.1]
      exact (trimStart_append_ws [c] (trimEnd s) (by simpa using hc)).symm
  · rw [Bool.not_eq_true] at hc
    rw [trimStart_cons c s hc, trimEnd_cons, if_neg (by simp [hc]), trimStart_cons c _ hc]

lemma trim_congr (h : trimEnd s = trimEnd t) : trim s = trim t := by
  rw [trim_eq, trim_eq, h]

lemma trim_eq_nil : trim s = [] ↔ trimEnd s = [] := by
  rw [trim_eq, trimStart, dropWhile_eq_nil_iff]
  constructor
  · intro h
    rw [← trimEnd_trimEnd]
    exact rdropWhile_eq_nil_iff.mpr h
  · intro h
    simp [h]

lemma trimEnd_head_ne (h : s.head? ≠ some c) : (trimEnd s).head? ≠ some c := by
  intro hc
  obtain ⟨t, ht⟩ := rdropWhile_prefix isWhitespace s
  have : (trimEnd s ++ t).head? = some c := by rw [head?_append, hc]; rfl
  exact h (ht ▸ this)

lemma cr_isWhitespace : isWhitespace '\r' := by decide

/-! ## Markers -/

lemma stripPrefix_append (p s : Text) : stripPrefix p (p ++ s) = some s :=
  dropPrefix?_eq_some_iff.mpr ⟨p, rfl, beq_self_eq_true p⟩

lemma stripPrefix_eq_some : stripPrefix p s = some t ↔ s = p ++ t := by
  constructor
  · intro h
    obtain ⟨_, rfl, hp⟩ := dropPrefix?_eq_some_iff.mp h
    rw [eq_of_beq hp]
  · rintro rfl
    exact stripPrefix_append p t

lemma stripPrefix_of_head (hp : p.head? = some c) (hs : s.head? ≠ some c) : stripPrefix p s = none := by
  rw [Option.eq_none_iff_forall_not_mem]
  intro t ht
  rw [stripPrefix_eq_some.mp ht, head?_append, hp] at hs
  exact hs rfl

lemma splitOnce_append {p s a b : Text} (h : splitOnce p s = some (a, b)) : s = a ++ p ++ b := by
  induction s generalizing a with
  | nil =>
    simp only [splitOnce, Option.ite_none_right_eq_some, Option.some.injEq] at h
    obtain ⟨hp, rfl, rfl⟩ := h
    simp [isEmpty_iff.mp hp]
  | cons c s ih => ?_
  unfold splitOnce at h
  split at h
  · rename_i hr
    cases h
    simpa using stripPrefix_eq_some.mp hr
  obtain ⟨⟨first, rest⟩, hs, heq⟩ := Option.map_eq_some_iff.mp h
  cases heq
  rw [ih hs]
  simp

lemma splitOnce_self (hp : p ≠ []) (t : Text) : splitOnce p (p ++ t) = some ([], t) := by
  rcases p with _ | ⟨c, p⟩
  · cases hp rfl
  have hs : stripPrefix (c :: p) (c :: (p ++ t)) = some t := stripPrefix_append (c :: p) t
  simp only [cons_append, splitOnce, hs]

lemma splitOnce_of_not_mem (hp : c ∈ p) (hs : c ∉ s) : splitOnce p s = none := by
  rcases h : splitOnce p s with _ | parts
  · rfl
  have hm : c ∈ parts.1 ++ p ++ parts.2 := by simp [hp]
  rw [← splitOnce_append h] at hm
  exact absurd hm hs

lemma startsWith_eq_isSome (p s : Text) : startsWith p s = (stripPrefix p s).isSome := by
  rw [Bool.eq_iff_iff, startsWith, isPrefixOf_iff_prefix, Option.isSome_iff_exists]
  exact ⟨fun ⟨t, ht⟩ => ⟨t, stripPrefix_eq_some.mpr ht.symm⟩, fun ⟨t, ht⟩ => ⟨t, (stripPrefix_eq_some.mp ht).symm⟩⟩

/-- Two texts part ways before either ends. -/
def differ : Text → Text → Bool
  | a :: as, b :: bs => a ≠ b || differ as bs
  | _, _ => false

lemma append_ne_of_differ (h : differ p q) (s t : Text) : p ++ s ≠ q ++ t := by
  induction p generalizing q with
  | nil => simp [differ] at h
  | cons a p ih => ?_
  rcases q with _ | ⟨b, q⟩
  · simp [differ] at h
  simp only [differ, Bool.or_eq_true, decide_eq_true_eq] at h
  rintro heq
  obtain ⟨hab, ht⟩ := cons.inj heq
  exact h.elim (fun hne => hne hab) fun hd => ih hd ht

lemma stripPrefix_of_differ (h : differ p q) (t : Text) : stripPrefix p (q ++ t) = none := by
  rw [Option.eq_none_iff_forall_not_mem]
  exact fun s hs => append_ne_of_differ h s t (stripPrefix_eq_some.mp hs).symm

lemma ne_of_differ (h : differ p q) (t : Text) : q ++ t ≠ p := by
  intro heq
  exact append_ne_of_differ h [] t (by simpa using heq.symm)

/-! ## Lines -/

/-- The lines that LF ends, and the rest after the last LF. -/
def breakLines : Text → List Text × Text
  | [] => ([], [])
  | c :: cs =>
    let (ls, r) := breakLines cs
    if c = '\n' then ([] :: ls, r)
    else match ls with
      | [] => ([], c :: r)
      | l :: ls => ((c :: l) :: ls, r)

/-- `str::lines`: a CR before the LF goes too, a CR at the end of the last line stays. -/
def lines (s : Text) : List Text :=
  (breakLines s).1.map stripCr ++ if (breakLines s).2 = [] then [] else [(breakLines s).2]

section

variable (ls : List Text)

def joinLf : Text := intercalate ['\n'] ls

def unbreak (r : Text) : Text := ls.flatMap (· ++ ['\n']) ++ r

lemma unbreak_nil (r : Text) : unbreak [] r = r := rfl

lemma unbreak_cons (l : Text) (ls : List Text) (r : Text) :
    unbreak (l :: ls) r = l ++ '\n' :: unbreak ls r := by
  simp [unbreak]

lemma unbreak_append (ls ms : List Text) (r : Text) :
    unbreak (ls ++ ms) r = unbreak ls (unbreak ms r) := by
  simp [unbreak]

lemma joinLf_concat (r : Text) : joinLf (ls ++ [r]) = unbreak ls r := by
  induction ls with
  | nil => simp [joinLf, unbreak]
  | cons l ls ih =>
    rw [unbreak_cons, ← ih]
    cases ls <;> simp [joinLf]

lemma breakLines_of_not_mem (r : Text) (h : '\n' ∉ r) : breakLines r = ([], r) := by
  induction r with
  | nil => rfl
  | cons c r ih =>
    simp only [mem_cons, not_or] at h
    simp [breakLines, ih h.2, Ne.symm h.1]

lemma breakLines_append_lf (l : Text) (h : '\n' ∉ l) (t : Text) :
    breakLines (l ++ '\n' :: t) = (l :: (breakLines t).1, (breakLines t).2) := by
  induction l with
  | nil => simp [breakLines]
  | cons c l ih =>
    simp only [mem_cons, not_or] at h
    simp [breakLines, ih h.2, Ne.symm h.1]

lemma breakLines_unbreak (r : Text) (hls : ∀ l ∈ ls, '\n' ∉ l) (hr : '\n' ∉ r) :
    breakLines (unbreak ls r) = (ls, r) := by
  induction ls with
  | nil => exact breakLines_of_not_mem r hr
  | cons l ls ih =>
    rw [unbreak_cons, breakLines_append_lf l (hls l (by simp)), ih fun m hm => hls m (by simp [hm])]

lemma unbreak_breakLines (t : Text) : unbreak (breakLines t).1 (breakLines t).2 = t := by
  induction t with
  | nil => rfl
  | cons c t ih => ?_
  by_cases hc : c = '\n'
  · simp [breakLines, hc, unbreak_cons, ih]
  rcases hb : breakLines t with ⟨_ | ⟨l, ls⟩, r⟩ <;> rw [hb] at ih
  · simpa [breakLines, hc, hb, unbreak] using ih
  · simpa [breakLines, hc, hb, unbreak_cons] using ih

lemma breakLines_no_lf (t : Text) :
    (∀ l ∈ (breakLines t).1, '\n' ∉ l) ∧ '\n' ∉ (breakLines t).2 := by
  induction t with
  | nil => simp [breakLines]
  | cons c t ih => ?_
  by_cases hc : c = '\n'
  · simpa [breakLines, hc] using ih
  rcases hb : breakLines t with ⟨_ | ⟨l, ls⟩, r⟩ <;> rw [hb] at ih
  all_goals simpa [breakLines, hc, hb, Ne.symm hc] using ih

lemma lf_mem_iff (t : Text) : '\n' ∈ t ↔ (breakLines t).1 ≠ [] := by
  constructor
  · intro h hn
    rw [← unbreak_breakLines t, hn, unbreak_nil] at h
    exact (breakLines_no_lf t).2 h
  intro h
  obtain ⟨l, _, hl⟩ := exists_cons_of_ne_nil h
  rw [← unbreak_breakLines t, hl, unbreak_cons]
  simp

lemma stripCr_concat (s : Text) (c : Char) :
    stripCr (s ++ [c]) = if c = '\r' then s else s ++ [c] := by
  simp [stripCr]

lemma trimEnd_stripCr (s : Text) : trimEnd (stripCr s) = trimEnd s := by
  rw [stripCr]
  split
  · rename_i h
    obtain ⟨t, rfl⟩ := getLast?_eq_some_iff.mp h
    rw [dropLast_concat, trimEnd_concat_ws t '\r' cr_isWhitespace]
  · rfl

lemma stripCr_of_trimmed (h : trimEnd s = s) : stripCr s = s := by
  refine if_neg fun hcr => ?_
  obtain ⟨t, rfl⟩ := getLast?_eq_some_iff.mp hcr
  rw [trimEnd_concat_ws t '\r' cr_isWhitespace] at h
  have hle : (trimEnd t).length ≤ t.length := (List.rdropWhile_prefix isWhitespace t).length_le
  rw [h, length_append, length_singleton] at hle
  omega

lemma stripCr_of_last (s : Text) (h : s.getLast? ≠ some '\r') : stripCr s = s := if_neg h

lemma lines_unbreak (r : Text) (hls : ∀ l ∈ ls, '\n' ∉ l) (hr : '\n' ∉ r)
    (hne : r ≠ []) : lines (unbreak ls r) = ls.map stripCr ++ [r] := by
  rw [lines, breakLines_unbreak ls r hls hr, if_neg hne]

lemma lines_joinLf (r : Text) (hls : ∀ l ∈ ls, '\n' ∉ l ∧ stripCr l = l)
    (hr : '\n' ∉ r) (hne : r ≠ []) : lines (joinLf (ls ++ [r])) = ls ++ [r] := by
  rw [joinLf_concat, lines_unbreak ls r (fun l hl => (hls l hl).1) hr hne]
  congr 1
  calc ls.map stripCr = ls.map id :=
        map_congr_left fun l hl => (hls l hl).2
    _ = ls := map_id ls

end

lemma joinLf_append (ls ms : List Text) (h : ms ≠ []) : joinLf (ls ++ ms) = unbreak ls (joinLf ms) := by
  obtain ⟨init, r, rfl⟩ : ∃ init r, ms = init ++ [r] := ⟨_, _, (dropLast_append_getLast h).symm⟩
  rw [← append_assoc, joinLf_concat, joinLf_concat, unbreak_append]

lemma mem_stripCr (h : c ∈ stripCr s) : c ∈ s := by
  rw [stripCr] at h
  split at h
  · exact (dropLast_sublist s).subset h
  · exact h

lemma mem_trimEnd (h : c ∈ trimEnd s) : c ∈ s :=
  (List.rdropWhile_prefix isWhitespace s).subset h

lemma mem_trimStart (h : c ∈ trimStart s) : c ∈ s :=
  (dropWhile_suffix isWhitespace).subset h

lemma isWhitespace_of_trimEnd (h : trimEnd s = []) : ∀ c ∈ s, isWhitespace c :=
  rdropWhile_eq_nil_iff.mp h

lemma joinLf_blanks (last : Text) (blanks : List Text) (hbl : ∀ b ∈ blanks, trimEnd b = []) :
    ∃ w, joinLf (last :: blanks) = last ++ w ∧ ∀ c ∈ w, isWhitespace c := by
  rcases eq_nil_or_concat blanks with rfl | ⟨init, r, rfl⟩
  · exact ⟨[], by simp [joinLf], by simp⟩
  refine ⟨'\n' :: unbreak init r, ?_, ?_⟩
  · rw [concat_eq_append, ← cons_append, joinLf_concat, unbreak_cons]
  intro c hc
  simp only [unbreak, mem_cons, mem_append, mem_flatMap, not_mem_nil, or_false] at hc
  rcases hc with rfl | ⟨b, hb, hc | rfl⟩ | hc
  · decide
  · exact isWhitespace_of_trimEnd (hbl b (by simp [hb])) c hc
  · decide
  · exact isWhitespace_of_trimEnd (hbl r (by simp)) c hc

lemma trim_joinLf (hf : trimStart first ≠ []) (hl : trimEnd last ≠ []) (hb : ∀ b ∈ blanks, trimEnd b = []) :
    trim (joinLf (first :: ls ++ last :: blanks)) = unbreak (trimStart first :: ls) (trimEnd last) := by
  obtain ⟨w, hw, hws⟩ := joinLf_blanks last blanks hb
  have hj : ∀ r, trimStart first ++ '\n' :: unbreak ls r =
      (trimStart first ++ '\n' :: ls.flatMap (· ++ ['\n'])) ++ r := fun r => by simp [unbreak]
  rw [joinLf_append _ _ (by simp), hw, unbreak_cons, trim, trimStart_append _ hf, unbreak_cons, hj,
    hj, ← append_assoc, trimEnd_append_ws _ _ hws]
  exact trimEnd_append _ hl

end Text

end Codex
