import Codex.Text

/-! # Finding lines in a file: the four passes of `apply-patch/src/seek_sequence.rs` -/

namespace Codex.ApplyPatch

open Codex.Text

def normaliseChar (c : Char) : Char :=
  let n := c.toNat
  if (0x2010 ≤ n && n ≤ 0x2015) || n == 0x2212 then '-'
  else if 0x2018 ≤ n && n ≤ 0x201B then '\''
  else if 0x201C ≤ n && n ≤ 0x201F then '"'
  else if n == 0xA0 || (0x2002 ≤ n && n ≤ 0x200A) || n == 0x202F || n == 0x205F || n == 0x3000 then ' '
  else c

def normalise (s : Text) : Text := (trim s).map normaliseChar

/-- `lines[i..i + pattern.len()]` equals `pattern` under the view. -/
def matchesAt (view : Text → Text) (lines pattern : List Text) (i : Nat) : Bool :=
  ((lines.drop i).take pattern.length).map view == pattern.map view

/-- The positions that a pass goes through. -/
def window (lines pattern : List Text) (searchStart : Nat) : List Nat :=
  List.range' searchStart (lines.length - pattern.length + 1 - searchStart)

/-- One pass: the first position whose lines look the same. -/
def seekWith (view : Text → Text) (lines pattern : List Text) (searchStart : Nat) : Option Nat :=
  (window lines pattern searchStart).find? (matchesAt view lines pattern)

def seekSequence (lines pattern : List Text) (start : Nat) (eof : Bool) : Option Nat :=
  if pattern.isEmpty then some start
  else if lines.length < pattern.length then none
  else
    let searchStart := if eof then max (lines.length - pattern.length) start else start
    (seekWith id lines pattern searchStart).or <| (seekWith trimEnd lines pattern searchStart).or <|
      (seekWith trim lines pattern searchStart).or (seekWith normalise lines pattern searchStart)

lemma seekWith_bounds {lines pattern : List Text} (h : seekWith view lines pattern searchStart = some i)
    (hl : pattern.length ≤ lines.length) :
    searchStart ≤ i ∧ i + pattern.length ≤ lines.length := by
  have hm := List.mem_of_find?_eq_some h
  rw [window, List.mem_range'_1] at hm
  omega

lemma seekSequence_bounds {lines pattern : List Text} (hne : pattern ≠ [])
    (h : seekSequence lines pattern start eof = some i) :
    start ≤ i ∧ i + pattern.length ≤ lines.length := by
  unfold seekSequence at h
  rw [if_neg (by simpa using hne)] at h
  split at h
  · simp at h
  have hs : start ≤ if eof then max (lines.length - pattern.length) start else start := by
    split <;> omega
  simp only [Option.or_eq_some_iff] at h
  obtain h | ⟨-, h | ⟨-, h | ⟨-, h⟩⟩⟩ := h <;>
    exact ⟨hs.trans (seekWith_bounds h (by omega)).1, (seekWith_bounds h (by omega)).2⟩

/-! ## The strictest view that matches anywhere -/

def tiers : List (Text → Text) := [id, trimEnd, trim, normalise]

section Leftmost

variable (lines pattern : List Text) (start : Nat) (eof : Bool)

/-- The position is one of the window and `pattern` fits there. -/
def InWindow (i : Nat) : Prop :=
  (if eof then max (lines.length - pattern.length) start else start) ≤ i ∧ i + pattern.length ≤ lines.length

/-- The positions at which a pass indexes into `lines`, up to its first match. -/
def visited : List Nat :=
  if pattern.isEmpty || lines.length < pattern.length then []
  else
    window lines pattern (if eof then max (lines.length - pattern.length) start else start)

variable {lines pattern} {view : Text → Text}

lemma seekWith_eq_some (hl : pattern.length ≤ lines.length) : seekWith view lines pattern searchStart = some i ↔
    (searchStart ≤ i ∧ i + pattern.length ≤ lines.length) ∧ matchesAt view lines pattern i ∧
      ∀ j, searchStart ≤ j → j < i → matchesAt view lines pattern j = false := by
  simp only [seekWith, window, List.find?_range'_eq_some, List.mem_range'_1, Bool.not_eq_true']
  constructor
  · rintro ⟨hm, ⟨hge, hlt⟩, hf⟩
    exact ⟨⟨hge, by omega⟩, hm, hf⟩
  · rintro ⟨⟨hge, hle⟩, hm, hf⟩
    exact ⟨hm, ⟨hge, by omega⟩, hf⟩

lemma seekWith_eq_none (hl : pattern.length ≤ lines.length) : seekWith view lines pattern searchStart = none ↔
    ∀ j, searchStart ≤ j ∧ j + pattern.length ≤ lines.length → matchesAt view lines pattern j = false := by
  simp only [seekWith, window, List.find?_eq_none, List.mem_range'_1, Bool.not_eq_true]
  refine forall_congr' fun j => imp_congr_left ?_
  omega

lemma seekSequence_eq (hne : pattern ≠ []) (hl : pattern.length ≤ lines.length) :
    seekSequence lines pattern start eof = tiers.findSome? fun view =>
      seekWith view lines pattern (if eof then max (lines.length - pattern.length) start else start) := by
  unfold seekSequence
  rw [if_neg (by simpa using hne), if_neg (by omega)]
  simp only [tiers, List.findSome?_cons, List.findSome?_nil]
  cases seekWith id lines pattern _ <;> cases seekWith trimEnd lines pattern _ <;>
    cases seekWith trim lines pattern _ <;> cases seekWith normalise lines pattern _ <;> rfl

/-- The last view says the least. -/
lemma matchesAt_normalise (hv : view ∈ tiers) (h : matchesAt view lines pattern i) :
    matchesAt normalise lines pattern i := by
  obtain ⟨coarse, hc⟩ : ∃ coarse : Text → Text, normalise = coarse ∘ view := by
    simp only [tiers, List.mem_cons, List.not_mem_nil, or_false] at hv
    obtain rfl | rfl | rfl | rfl := hv
    · exact ⟨normalise, rfl⟩
    · exact ⟨fun s => (trimStart s).map normaliseChar, funext fun s => by simp [normalise, trim_eq]⟩
    · exact ⟨fun s => s.map normaliseChar, rfl⟩
    · exact ⟨id, rfl⟩
  have hs := congrArg (List.map coarse) (eq_of_beq h)
  rw [List.map_map, List.map_map, ← hc] at hs
  exact beq_iff_eq.mpr hs

lemma fits_of_visited (h : i ∈ visited lines pattern start eof) : i + pattern.length ≤ lines.length := by
  unfold visited at h
  split at h
  · cases h
  rename_i hl
  simp only [Bool.or_eq_true, decide_eq_true_eq, not_or] at hl
  rw [window, List.mem_range'_1] at h
  omega

variable (lines pattern)

/-- The leftmost match under the strictest view that matches anywhere in the window. -/
theorem seekSequence_leftmost :
    (pattern = [] → seekSequence lines pattern start eof = some start) ∧
    (pattern ≠ [] →
      (∀ i, seekSequence lines pattern start eof = some i ↔ ∃ strict view lenient, tiers = strict ++ view :: lenient ∧
        (∀ stricter ∈ strict, ∀ j, InWindow lines pattern start eof j → matchesAt stricter lines pattern j = false) ∧
        InWindow lines pattern start eof i ∧ matchesAt view lines pattern i ∧
        ∀ j < i, InWindow lines pattern start eof j → matchesAt view lines pattern j = false) ∧
      (seekSequence lines pattern start eof = none ↔
        ∀ i, InWindow lines pattern start eof i → matchesAt normalise lines pattern i = false)) ∧
    ∀ i ∈ visited lines pattern start eof, i + pattern.length ≤ lines.length := by
  refine ⟨?_, fun hne => ?_, fun i => fits_of_visited start eof⟩
  · rintro rfl
    rfl
  by_cases hl : pattern.length ≤ lines.length
  · rw [seekSequence_eq start eof hne hl]
    constructor
    · intro i
      simp only [List.findSome?_eq_some_iff, seekWith_eq_some hl, seekWith_eq_none hl]
      constructor
      · rintro ⟨strict, view, lenient, ht, ⟨hin, hm, hf⟩, hs⟩
        exact ⟨strict, view, lenient, ht, hs, hin, hm, fun j hj hw => hf j hw.1 hj⟩
      · rintro ⟨strict, view, lenient, ht, hs, hin, hm, hf⟩
        refine ⟨strict, view, lenient, ht, ⟨hin, hm, fun j hge hj => hf j hj ⟨hge, ?_⟩⟩, hs⟩
        have := hin.2
        omega
    · simp only [List.findSome?_eq_none_iff, seekWith_eq_none hl]
      constructor
      · exact fun ha => ha normalise (by simp [tiers])
      · intro ha view hv j hin
        have hno := ha j hin
        rw [Bool.eq_false_iff] at hno ⊢
        exact mt (matchesAt_normalise hv) hno
  · have hn : seekSequence lines pattern start eof = none := by
      unfold seekSequence
      rw [if_neg (by simpa using hne), if_pos (by omega)]
    have ho : ∀ j, ¬ InWindow lines pattern start eof j := fun j hj => hl (by have := hj.2; omega)
    rw [hn]
    refine ⟨fun i => iff_of_false (Option.some_ne_none i).symm ?_, iff_of_true rfl fun j hj => absurd hj (ho j)⟩
    rintro ⟨_, _, _, -, -, hin, -⟩
    exact ho i hin

end Leftmost

end Codex.ApplyPatch
