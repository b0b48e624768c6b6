import Mathlib
import Codex.ExecPolicy.Policy

/-!
# Managed rules under user rules

Rules for the very first word go before rules for the name of the program, which a user's paths can hide.
-/

namespace Codex.ExecPolicy

open Codex.Text List Option

/-! ## The strictest decision -/

def AtLeast (d : Decision) (o : Option Decision) : Prop := ∃ d', o = some d' ∧ d ≤ d'

variable {d : Decision} {matchedRules : List RuleMatch}

lemma atLeast_some : AtLeast d (some d') ↔ d ≤ d' := by
  unfold AtLeast
  simp

lemma atLeast_none : ¬ AtLeast d none := by
  unfold AtLeast
  simp

lemma eq_of_atLeast_iff (h : ∀ d, AtLeast d o ↔ AtLeast d o') : o = o' := by
  rcases o with _ | d
  · cases o' with
    | none => rfl
    | some d' => exact absurd ((h d').mpr (atLeast_some.mpr le_rfl)) atLeast_none
  rcases o' with _ | d'
  · exact absurd ((h d).mp (atLeast_some.mpr le_rfl)) atLeast_none
  have h₁ := atLeast_some.mp ((h d).mp (atLeast_some.mpr le_rfl))
  have h₂ := atLeast_some.mp ((h d').mpr (atLeast_some.mpr le_rfl))
  rw [le_antisymm h₁ h₂]

def maxDecision (matchedRules : List RuleMatch) : Option Decision :=
  (matchedRules.map RuleMatch.decision).max?

lemma atLeast_maxDecision : AtLeast d (maxDecision matchedRules) ↔ ∃ m ∈ matchedRules, d ≤ m.decision := by
  unfold maxDecision
  constructor
  · rintro ⟨d', hd', hle⟩
    obtain ⟨m, hm, rfl⟩ := mem_map.mp (max?_eq_some_iff.mp hd').1
    exact ⟨m, hm, hle⟩
  rintro ⟨m, hm, hle⟩
  cases hma : (matchedRules.map RuleMatch.decision).max? with
  | none => ?_
  | some d' =>
    exact ⟨d', rfl, hle.trans ((max?_eq_some_iff.mp hma).2 _ (mem_map_of_mem hm))⟩
  rw [max?_eq_none_iff, map_eq_nil_iff] at hma
  rw [hma] at hm
  cases hm

lemma maxDecision_eq_none : maxDecision matchedRules = none ↔ matchedRules = [] := by
  unfold maxDecision
  rw [max?_eq_none_iff, map_eq_nil_iff]

/-! ## What the rules decide -/

namespace Policy

variable {host : Host} {policy overlay : Policy} {cmd : Command}

def exactDecision (policy : Policy) (cmd : Command) : Option Decision :=
  maxDecision (policy.matchExactRules cmd)

def hostDecision (host : Host) (policy : Policy) : Command → Option Decision
  | [] => none
  | first :: rest => (resolveProgram host first).bind fun (program, basename) =>
    if policy.hostAllows program basename then policy.exactDecision (basename :: rest) else none

def ruleDecision (host : Host) (policy : Policy) (cmd : Command) : Option Decision :=
  (policy.exactDecision cmd).or (policy.hostDecision host cmd)

lemma maxDecision_matchHostExecutableRules :
    maxDecision (policy.matchHostExecutableRules host cmd) = policy.hostDecision host cmd := by
  rcases cmd with _ | ⟨first, rest⟩
  · rfl
  simp only [matchHostExecutableRules, hostDecision]
  rcases resolveProgram host first with _ | resolved
  · rfl
  simp only [bind_some]
  split
  · unfold exactDecision maxDecision matchExactRules
    rw [List.map_map]
    congr 1
    apply map_congr_left
    intro m _
    cases m <;> rfl
  · rfl

def ruleMatches (host : Host) (policy : Policy) (cmd : Command) : List RuleMatch :=
  if !(policy.matchExactRules cmd).isEmpty then policy.matchExactRules cmd
  else policy.matchHostExecutableRules host cmd

lemma maxDecision_ruleMatches : maxDecision (policy.ruleMatches host cmd) = policy.ruleDecision host cmd := by
  unfold ruleMatches ruleDecision exactDecision
  rw [← maxDecision_matchHostExecutableRules]
  rcases he : policy.matchExactRules cmd with _ | ⟨m, ms⟩
  · rfl
  obtain ⟨d, hd⟩ := ne_none_iff_exists'.mp (mt maxDecision_eq_none.mp (cons_ne_nil m ms))
  rw [hd]
  exact hd

variable {m : RuleMatch} {d : Decision}

lemma isPolicyMatch_of_matches {rules : List PrefixRule} (h : m ∈ rules.filterMap (·.matches cmd)) :
    m.isPolicyMatch := by
  obtain ⟨_, -, hm⟩ := mem_filterMap.mp h
  unfold PrefixRule.matches at hm
  obtain ⟨_, -, rfl⟩ := map_eq_some_iff.mp hm
  rfl

lemma isPolicyMatch_of_mem (h : m ∈ policy.ruleMatches host cmd) : m.isPolicyMatch := by
  rcases cmd with _ | ⟨first, rest⟩
  · cases h
  unfold ruleMatches at h
  split at h
  · exact isPolicyMatch_of_matches h
  simp only [matchHostExecutableRules] at h
  rcases hr : resolveProgram host first with _ | resolved
  · simp [hr] at h
  rw [hr] at h
  simp only at h
  split at h
  · obtain ⟨m', hm', rfl⟩ := mem_map.mp h
    have := isPolicyMatch_of_matches hm'
    cases m' <;> simp_all [RuleMatch.withResolvedProgram, RuleMatch.isPolicyMatch]
  · cases h

lemma matchesForCommand_none :
    policy.matchesForCommandWithOptions host cmd none ⟨true⟩ = policy.ruleMatches host cmd := by
  unfold matchesForCommandWithOptions ruleMatches
  dsimp only
  split
  · contradiction
  · rfl

lemma matchesForCommand_some (fallback : Command → Decision) :
    policy.matchesForCommandWithOptions host cmd (some fallback) ⟨true⟩ =
      if policy.ruleMatches host cmd = [] then [.heuristicsRuleMatch cmd (fallback cmd)]
      else policy.ruleMatches host cmd := by
  unfold matchesForCommandWithOptions ruleMatches
  simp only [if_true]
  split
  · rename_i hn hg
    cases hg
    rw [if_pos hn]
  · rename_i hs
    exact (if_neg fun hn => hs fallback hn rfl).symm

lemma checkWithOptions_spec (host : Host) (policy : Policy) (cmd : Command) (fallback : Command → Decision) :
    ∃ evaluation, policy.checkWithOptions host cmd fallback ⟨true⟩ = some evaluation ∧
      evaluation.decision = (policy.ruleDecision host cmd).getD (fallback cmd) ∧
      (evaluation.isMatch ↔ (policy.ruleDecision host cmd).isSome) := by
  unfold checkWithOptions Evaluation.fromMatches Evaluation.isMatch
  rw [matchesForCommand_some, ← maxDecision_ruleMatches]
  split
  · rename_i hn
    rw [hn]
    exact ⟨_, rfl, rfl, by simp [RuleMatch.isPolicyMatch, maxDecision]⟩
  rename_i hne
  obtain ⟨d, hd⟩ := ne_none_iff_exists'.mp (mt maxDecision_eq_none.mp hne)
  refine ⟨⟨d, policy.ruleMatches host cmd⟩, ?_, ?_, ?_⟩
  · unfold maxDecision at hd
    rw [hd]
    rfl
  · rw [hd]
    rfl
  · rw [hd]
    obtain ⟨m, hm⟩ := exists_mem_of_ne_nil _ hne
    simpa using ⟨m, hm, isPolicyMatch_of_mem hm⟩

/-! ## Merging -/

lemma rulesFor_mergeOverlay (program : Text) :
    (policy.mergeOverlay overlay).rulesFor program = policy.rulesFor program ++ overlay.rulesFor program := by
  unfold rulesFor mergeOverlay
  rw [filter_append, map_append]

lemma matchExactRules_mergeOverlay :
    (policy.mergeOverlay overlay).matchExactRules cmd =
      policy.matchExactRules cmd ++ overlay.matchExactRules cmd := by
  cases cmd with
  | nil => rfl
  | cons first rest =>
    simp [matchExactRules, rulesFor_mergeOverlay]

lemma get_foldl_insert (entries : List (Text × List AbsolutePathBuf))
    (m : HashMap (id : Text → Text) (List AbsolutePathBuf)) (hn : (entries.map (·.1)).Nodup) (name : Text) :
    (entries.foldl (fun m e => m.insert e.1 e.2) m).get name =
      ((entries.find? fun e => e.1 = name).map (·.2)).or (m.get name) := by
  induction entries generalizing m with
  | nil => simp
  | cons e entries ih => ?_
  rw [map_cons, nodup_cons] at hn
  rw [foldl_cons, ih _ hn.2, HashMap.get_insert, find?_cons]
  by_cases h : e.1 = name
  · subst h
    have hno : entries.find? (fun e' => e'.1 = e.1) = none := by
      rw [find?_eq_none]
      intro e' he' heq
      exact hn.1 (mem_map.mpr ⟨e', he', by simpa using heq⟩)
    simp [hno]
  · have h' : ¬ name = e.1 := fun heq => h heq.symm
    simp [h, h']

lemma hostExecutables_mergeOverlay (name : Text) :
    (policy.mergeOverlay overlay).hostExecutablesByName.get name =
      (overlay.hostExecutablesByName.get name).or (policy.hostExecutablesByName.get name) :=
  get_foldl_insert _ _ overlay.hostExecutablesByName.nodup name

lemma hostAllows_mergeOverlay (program : AbsolutePathBuf) (basename : Text) :
    (policy.mergeOverlay overlay).hostAllows program basename =
      if overlay.hostExecutablesByName.contains basename then overlay.hostAllows program basename
      else policy.hostAllows program basename := by
  unfold hostAllows HashMap.contains
  rw [hostExecutables_mergeOverlay]
  cases overlay.hostExecutablesByName.get basename <;> simp

lemma atLeast_exactDecision_mergeOverlay :
    AtLeast d ((policy.mergeOverlay overlay).exactDecision cmd) ↔
      AtLeast d (policy.exactDecision cmd) ∨ AtLeast d (overlay.exactDecision cmd) := by
  unfold exactDecision
  rw [matchExactRules_mergeOverlay, atLeast_maxDecision, atLeast_maxDecision, atLeast_maxDecision]
  simp [or_and_right, exists_or]

lemma exactDecision_mergeOverlay_eq_none :
    (policy.mergeOverlay overlay).exactDecision cmd = none ↔
      policy.exactDecision cmd = none ∧ overlay.exactDecision cmd = none := by
  unfold exactDecision
  rw [maxDecision_eq_none, maxDecision_eq_none, maxDecision_eq_none, matchExactRules_mergeOverlay, append_eq_nil_iff]

/-- The user lists paths of the program's name, the program is not among them, and the managed policy
lists none. -/
def hides (host : Host) (user managed : Policy) : Command → Bool
  | [] => false
  | first :: _ => (resolveProgram host first).any fun (program, basename) =>
    !managed.hostExecutablesByName.contains basename && !user.hostAllows program basename

lemma hostDecision_mergeOverlay (policy : Policy) (h : overlay.hostDecision host cmd = some d) :
    (hides host policy overlay cmd = false ∧ AtLeast d ((policy.mergeOverlay overlay).hostDecision host cmd)) ∨
      (hides host policy overlay cmd ∧ (policy.mergeOverlay overlay).hostDecision host cmd = none) := by
  rcases cmd with _ | ⟨first, rest⟩
  · simp [hostDecision] at h
  simp only [hostDecision, hides] at h ⊢
  rcases hr : resolveProgram host first with _ | resolved
  · simp [hr] at h
  obtain ⟨program, basename⟩ := resolved
  simp only [hr, bind_some, any_some] at h ⊢
  rw [hostAllows_mergeOverlay]
  split at h
  · rename_i ha
    have hd : AtLeast d ((policy.mergeOverlay overlay).exactDecision (basename :: rest)) :=
      atLeast_exactDecision_mergeOverlay.mpr (.inr (h ▸ atLeast_some.mpr le_rfl))
    cases overlay.hostExecutablesByName.contains basename <;> cases policy.hostAllows program basename <;>
      simp [ha, hd]
  · simp at h

/-- **Managed rules hold against user rules** exactly when a managed rule for the first word matches, or a user
rule for it is as strict, or none matches and the managed rules for the name are not hidden. -/
theorem merged_atLeast_iff (host : Host) (user managed : Policy) (cmd : Command) (fallback : Command → Decision)
    (evaluation : Evaluation) (heval : managed.checkWithOptions host cmd fallback ⟨true⟩ = some evaluation)
    (hmatch : evaluation.isMatch = true) :
    (∃ merged, (user.mergeOverlay managed).checkWithOptions host cmd fallback ⟨true⟩ = some merged ∧
        evaluation.decision ≤ merged.decision) ↔
      managed.matchExactRules cmd ≠ [] ∨ (∃ m ∈ user.matchExactRules cmd, evaluation.decision ≤ m.decision) ∨
        (user.matchExactRules cmd = [] ∧
          (hides host user managed cmd = false ∨ evaluation.decision ≤ fallback cmd)) := by
  obtain ⟨e, he, hde, hs⟩ := checkWithOptions_spec host managed cmd fallback
  obtain rfl : e = evaluation := some.inj (he.symm.trans heval)
  obtain ⟨d, hd⟩ := isSome_iff_exists.mp (hs.mp hmatch)
  rw [hd, getD_some] at hde
  obtain ⟨m, hm, hme, -⟩ := checkWithOptions_spec host (user.mergeOverlay managed) cmd fallback
  have hl : (∃ merged, (user.mergeOverlay managed).checkWithOptions host cmd fallback ⟨true⟩ = some merged ∧
      e.decision ≤ merged.decision) ↔
      d ≤ ((user.mergeOverlay managed).ruleDecision host cmd).getD (fallback cmd) := by
    rw [hm, hde, ← hme]
    simp
  rw [hl, hde]
  unfold ruleDecision at hd ⊢
  cases hexa : managed.exactDecision cmd with
  | some d' =>
    -- A managed rule for the first word stays, whatever the user adds.
    obtain rfl : d' = d := by simpa [hexa] using hd
    obtain ⟨d'', hd'', hle⟩ : AtLeast d' ((user.mergeOverlay managed).exactDecision cmd) :=
      atLeast_exactDecision_mergeOverlay.mpr (.inr (hexa ▸ atLeast_some.mpr le_rfl))
    have hne : managed.matchExactRules cmd ≠ [] := fun hni => by
      simp [exactDecision, maxDecision_eq_none.mpr hni] at hexa
    simp [hd'', hle, hne]
  | none => ?_
  have hma : managed.matchExactRules cmd = [] := maxDecision_eq_none.mp hexa
  rw [hexa, none_or] at hd
  rcases hu : user.exactDecision cmd with _ | d'
  · have hni : user.matchExactRules cmd = [] := maxDecision_eq_none.mp hu
    rw [exactDecision_mergeOverlay_eq_none.mpr ⟨hu, hexa⟩, none_or]
    obtain ⟨hh, d', hd', hle⟩ | ⟨hh, hn⟩ := hostDecision_mergeOverlay user hd
    · simp [hd', hle, hh, hni]
    · simp [hn, hh, hni, hma]
  -- The user's rules for the first word take over.
  have hne : user.matchExactRules cmd ≠ [] := fun hni => by
    simp [exactDecision, maxDecision_eq_none.mpr hni] at hu
  have hi : AtLeast d ((user.mergeOverlay managed).exactDecision cmd) ↔
      ∃ m ∈ user.matchExactRules cmd, d ≤ m.decision := by
    rw [atLeast_exactDecision_mergeOverlay, hexa, or_iff_left atLeast_none]
    exact atLeast_maxDecision
  rcases hmax : (user.mergeOverlay managed).exactDecision cmd with _ | d''
  · simp [(exactDecision_mergeOverlay_eq_none.mp hmax).1] at hu
  rw [hmax, atLeast_some] at hi
  simp [hi, hne, hma]

/-! ## Examples -/

def oneRule (words : List String) (decision : Decision) : Policy :=
  (Policy.empty.addPrefixRule (words.map String.toList) decision).getD .empty

theorem merged_forbids_rm :
    ∃ merged, ((oneRule ["git"] .allow).mergeOverlay (oneRule ["rm"] .forbidden)).checkWithOptions
        ⟨none, some "/w"⟩ ["/bin/rm"] (fun _ => .allow) ⟨true⟩ = some merged ∧
      Decision.forbidden ≤ merged.decision :=
  (merged_atLeast_iff ⟨none, some "/w"⟩ (oneRule ["git"] .allow) (oneRule ["rm"] .forbidden)
    ["/bin/rm"] (fun _ => .allow) ⟨.forbidden, [_]⟩ rfl rfl).mpr (by decide)

theorem merged_allows_rm :
    let host : Host := ⟨none, some "/w"⟩
    let cmd : Command := ["/bin/rm"]
    let managed := oneRule ["rm"] .forbidden
    let listed : Policy :=
      { hostExecutablesByName := .ofList [("rm", [⟨["usr", "bin", "rm"]⟩])] }
    (managed.checkWithOptions host cmd (fun _ => .allow) ⟨true⟩).map (·.decision) = some .forbidden ∧
    (((oneRule ["/bin/rm"] .allow).mergeOverlay managed).checkWithOptions host cmd (fun _ => .allow) ⟨true⟩).map
      (·.decision) = some .allow ∧
    ((listed.mergeOverlay managed).checkWithOptions host cmd (fun _ => .allow) ⟨true⟩).map (·.decision) =
      some .allow := by
  refine ⟨?_, ?_, ?_⟩ <;> decide

end Policy

end Codex.ExecPolicy
