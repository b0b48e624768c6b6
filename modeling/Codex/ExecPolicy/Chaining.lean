import Codex.ExecPolicy.Approval

/-! # A command of several segments is treated as strictly as each of them, but for prompts of rules -/

namespace Codex.ExecPolicy

open Codex.Text Codex.Permissions Policy List

variable {host : Host} {policy : Policy} {fallback : Command → Decision} {commands more : List Command}

/-! ## Matches of all segments -/

def segmentMatches (host : Host) (policy : Policy) (fallback : Command → Decision) (commands : List Command) :
    List RuleMatch :=
  commands.flatMap fun cmd => policy.matchesForCommandWithOptions host cmd (some fallback) ⟨true⟩

lemma segmentMatches_subset (h : commands ⊆ more) :
    segmentMatches host policy fallback commands ⊆ segmentMatches host policy fallback more := by
  intro m hm
  obtain ⟨cmd, hc, hm⟩ := mem_flatMap.mp hm
  exact mem_flatMap.mpr ⟨cmd, h hc, hm⟩

lemma segmentMatches_ne_nil (h : commands ≠ []) : segmentMatches host policy fallback commands ≠ [] := by
  obtain ⟨cmd, hc⟩ := exists_mem_of_ne_nil _ h
  have hne : policy.matchesForCommandWithOptions host cmd (some fallback) ⟨true⟩ ≠ [] := by
    rw [matchesForCommand_some]
    split
    · exact cons_ne_nil _ _
    · assumption
  obtain ⟨m, hm⟩ := exists_mem_of_ne_nil _ hne
  exact ne_nil_of_mem (mem_flatMap.mpr ⟨cmd, hc, hm⟩)

variable {d d' : Decision} {approvalPolicy : AskForApproval} {ruleAsks allowed : Bool}

variable {ms ms' : List RuleMatch} {ruleAsks' allowed' : Bool}

lemma maxDecision_mono (h : ms ⊆ ms') (hd : maxDecision ms = some d) (hd' : maxDecision ms' = some d') :
    d ≤ d' := by
  obtain ⟨m, hm, hle⟩ := atLeast_maxDecision.mp ⟨d, hd, le_rfl⟩
  have := atLeast_maxDecision.mpr ⟨m, h hm, hle⟩
  rw [hd'] at this
  exact atLeast_some.mp this

lemma checkMultiple_eq (h : maxDecision (segmentMatches host policy fallback commands) = some d) :
    policy.checkMultipleWithOptions host commands fallback ⟨true⟩ =
      some ⟨d, segmentMatches host policy fallback commands⟩ := by
  unfold checkMultipleWithOptions Evaluation.fromMatches
  unfold maxDecision segmentMatches at h
  rw [h]
  rfl

/-! ## How strict a requirement is -/

def ExecApprovalRequirement.strictness : ExecApprovalRequirement → Nat
  | skip true _ => 0
  | skip false _ => 1
  | needsApproval .. => 2
  | forbidden _ => 3

def strictnessOf (approvalPolicy : AskForApproval) (ruleAsks allowed : Bool) : Decision → Nat
  | .forbidden => 3
  | .prompt => if (promptIsRejectedByPolicy approvalPolicy ruleAsks).isSome then 3 else 2
  | .allow => if allowed then 0 else 1

lemma requirementWith_spec (shell : Shell) (req : ExecApprovalRequest)
    (h : maxDecision (segmentMatches host policy fallback commands) = some d) :
    ∃ r, requirementWith host shell policy fallback req commands = some r ∧
      r.strictness = strictnessOf req.approvalPolicy ((segmentMatches host policy fallback commands).any isRulePrompt)
        (commands.all (explicitlyAllowed host policy)) d := by
  unfold requirementWith
  rw [checkMultiple_eq h]
  refine ⟨_, rfl, ?_⟩
  cases d with
  | forbidden => rfl
  | prompt => ?_
  | allow =>
    unfold strictnessOf
    cases commands.all (explicitlyAllowed host policy) <;> rfl
  unfold strictnessOf
  simp only
  split
  · rename_i hr
    rw [hr]
    split <;> rfl
  rename_i hr
  rw [hr]
  rfl

/-! ## Chains -/

/-- The heuristics ask about the shorter command and are rejected; a rule asks about the longer one and is shown. -/
structure Loosened (approvalPolicy : AskForApproval) (ms ms' : List RuleMatch) : Prop where
  granular : ∃ config, approvalPolicy = .granular config ∧ config.rules = true ∧ config.sandboxApproval = false
  asks : maxDecision ms = some .prompt
  noRuleAsks : ∀ m ∈ ms, isRulePrompt m = false
  asksLonger : maxDecision ms' = some .prompt
  ruleAsksLonger : ∃ m ∈ ms', isRulePrompt m = true

lemma strictnessOf_le_three (approvalPolicy : AskForApproval) (ruleAsks allowed : Bool) (d : Decision) :
    strictnessOf approvalPolicy ruleAsks allowed d ≤ 3 := by
  unfold strictnessOf
  cases d with
  | forbidden => exact le_rfl
  | prompt | allow => dsimp only; split <;> omega

lemma strictnessOf_prompt_le (h : ruleAsks → ruleAsks') :
    strictnessOf approvalPolicy ruleAsks allowed .prompt ≤ strictnessOf approvalPolicy ruleAsks' allowed' .prompt ↔
      ¬ ((∃ config, approvalPolicy = .granular config ∧ config.rules ∧ config.sandboxApproval = false) ∧
        ruleAsks = false ∧ ruleAsks') := by
  unfold strictnessOf promptIsRejectedByPolicy
  cases approvalPolicy with
  | granular config =>
    obtain ⟨sandboxApproval, rules⟩ := config
    cases ruleAsks <;> cases ruleAsks' <;> cases sandboxApproval <;> cases rules <;> simp_all
  | unlessTrusted | onRequest | never => simp

lemma strictnessOf_le (hd : d ≤ d') (hr : ruleAsks → ruleAsks') (ha : allowed' → allowed) :
    strictnessOf approvalPolicy ruleAsks allowed d ≤ strictnessOf approvalPolicy ruleAsks' allowed' d' ↔
      ¬ ((∃ config, approvalPolicy = .granular config ∧ config.rules ∧ config.sandboxApproval = false) ∧
        (d = .prompt ∧ ruleAsks = false) ∧ d' = .prompt ∧ ruleAsks') := by
  cases d' with
  | forbidden => exact iff_of_true (strictnessOf_le_three ..) (by simp)
  | prompt => ?_
  | allow =>
    cases d with
    | forbidden | prompt => cases hd
    | allow => ?_
    refine iff_of_true ?_ (by simp)
    unfold strictnessOf
    cases allowed' with
    | true => rw [ha rfl]
    | false => dsimp only; split <;> simp
  cases d with
  | forbidden => exact absurd hd (by decide)
  | prompt =>
    rw [strictnessOf_prompt_le hr]
    simp
  | allow => ?_
  refine iff_of_true ?_ (by simp)
  unfold strictnessOf
  dsimp only
  split <;> split <;> omega

lemma allowed_of_strictnessOf (h : strictnessOf approvalPolicy ruleAsks allowed d = 0) :
    d = .allow ∧ allowed := by
  unfold strictnessOf at h
  cases d with
  | forbidden => simp at h
  | prompt => dsimp only at h; split at h <;> omega
  | allow => cases allowed <;> simp_all

lemma all_rules_allow (hma : maxDecision (segmentMatches host policy fallback commands) = some .allow)
    (ha : commands.all (explicitlyAllowed host policy)) (hc : cmd ∈ commands) :
    policy.ruleMatches host cmd ≠ [] ∧ ∀ m ∈ policy.ruleMatches host cmd, m.decision = .allow := by
  have he := all_eq_true.mp ha cmd hc
  unfold explicitlyAllowed at he
  rw [matchesForCommand_none] at he
  obtain ⟨m, hm, -⟩ := any_eq_true.mp he
  have hne := ne_nil_of_mem hm
  refine ⟨hne, fun m' hm' => ?_⟩
  have hin : m' ∈ segmentMatches host policy fallback commands := by
    refine mem_flatMap.mpr ⟨cmd, hc, ?_⟩
    rw [matchesForCommand_some, if_neg hne]
    exact hm'
  have hle : m'.decision ≤ .allow := by
    have := atLeast_maxDecision.mpr ⟨m', hin, le_rfl⟩
    rw [hma] at this
    exact atLeast_some.mp this
  cases hd : m'.decision with
  | allow => rfl
  | prompt | forbidden => exact absurd (hd ▸ hle) (by decide)

lemma loosened_iff (hd : maxDecision ms = some d) (hd' : maxDecision ms' = some d') :
    Loosened approvalPolicy ms ms' ↔
      (∃ config, approvalPolicy = .granular config ∧ config.rules ∧ config.sandboxApproval = false) ∧
        (d = .prompt ∧ ms.any isRulePrompt = false) ∧ d' = .prompt ∧ ms'.any isRulePrompt := by
  rw [any_eq_false, any_eq_true]
  constructor
  · rintro ⟨hg, ha, hn, ha', hr⟩
    refine ⟨hg, ⟨Option.some.inj (hd.symm.trans ha), fun m hm => ?_⟩, Option.some.inj (hd'.symm.trans ha'), hr⟩
    rw [hn m hm]
    exact Bool.false_ne_true
  · rintro ⟨hg, ⟨rfl, hn⟩, rfl, hr⟩
    exact ⟨hg, hd, fun m hm => Bool.eq_false_iff.mpr (hn m hm), hd', hr⟩

/-- **Chaining commands never relaxes approval**, but for the one granular setting that shows the prompts of
rules and rejects those of the sandbox. -/
theorem chained_at_least_as_strict (host : Host) (shell : Shell) (policy : Policy)
    (fallback : Command → Decision) (req : ExecApprovalRequest) (command : Command)
    (prefixRule : Option Command) (commands more : List Command)
    (hne : commands ≠ []) (hsub : commands ⊆ more) :
    ∃ r r', requirementWith host shell policy fallback req commands = some r ∧
      requirementWith host shell policy fallback { req with command, prefixRule } more = some r' ∧
      (r.strictness ≤ r'.strictness ↔ ¬ Loosened req.approvalPolicy
        (segmentMatches host policy fallback commands) (segmentMatches host policy fallback more)) ∧
      (∀ amendment, r' = .skip true amendment → ∀ cmd ∈ more, policy.ruleMatches host cmd ≠ [] ∧
        ∀ m ∈ policy.ruleMatches host cmd, m.decision = .allow) := by
  have hma : segmentMatches host policy fallback commands ≠ [] := segmentMatches_ne_nil hne
  have hms : segmentMatches host policy fallback commands ⊆ segmentMatches host policy fallback more :=
    segmentMatches_subset hsub
  obtain ⟨d, hd⟩ := Option.ne_none_iff_exists'.mp (mt maxDecision_eq_none.mp hma)
  obtain ⟨_, hd'⟩ := Option.ne_none_iff_exists'.mp
    (mt maxDecision_eq_none.mp (fun hn => hma (subset_nil.mp (hn ▸ hms))))
  obtain ⟨r, hr, hs⟩ := requirementWith_spec shell req hd
  obtain ⟨r', hr', hs'⟩ := requirementWith_spec shell { req with command, prefixRule } hd'
  refine ⟨r, r', hr, hr', ?_, ?_⟩
  · rw [hs, hs', loosened_iff hd hd']
    refine strictnessOf_le (maxDecision_mono hms hd hd') ?_ ?_
    · intro hru
      obtain ⟨m, hm, hask⟩ := any_eq_true.mp hru
      exact any_eq_true.mpr ⟨m, hms hm, hask⟩
    · intro hal
      exact all_eq_true.mpr fun cmd hc => all_eq_true.mp hal cmd (hsub hc)
  rintro amendment rfl cmd hc
  obtain ⟨rfl, ha⟩ := allowed_of_strictnessOf hs'.symm
  exact all_rules_allow hd' ha hc

/-! ## Examples -/

def plainShell : Shell where
  shlexTryJoin args := some <| intercalate [' '] <|
    args.map fun word => if word.contains ' ' then ['\''] ++ word ++ ['\''] else word
  dangerousCommandMatch _ := none

def escalatedRequest (approvalPolicy : AskForApproval) (script : Text) : ExecApprovalRequest where
  command := ["bash", "-lc", script]
  approvalPolicy := approvalPolicy
  permissionProfile := .managed (.restricted [{ path := .special .root, access := .read }] none)
  environmentPolicy := none
  sandboxPermissions := .requireEscalated
  prefixRule := none
  allowPrefixRules := .honor

theorem madeup_approvable_after_git :
    createExecApprovalRequirementForParsedCommands ⟨none, none⟩ plainShell (oneRule ["git"] .prompt)
        (escalatedRequest (.granular ⟨false, true⟩) "madeup-cmd") [["madeup-cmd"]] =
      some (.forbidden rejectSandboxApprovalReason) ∧
    createExecApprovalRequirementForParsedCommands ⟨none, none⟩ plainShell (oneRule ["git"] .prompt)
        (escalatedRequest (.granular ⟨false, true⟩) "git status && madeup-cmd")
        [["git", "status"], ["madeup-cmd"]] =
      some (.needsApproval (some "`bash -lc 'git status && madeup-cmd'` requires approval by policy") none) :=
  ⟨rfl, rfl⟩

theorem git_asks_after_ls :
    ∃ r r', requirementWith ⟨none, none⟩ plainShell (oneRule ["git"] .prompt) (fun _ => .allow)
        (escalatedRequest .onRequest "ls") [["ls"]] = some r ∧
      requirementWith ⟨none, none⟩ plainShell (oneRule ["git"] .prompt) (fun _ => .allow)
        (escalatedRequest .onRequest "ls && git status")
        [["ls"], ["git", "status"]] = some r' ∧
      r.strictness ≤ r'.strictness := by
  obtain ⟨r, r', hr, hr', hle, -⟩ := chained_at_least_as_strict ⟨none, none⟩ plainShell
    (oneRule ["git"] .prompt) (fun _ => .allow) (escalatedRequest .onRequest "ls")
    ["bash", "-lc", "ls && git status"] none
    [["ls"]] [["ls"], ["git", "status"]] (by decide) (by decide)
  refine ⟨r, r', hr, hr', hle.mpr ?_⟩
  rintro ⟨⟨_, hg, -⟩, -⟩
  simp [escalatedRequest] at hg

end Codex.ExecPolicy
