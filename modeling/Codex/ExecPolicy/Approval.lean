import Codex.ExecPolicy.Merge
import Codex.Permissions.Policy

/-!
# Approval of commands

`ExecPolicyManager` of `core/src/exec_policy.rs` and `exec_policy/model_policy.rs`, as they are built off
Windows. The join of the `shlex` crate and the classifier of dangerous commands are parameters.
-/

namespace Codex.ExecPolicy

open Codex.Text Codex.Permissions

/-! ## Requests -/

structure GranularApprovalConfig where
  sandboxApproval : Bool
  rules : Bool
deriving DecidableEq

inductive AskForApproval where
  | unlessTrusted
  | onRequest
  | granular (config : GranularApprovalConfig)
  | never
deriving DecidableEq

inductive SandboxPermissions where
  | useDefault
  | requireEscalated
  | withAdditionalPermissions
deriving DecidableEq

def SandboxPermissions.requestsSandboxOverride (permissions : SandboxPermissions) : Bool :=
  permissions ≠ useDefault

inductive AllowPrefixRules where
  | honor
  | ignoreForCyberModel
deriving DecidableEq

inductive DangerousCommandMatch where
  | forcedRm
  | other
deriving DecidableEq

structure ExecApprovalRequest where
  command : Command
  approvalPolicy : AskForApproval
  permissionProfile : PermissionProfile
  environmentPolicy : Option Policy
  sandboxPermissions : SandboxPermissions
  prefixRule : Option Command
  allowPrefixRules : AllowPrefixRules

inductive ExecApprovalRequirement where
  | skip (bypassSandbox : Bool) (proposedExecpolicyAmendment : Option Command)
  | needsApproval (reason : Option Text) (proposedExecpolicyAmendment : Option Command)
  | forbidden (reason : Text)
deriving DecidableEq

/-- What the manager asks others: `shlex::try_join`, and whether a command of the request's origin and
platform is dangerous. -/
structure Shell where
  shlexTryJoin : Command → Option Text
  dangerousCommandMatch : Command → Option DangerousCommandMatch

/-! ## The policy of a request -/

/-- Allow rules are left out for a model that does not honor them. -/
def currentForPrefixRules (current : Policy) : AllowPrefixRules → Policy
  | .honor => current
  | .ignoreForCyberModel =>
    { current with rulesByProgram := current.rulesByProgram.filter fun (_, rule) => rule.decision ≠ .allow }

def currentForEnvironment (current : Policy) (environmentPolicy : Option Policy)
    (allowPrefixRules : AllowPrefixRules) : Policy :=
  let policy := currentForPrefixRules current allowPrefixRules
  match environmentPolicy with
  | some environmentPolicy => policy.mergeOverlay environmentPolicy
  | none => policy

def renderDecisionForUnmatchedCommand (shell : Shell) (req : ExecApprovalRequest) (command : Command) : Decision :=
  let inSandbox :=
    match req.permissionProfile.fileSystemSandboxPolicy.kind with
    | .unrestricted => Decision.allow
    | .externalSandbox => .allow
    | .restricted => if req.sandboxPermissions.requestsSandboxOverride then .prompt else .allow
  if (shell.dangerousCommandMatch command).isSome then
    match req.approvalPolicy with
    | .never => .forbidden
    | .onRequest => .prompt
    | .unlessTrusted => .prompt
    | .granular _ => .prompt
  else match req.approvalPolicy with
    | .never => .allow
    | .unlessTrusted => .prompt
    | .onRequest => inSandbox
    | .granular _ => inSandbox

/-! ## Prompts -/

def promptConflictReason : Text := "approval required by policy, but AskForApproval is set to Never"

def rejectSandboxApprovalReason : Text :=
  "approval required by policy, but AskForApproval::Granular.sandbox_approval is false"

def rejectRulesApprovalReason : Text :=
  "approval required by policy rule, but AskForApproval::Granular.rules is false"

def promptIsRejectedByPolicy (approvalPolicy : AskForApproval) (promptIsRule : Bool) : Option Text :=
  match approvalPolicy with
  | .never => some promptConflictReason
  | .onRequest => none
  | .unlessTrusted => none
  | .granular config =>
    if promptIsRule then
      if !config.rules then some rejectRulesApprovalReason else none
    else if !config.sandboxApproval then some rejectSandboxApprovalReason
    else none

/-! ## Reasons -/

def renderShlexCommand (shell : Shell) (args : Command) : Text :=
  (shell.shlexTryJoin args).getD (List.intercalate [' '] args)

def rulesOfDecision (decision : Decision) (matchedRules : List RuleMatch) : List (Command × Option Text) :=
  matchedRules.filterMap fun
    | .prefixRuleMatch matchedPrefix ruleDecision _ justification =>
      if ruleDecision = decision then some (matchedPrefix, justification) else none
    | .heuristicsRuleMatch .. => none

def derivePromptReason (shell : Shell) (commandArgs : Command) (evaluation : Evaluation) : Option Text :=
  let command := renderShlexCommand shell commandArgs
  match maxByKey (·.1.length) (rulesOfDecision .prompt evaluation.matchedRules) with
  | some (_, some justification) =>
    some ("`" ++ command ++ "` requires approval: " ++ justification)
  | some (_, none) => some ("`" ++ command ++ "` requires approval by policy")
  | none => none

def dangerousCommandRejectionReason : DangerousCommandMatch → Text
  | .forcedRm => "rm -f style commands are not permitted. Use a safer approach"
  | .other => "blocked by policy"

def deriveForbiddenReason (shell : Shell) (commandArgs : Command) (evaluation : Evaluation)
    (dangerousCommandMatch : Option DangerousCommandMatch) : Text :=
  let command := renderShlexCommand shell commandArgs
  match maxByKey (·.1.length) (rulesOfDecision .forbidden evaluation.matchedRules) with
  | some (_, some justification) => "`" ++ command ++ "` rejected: " ++ justification
  | some (matchedPrefix, none) =>
    "`" ++ command ++ "` rejected: policy forbids commands starting with `" ++
      renderShlexCommand shell matchedPrefix ++ "`"
  | none =>
    match dangerousCommandMatch with
    | some dangerous =>
      "`" ++ command ++ "` rejected: " ++ dangerousCommandRejectionReason dangerous
    | none => "`" ++ command ++ "` rejected: blocked by policy"

def deriveRejectedPromptReason (fallbackReason : Text) : Option DangerousCommandMatch → Text
  | some .forcedRm => dangerousCommandRejectionReason .forcedRm
  | some .other => fallbackReason
  | none => fallbackReason

def dangerousCommandMatchForHeuristics (shell : Shell) (evaluation : Evaluation) (decision : Decision) :
    Option DangerousCommandMatch :=
  evaluation.matchedRules.findSome? fun
    | .heuristicsRuleMatch command matchedDecision =>
      if matchedDecision = decision then shell.dangerousCommandMatch command else none
    | .prefixRuleMatch .. => none

/-! ## Proposed amendments -/

def isRulePrompt (ruleMatch : RuleMatch) : Bool := ruleMatch.isPolicyMatch && ruleMatch.decision = .prompt

def firstHeuristic (decision : Decision) (matchedRules : List RuleMatch) : Option Command :=
  matchedRules.findSome? fun
    | .heuristicsRuleMatch command matchedDecision => if matchedDecision = decision then some command else none
    | .prefixRuleMatch .. => none

def tryDeriveExecpolicyAmendmentForPromptRules (matchedRules : List RuleMatch) : Option Command :=
  if matchedRules.any isRulePrompt then none else firstHeuristic .prompt matchedRules

def tryDeriveExecpolicyAmendmentForAllowRules (matchedRules : List RuleMatch) : Option Command :=
  if matchedRules.any (·.isPolicyMatch) then none else firstHeuristic .allow matchedRules

def bannedPrefixSuggestions : List Command :=
  [["/bin/bash"], ["/bin/bash", "-c"], ["/bin/bash", "-lc"], ["/bin/sh"], ["/bin/sh", "-c"],
    ["/bin/sh", "-lc"], ["/bin/zsh"], ["/bin/zsh", "-c"], ["/bin/zsh", "-lc"], ["Rscript"], ["bash"],
    ["bash", "-c"], ["bash", "-lc"], ["bun"], ["bun", "-e"], ["bun", "run"], ["cmd"], ["cmd", "/c"],
    ["cmd", "/k"], ["cmd.exe"], ["cmd.exe", "/c"], ["cmd.exe", "/k"], ["dash"], ["dash", "-c"], ["deno"],
    ["deno", "eval"], ["env"], ["fish"], ["fish", "-c"], ["git"], ["julia"], ["julia", "-e"], ["ksh"],
    ["ksh", "-c"], ["lua"], ["lua", "-e"], ["node"], ["node", "-e"], ["nodejs"], ["nodejs", "-e"],
    ["npm", "run"], ["osascript"], ["perl"], ["perl", "-e"], ["php"], ["php", "-r"], ["pnpm", "run"],
    ["powershell"], ["powershell", "-Command"], ["powershell", "-EncodedCommand"], ["powershell", "-File"],
    ["powershell", "-c"], ["powershell.exe"], ["powershell.exe", "-Command"],
    ["powershell.exe", "-EncodedCommand"], ["powershell.exe", "-File"], ["powershell.exe", "-c"], ["pwsh"],
    ["pwsh", "-Command"], ["pwsh", "-EncodedCommand"], ["pwsh", "-File"], ["pwsh", "-c"], ["pwsh", "-e"],
    ["pwsh", "-ec"], ["pwsh", "-f"], ["py"], ["py", "-3"], ["pypy"], ["pypy3"], ["python"],
    ["python", "-"], ["python", "-c"], ["python3"], ["python3", "-"], ["python3", "-c"], ["pythonw"],
    ["pyw"], ["rm"], ["ruby"], ["ruby", "-e"], ["sh"], ["sh", "-c"], ["sh", "-lc"], ["sudo"],
    ["yarn", "run"], ["zsh"], ["zsh", "-c"], ["zsh", "-lc"]].map (·.map String.toList)

def prefixRuleWouldApproveAllCommands (host : Host) (execPolicy : Policy) (prefixRule : Command)
    (commands : List Command) (execPolicyFallback : Command → Decision) (matchOptions : MatchOptions) : Bool :=
  match execPolicy.addPrefixRule prefixRule .allow with
  | none => false
  | some policyWithPrefixRule => commands.all fun command =>
    (policyWithPrefixRule.checkWithOptions host command execPolicyFallback matchOptions).any (·.decision = .allow)

def deriveRequestedExecpolicyAmendmentFromPrefixRule (host : Host) (prefixRule : Option Command)
    (matchedRules : List RuleMatch) (execPolicy : Policy) (commands : List Command)
    (execPolicyFallback : Command → Decision) (matchOptions : MatchOptions) : Option Command := do
  let amendment ← prefixRule
  if amendment.isEmpty then none
  else if bannedPrefixSuggestions.contains amendment then none
  else if matchedRules.any (·.isPolicyMatch) then none
  else if prefixRuleWouldApproveAllCommands host execPolicy amendment commands execPolicyFallback
      matchOptions then
    some amendment
  else none

/-! ## Requirements -/

def explicitlyAllowed (host : Host) (execPolicy : Policy) (command : Command) : Bool :=
  (execPolicy.matchesForCommandWithOptions host command none ⟨true⟩).any fun ruleMatch =>
    ruleMatch.isPolicyMatch && ruleMatch.decision = .allow

/-- The requirement under a policy and a fallback for segments that no rule matches. Without a segment the
source panics. -/
def requirementWith (host : Host) (shell : Shell) (execPolicy : Policy)
    (execPolicyFallback : Command → Decision) (req : ExecApprovalRequest) (commands : List Command) :
      Option ExecApprovalRequirement := do
  let autoAmendmentAllowed := req.allowPrefixRules = .honor
  let evaluation ← execPolicy.checkMultipleWithOptions host commands execPolicyFallback ⟨true⟩
  let requestedAmendment :=
    if autoAmendmentAllowed then
      deriveRequestedExecpolicyAmendmentFromPrefixRule host req.prefixRule evaluation.matchedRules execPolicy
        commands execPolicyFallback ⟨true⟩
    else none
  return match evaluation.decision with
    | .forbidden => .forbidden <| deriveForbiddenReason shell req.command evaluation
        (dangerousCommandMatchForHeuristics shell evaluation .forbidden)
    | .prompt =>
      let promptIsRule := evaluation.matchedRules.any isRulePrompt
      match promptIsRejectedByPolicy req.approvalPolicy promptIsRule with
      | some reason =>
        if promptIsRule then .forbidden reason
        else .forbidden <| deriveRejectedPromptReason reason
          (dangerousCommandMatchForHeuristics shell evaluation .prompt)
      | none => .needsApproval (derivePromptReason shell req.command evaluation) <|
          requestedAmendment.or <|
            if autoAmendmentAllowed then tryDeriveExecpolicyAmendmentForPromptRules evaluation.matchedRules
            else none
    | .allow => .skip (commands.all (explicitlyAllowed host execPolicy)) <|
        if autoAmendmentAllowed then tryDeriveExecpolicyAmendmentForAllowRules evaluation.matchedRules else none

def createExecApprovalRequirementForParsedCommands (host : Host) (shell : Shell) (current : Policy)
    (req : ExecApprovalRequest) (commands : List Command) : Option ExecApprovalRequirement :=
  requirementWith host shell (currentForEnvironment current req.environmentPolicy req.allowPrefixRules)
    (renderDecisionForUnmatchedCommand shell req) req commands

end Codex.ExecPolicy
