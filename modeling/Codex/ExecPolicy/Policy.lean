import Mathlib.Order.MinMax
import Codex.AbsolutePath
import Codex.HashMap

/-!
# Command rules

`Policy` of `execpolicy/src/policy.rs` with the rules of `rule.rs`, as they are built off
Windows. A multimap is the list of its entries in the order they were inserted.
-/

namespace Codex.ExecPolicy

open Codex.Text

/-! ## Rules -/

inductive Decision where
  | allow
  | prompt
  | forbidden
deriving DecidableEq

namespace Decision

def rank : Decision → Nat
  | allow => 0
  | prompt => 1
  | forbidden => 2

instance : LinearOrder Decision :=
  LinearOrder.lift' rank fun a b h => by cases a <;> cases b <;> simp_all [rank]

instance : Std.LawfulOrderMax Decision where
  max_eq_or a b := (max_choice a b).imp id id
  max_le_iff _ _ _ := max_le_iff

end Decision

abbrev Command := List Text

inductive PatternToken where
  | single (value : Text)
  | alts (alternatives : List Text)
deriving DecidableEq

def PatternToken.matches : PatternToken → Text → Bool
  | single expected, token => expected = token
  | alts alternatives, token => alternatives.contains token

structure PrefixPattern where
  first : Text
  rest : List PatternToken
deriving DecidableEq

def PrefixPattern.matchesPrefix (pattern : PrefixPattern) (cmd : Command) : Option Command :=
  let patternLength := pattern.rest.length + 1
  if cmd.length < patternLength ∨ cmd.head? ≠ some pattern.first then none
  else if (pattern.rest.zip cmd.tail).all fun (token, word) => token.matches word then
    some (cmd.take patternLength)
  else none

inductive RuleMatch where
  | prefixRuleMatch (matchedPrefix : Command) (decision : Decision) (resolvedProgram : Option AbsolutePathBuf)
      (justification : Option Text)
  | heuristicsRuleMatch (command : Command) (decision : Decision)
deriving DecidableEq

namespace RuleMatch

def decision : RuleMatch → Decision
  | prefixRuleMatch _ decision _ _ => decision
  | heuristicsRuleMatch _ decision => decision

def withResolvedProgram (program : AbsolutePathBuf) : RuleMatch → RuleMatch
  | prefixRuleMatch matchedPrefix decision _ justification =>
    prefixRuleMatch matchedPrefix decision (some program) justification
  | other => other

def isPolicyMatch : RuleMatch → Bool
  | prefixRuleMatch .. => true
  | heuristicsRuleMatch .. => false

end RuleMatch

structure PrefixRule where
  pattern : PrefixPattern
  decision : Decision
  justification : Option Text
deriving DecidableEq

def PrefixRule.matches (rule : PrefixRule) (cmd : Command) : Option RuleMatch :=
  (rule.pattern.matchesPrefix cmd).map fun matchedPrefix =>
    .prefixRuleMatch matchedPrefix rule.decision none rule.justification

inductive NetworkRuleProtocol where
  | http
  | https
  | socks5Tcp
  | socks5Udp
deriving DecidableEq

structure NetworkRule where
  host : Text
  protocol : NetworkRuleProtocol
  decision : Decision
  justification : Option Text
deriving DecidableEq

/-! ## Policies -/

structure Policy where
  rulesByProgram : List (Text × PrefixRule) := []
  networkRules : List NetworkRule := []
  hostExecutablesByName : HashMap (id : Text → Text) (List AbsolutePathBuf) := {}

structure Evaluation where
  decision : Decision
  matchedRules : List RuleMatch

/-- Without a match there is no evaluation: the source panics. -/
def Evaluation.fromMatches (matchedRules : List RuleMatch) : Option Evaluation :=
  (matchedRules.map RuleMatch.decision).max?.map fun decision => { decision, matchedRules }

def Evaluation.isMatch (evaluation : Evaluation) : Bool := evaluation.matchedRules.any (·.isPolicyMatch)

structure MatchOptions where
  resolveHostExecutables : Bool := false

namespace Policy

def empty : Policy := {}

def rulesFor (policy : Policy) (program : Text) : List PrefixRule :=
  (policy.rulesByProgram.filter (·.1 = program)).map (·.2)

def addPrefixRule (policy : Policy) (words : Command) (decision : Decision) : Option Policy :=
  match words with
  | [] => none
  | first :: rest =>
    let rule := { pattern := { first, rest := rest.map .single }, decision, justification := none }
    some { policy with rulesByProgram := policy.rulesByProgram ++ [(first, rule)] }

def mergeOverlay (policy overlay : Policy) : Policy where
  rulesByProgram := policy.rulesByProgram ++ overlay.rulesByProgram
  networkRules := policy.networkRules ++ overlay.networkRules
  hostExecutablesByName :=
    overlay.hostExecutablesByName.entries.foldl (fun m e => m.insert e.1 e.2) policy.hostExecutablesByName

def matchExactRules (policy : Policy) : Command → List RuleMatch
  | [] => []
  | first :: rest => (policy.rulesFor first).filterMap (·.matches (first :: rest))

def resolveProgram (host : Host) (first : Text) : Option (AbsolutePathBuf × Text) := do
  let program ← AbsolutePathBuf.fromAbsolutePath host first
  return (program, ← program.fileName)

/-- A list of paths under a name rules out every other path. -/
def hostAllows (policy : Policy) (program : AbsolutePathBuf) (basename : Text) : Bool :=
  (policy.hostExecutablesByName.get basename).all (·.contains program)

section

variable (host : Host) (policy : Policy)

def matchHostExecutableRules : Command → List RuleMatch
  | [] => []
  | first :: rest =>
    match resolveProgram host first with
    | none => []
    | some (program, basename) =>
      if policy.hostAllows program basename then
        ((policy.rulesFor basename).filterMap (·.matches (basename :: rest))).map (·.withResolvedProgram program)
      else []

def matchesForCommandWithOptions (cmd : Command)
    (heuristicsFallback : Option (Command → Decision)) (options : MatchOptions) : List RuleMatch :=
  let exactRules := policy.matchExactRules cmd
  let matchedRules :=
    if !exactRules.isEmpty then exactRules
    else if options.resolveHostExecutables then policy.matchHostExecutableRules host cmd
    else []
  match matchedRules, heuristicsFallback with
  | [], some fallback => [.heuristicsRuleMatch cmd (fallback cmd)]
  | _, _ => matchedRules

def checkMultipleWithOptions (commands : List Command)
    (heuristicsFallback : Command → Decision) (options : MatchOptions) : Option Evaluation :=
  Evaluation.fromMatches <| commands.flatMap fun cmd =>
    policy.matchesForCommandWithOptions host cmd (some heuristicsFallback) options

def checkWithOptions (cmd : Command) (heuristicsFallback : Command → Decision)
    (options : MatchOptions) : Option Evaluation :=
  Evaluation.fromMatches (policy.matchesForCommandWithOptions host cmd (some heuristicsFallback) options)

end

end Policy

end Codex.ExecPolicy
