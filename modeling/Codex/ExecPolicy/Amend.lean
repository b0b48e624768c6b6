import Codex.Result
import Codex.ExecPolicy.Merge

/-!
# Saved and running rules

`append_amendment_and_update` of `core/src/exec_policy.rs` and `execpolicy/src/amend.rs`. The Starlark reader of the
file and the JSON form of a word are parameters.
-/

namespace Codex.ExecPolicy

open Codex.Text Policy List Option

/-! ## The rules file -/

inductive AmendError where
  | emptyPrefix
deriving DecidableEq

def ruleLine (quote : Text → Text) (words : Command) : Text :=
  "prefix_rule(pattern=[" ++ intercalate ", " (words.map quote) ++ "], decision=\"allow\")"

def appendLockedLine (contents line : Text) : Text :=
  if line ∈ lines contents then contents
  else
    let contents := if contents ≠ [] ∧ contents.getLast? ≠ some '\n' then contents ++ ['\n'] else contents
    contents ++ line ++ ['\n']

def blockingAppendAllowPrefixRule (quote : Text → Text) (contents : Text) (words : Command) : Except AmendError Text :=
  if words.isEmpty then .error .emptyPrefix else .ok (appendLockedLine contents (ruleLine quote words))

/-! ## The manager -/

inductive ExecPolicyUpdateError where
  | appendRule (source : AmendError)
  | addRule (message : Text)
deriving DecidableEq

structure ExecPolicyManager where
  contents : Text
  policy : Policy

def alreadyAllowed (host : Host) (policy : Policy) (words : Command) : Bool :=
  (policy.checkMultipleWithOptions host [words] (fun _ => .forbidden) ⟨true⟩).any fun evaluation =>
    evaluation.decision = .allow && evaluation.matchedRules.any fun m => m.isPolicyMatch && m.decision = .allow

def appendAmendmentAndUpdate (host : Host) (quote : Text → Text) (m : ExecPolicyManager) (words : Command) :
    Except ExecPolicyUpdateError ExecPolicyManager := do
  let contents ← (blockingAppendAllowPrefixRule quote m.contents words).mapError .appendRule
  if alreadyAllowed host m.policy words then return { m with contents }
  else match m.policy.addPrefixRule words .allow with
    | none => .error (.addRule "prefix cannot be empty")
    | some policy => return { contents, policy }

def amendAll (host : Host) (quote : Text → Text) (m : ExecPolicyManager) (amendments : List Command) :
    Except ExecPolicyUpdateError ExecPolicyManager :=
  amendments.foldlM (appendAmendmentAndUpdate host quote) m

/-! ## Rules and longer commands -/

section

variable {tokens : List PatternToken} {words more : Command} {rule : PrefixRule}

lemma zip_all_append (f : PatternToken × Text → Bool) (h : tokens.length ≤ words.length) :
    (tokens.zip (words ++ more)).all f = (tokens.zip words).all f := by
  induction tokens generalizing words with
  | nil => rfl
  | cons token tokens ih => ?_
  cases words with
  | nil => simp at h
  | cons word words =>
    rw [cons_append, zip_cons_cons, zip_cons_cons, all_cons, all_cons, ih (by simpa using h)]

lemma zip_single_all_iff (ws : Command) :
    (ws.length ≤ words.length ∧ ((ws.map PatternToken.single).zip words).all (fun (token, word) =>
      token.matches word)) ↔ ws <+: words := by
  induction ws generalizing words with
  | nil => simp
  | cons w ws ih => ?_
  rcases words with _ | ⟨word, words⟩
  · simp
  rw [cons_prefix_cons, ← ih]
  simp only [length_cons, Nat.add_le_add_iff_right, map_cons, zip_cons_cons, all_cons,
    Bool.and_eq_true, PatternToken.matches, decide_eq_true_eq]
  tauto

lemma matches_isSome_iff (cmd : Command) : (rule.matches cmd).isSome ↔
    rule.pattern.rest.length + 1 ≤ cmd.length ∧ cmd.head? = some rule.pattern.first ∧
      (rule.pattern.rest.zip cmd.tail).all (fun (token, word) => token.matches word) := by
  unfold PrefixRule.matches PrefixPattern.matchesPrefix
  rw [isSome_map]
  dsimp only
  split
  · rename_i h
    simp only [isSome_none, Bool.false_eq_true, false_iff]
    rintro ⟨hl, hh, -⟩
    rcases h with h | h
    · omega
    · exact h hh
  rename_i h
  rw [not_or, not_not] at h
  split
  · rename_i ha
    exact ⟨fun _ => ⟨by omega, h.2, ha⟩, fun _ => rfl⟩
  rename_i ha
  simp only [isSome_none, Bool.false_eq_true, false_iff]
  exact fun hand => ha hand.2.2

lemma matches_append (h : (rule.matches words).isSome) : (rule.matches (words ++ more)).isSome := by
  rw [matches_isSome_iff] at h ⊢
  obtain ⟨hl, hh, ha⟩ := h
  rcases words with _ | ⟨word, words⟩
  · simp at hl
  refine ⟨by simp at hl ⊢; omega, hh, ?_⟩
  rw [cons_append, tail_cons, zip_all_append _ (by simpa using hl)]
  exact ha

end

def allowRule (first : Text) (rest : Command) : PrefixRule :=
  { pattern := { first, rest := rest.map .single }, decision := .allow, justification := none }

lemma allowRule_matches_iff (first : Text) (rest cmd : Command) :
    ((allowRule first rest).matches cmd).isSome ↔ first :: rest <+: cmd := by
  rw [matches_isSome_iff]
  rcases cmd with _ | ⟨word, words⟩
  · simp
  rw [cons_prefix_cons, ← zip_single_all_iff]
  simp only [allowRule, length_map, length_cons, Nat.add_le_add_iff_right, head?_cons, some.injEq]
  tauto

/-! ## Policies that agree -/

variable {policy : Policy} {cmd : Command} {d : Decision} {parse : Text → Option Policy}
  {m m' : ExecPolicyManager}

lemma atLeast_exactDecision_iff :
    AtLeast d (policy.exactDecision cmd) ↔
      ∃ e ∈ policy.rulesByProgram, cmd.head? = some e.1 ∧ (e.2.matches cmd).isSome ∧ d ≤ e.2.decision := by
  have hma : ∀ (rule : PrefixRule) m, rule.matches cmd = some m → m.decision = rule.decision := by
    intro rule m hm
    obtain ⟨_, -, rfl⟩ := map_eq_some_iff.mp hm
    rfl
  unfold exactDecision
  rw [atLeast_maxDecision]
  rcases cmd with _ | ⟨first, rest⟩
  · simp [matchExactRules]
  simp only [matchExactRules, rulesFor, mem_filterMap, List.mem_map, mem_filter, decide_eq_true_eq,
    head?_cons, some.injEq]
  constructor
  · rintro ⟨m, ⟨rule, ⟨e, ⟨he, hf⟩, rfl⟩, hm⟩, hle⟩
    exact ⟨e, he, hf.symm, by simp [hm], hma _ m hm ▸ hle⟩
  rintro ⟨e, he, hf, hs, hle⟩
  obtain ⟨m, hm⟩ := isSome_iff_exists.mp hs
  exact ⟨m, ⟨e.2, ⟨e, ⟨he, hf.symm⟩, rfl⟩, hm⟩, by rw [hma _ m hm]; exact hle⟩

structure Agree (running saved : Policy) : Prop where
  exact : ∀ cmd, running.exactDecision cmd = saved.exactDecision cmd
  hosts : ∀ name, running.hostExecutablesByName.get name = saved.hostExecutablesByName.get name

variable {host : Host} {quote : Text → Text} {running saved : Policy} {first : Text} {rest : Command}

lemma Agree.ruleDecision_eq (h : Agree running saved) (cmd : Command) :
    running.ruleDecision host cmd = saved.ruleDecision host cmd := by
  have ha : ∀ program basename,
      running.hostAllows program basename = saved.hostAllows program basename := by
    unfold hostAllows
    intro program basename
    rw [h.hosts]
  unfold ruleDecision
  cases cmd with
  | nil => rfl
  | cons first rest => simp [hostDecision, ha, h.exact]

def withRule (policy : Policy) (first : Text) (rest : Command) : Policy :=
  { policy with rulesByProgram := policy.rulesByProgram ++ [(first, allowRule first rest)] }

lemma atLeast_withRule :
    AtLeast d ((withRule policy first rest).exactDecision cmd) ↔
      AtLeast d (policy.exactDecision cmd) ∨ (d ≤ .allow ∧ first :: rest <+: cmd) := by
  rw [atLeast_exactDecision_iff, atLeast_exactDecision_iff, ← allowRule_matches_iff]
  unfold withRule
  simp only [mem_append, mem_singleton, or_and_right, exists_or, exists_eq_left]
  apply or_congr_right
  constructor
  · rintro ⟨-, hm, hle⟩
    exact ⟨hle, hm⟩
  · rintro ⟨hle, hm⟩
    exact ⟨((matches_isSome_iff cmd).mp hm).2.1, hm, hle⟩

lemma Agree.withRule (h : Agree running saved) :
    Agree (ExecPolicy.withRule running first rest) (ExecPolicy.withRule saved first rest) := by
  refine ⟨fun cmd => eq_of_atLeast_iff fun d => ?_, h.hosts⟩
  rw [atLeast_withRule, atLeast_withRule, h.exact]

lemma agree_withRule_of_matched (h : ∀ cmd, first :: rest <+: cmd → AtLeast .allow (saved.exactDecision cmd)) :
    Agree saved (ExecPolicy.withRule saved first rest) := by
  refine ⟨fun cmd => eq_of_atLeast_iff fun d => ?_, fun _ => rfl⟩
  rw [atLeast_withRule]
  constructor
  · exact .inl
  rintro (hd | ⟨hle, hs⟩)
  · exact hd
  · obtain ⟨d', hd', hle'⟩ := h cmd hs
    exact ⟨d', hd', hle.trans hle'⟩

lemma Agree.symm (h : Agree running saved) : Agree saved running :=
  ⟨fun cmd => (h.exact cmd).symm, fun name => (h.hosts name).symm⟩

lemma Agree.trans (h : Agree running saved) (h' : Agree saved other) : Agree running other :=
  ⟨fun cmd => (h.exact cmd).trans (h'.exact cmd), fun name => (h.hosts name).trans (h'.hosts name)⟩

lemma atLeast_of_exact (h : running.matchExactRules (first :: rest) ≠ []) (cmd : Command)
    (hs : first :: rest <+: cmd) : AtLeast .allow (running.exactDecision cmd) := by
  obtain ⟨m, hm⟩ := exists_mem_of_ne_nil _ h
  have hat : AtLeast .allow (running.exactDecision (first :: rest)) :=
    atLeast_maxDecision.mpr ⟨m, hm, by cases m.decision <;> decide⟩
  obtain ⟨_, rfl⟩ := hs
  rw [atLeast_exactDecision_iff] at hat ⊢
  obtain ⟨e, he, hh, hma, hle⟩ := hat
  exact ⟨e, he, hh, matches_append hma, hle⟩

/-! ## Runs -/

/-- The reader gives back each written line as its rule: after the line is appended, or because it was
there. -/
def ReadsBack (parse : Text → Option Policy) (quote : Text → Text) (m : ExecPolicyManager) (words : Command) : Prop :=
  ∀ saved, parse m.contents = some saved → ∀ first rest, words = first :: rest →
    if ruleLine quote words ∈ lines m.contents then (first, allowRule first rest) ∈ saved.rulesByProgram
    else parse (appendLockedLine m.contents (ruleLine quote words)) = some (withRule saved first rest)

/-- A command that is allowed already is allowed by rules for its first word. -/
def Steady (host : Host) (m : ExecPolicyManager) (words : Command) : Prop :=
  alreadyAllowed host m.policy words = true → m.policy.matchExactRules words ≠ []

/-- A condition on every amendment of a run. -/
def AlongRun (host : Host) (quote : Text → Text) (A : ExecPolicyManager → Command → Prop) :
    ExecPolicyManager → List Command → Prop
  | _, [] => True
  | m, words :: amendments => A m words ∧
    ∀ m', appendAmendmentAndUpdate host quote m words = .ok m' → AlongRun host quote A m' amendments

def InStep (parse : Text → Option Policy) (m : ExecPolicyManager) : Prop :=
  ∃ saved, parse m.contents = some saved ∧ Agree m.policy saved

lemma appendAmendmentAndUpdate_cons (m : ExecPolicyManager) (first : Text) (rest : Command) :
    appendAmendmentAndUpdate host quote m (first :: rest) = .ok
      { contents := appendLockedLine m.contents (ruleLine quote (first :: rest))
        policy := if alreadyAllowed host m.policy (first :: rest) then m.policy
          else withRule m.policy first rest } := by
  unfold appendAmendmentAndUpdate
  split <;> rfl

lemma InStep.amend (h : InStep parse m) (hrea : ReadsBack parse quote m words)
    (hst : Steady host m words) (hs : appendAmendmentAndUpdate host quote m words = .ok m') :
    InStep parse m' := by
  obtain ⟨saved, hp, ha⟩ := h
  rcases words with _ | ⟨first, rest⟩
  · exact absurd hs (by nofun)
  rw [appendAmendmentAndUpdate_cons] at hs
  cases hs
  have hre := hrea saved hp first rest rfl
  -- With the rule or without it, the running policy agrees with the saved one and the rule.
  have hr : Agree (if alreadyAllowed host m.policy (first :: rest) then m.policy
      else withRule m.policy first rest) (withRule saved first rest) := by
    split
    · rename_i hal
      exact (agree_withRule_of_matched (atLeast_of_exact (hst hal))).trans ha.withRule
    · exact ha.withRule
  unfold InStep
  split at hre
  · rename_i hme
    have hsa : Agree saved (withRule saved first rest) := by
      refine agree_withRule_of_matched fun cmd hsta => atLeast_exactDecision_iff.mpr ?_
      have hm := (allowRule_matches_iff first rest cmd).mpr hsta
      exact ⟨_, hre, ((matches_isSome_iff cmd).mp hm).2.1, hm, le_rfl⟩
    refine ⟨saved, ?_, hr.trans hsa.symm⟩
    rw [appendLockedLine, if_pos hme]
    exact hp
  · exact ⟨_, hre, hr⟩

lemma InStep.amendAll (h : InStep parse m) (hr : AlongRun host quote (ReadsBack parse quote) m amendments)
    (hs : AlongRun host quote (Steady host) m amendments)
    (hru : ExecPolicy.amendAll host quote m amendments = .ok m') : InStep parse m' := by
  induction amendments generalizing m with
  | nil =>
    cases hru
    exact h
  | cons words amendments ih => ?_
  unfold ExecPolicy.amendAll at hru
  obtain ⟨m₁, hst, hre⟩ := Result.bind_eq_ok.mp hru
  exact ih (h.amend hr.1 hs.1 hst) (hr.2 m₁ hst) (hs.2 m₁ hst) hre

/-- **The running policy equals the saved policy** if what was allowed already was allowed by its first word. -/
theorem running_eq_saved (host : Host) (quote : Text → Text) (parse : Text → Option Policy)
    (start m : ExecPolicyManager) (amendments : List Command)
    (hstart : parse start.contents = some start.policy)
    (hreads : AlongRun host quote (ReadsBack parse quote) start amendments)
    (hsteady : AlongRun host quote (Steady host) start amendments)
    (hrun : ExecPolicy.amendAll host quote start amendments = .ok m) :
    ∃ saved, parse m.contents = some saved ∧ ∀ cmd fallback,
      (m.policy.checkWithOptions host cmd fallback ⟨true⟩).map (·.decision) =
        (saved.checkWithOptions host cmd fallback ⟨true⟩).map (·.decision) := by
  have hi : InStep parse start := ⟨_, hstart, fun _ => rfl, fun _ => rfl⟩
  obtain ⟨saved, hp, ha⟩ := hi.amendAll hreads hsteady hrun
  refine ⟨saved, hp, fun cmd fallback => ?_⟩
  obtain ⟨e, he, hd, -⟩ := checkWithOptions_spec host m.policy cmd fallback
  obtain ⟨_, he', hd', -⟩ := checkWithOptions_spec host saved cmd fallback
  rw [he, he', map_some, map_some, hd, hd', ha.ruleDecision_eq]

/-! ## Examples -/

def plainQuote (word : Text) : Text := '"' :: word ++ ['"']

def readLines (table : List (Text × Text × PrefixRule)) (contents : Text) : Option Policy :=
  (lines contents).foldlM (fun policy line => (table.lookup line).map fun entry =>
    { policy with rulesByProgram := policy.rulesByProgram ++ [entry] }) .empty

def exampleHost : Host := ⟨none, some "/w"⟩

def lsTable : List (Text × Text × PrefixRule) :=
  [("prefix_rule(pattern=[\"rm\"], decision=\"forbidden\")", "rm", { allowRule "rm" [] with decision := .forbidden }),
    (ruleLine plainQuote ["ls"], "ls", allowRule "ls" []),
    (ruleLine plainQuote ["git", "status"], "git", allowRule "git" ["status"])]

/-- A policy that forbids `rm`, before `ls`, `git status` and `ls` again are allowed. -/
def lsStart : ExecPolicyManager where
  contents := (lsTable.take 1).flatMap fun e => e.1 ++ ['\n']
  policy := { Policy.empty with rulesByProgram := (lsTable.take 1).map (·.2) }

lemma readsBack_of_parse {parse : Text → Option Policy} {quote : Text → Text} {m : ExecPolicyManager} {saved : Policy}
    {first : Text} {rest : Command} (hp : parse m.contents = some saved)
    (h : if ruleLine quote (first :: rest) ∈ lines m.contents then (first, allowRule first rest) ∈ saved.rulesByProgram
      else parse (appendLockedLine m.contents (ruleLine quote (first :: rest))) = some (withRule saved first rest)) :
    ReadsBack parse quote m (first :: rest) := by
  intro saved' hs first' rest' hw
  obtain ⟨rfl, rfl⟩ := cons.inj hw
  obtain rfl := some.inj (hp.symm.trans hs)
  exact h

set_option maxRecDepth 4000 in
theorem running_eq_saved_ls : ∃ m saved,
    ExecPolicy.amendAll exampleHost plainQuote lsStart [["ls"], ["git", "status"], ["ls"]] = .ok m ∧
      readLines lsTable m.contents = some saved ∧ ∀ cmd fallback,
        (m.policy.checkWithOptions exampleHost cmd fallback ⟨true⟩).map (·.decision) =
          (saved.checkWithOptions exampleHost cmd fallback ⟨true⟩).map (·.decision) := by
  have hr : ExecPolicy.amendAll exampleHost plainQuote lsStart [["ls"], ["git", "status"], ["ls"]] = .ok _ := rfl
  refine ⟨_, Exists.imp (fun saved hs => ⟨hr, hs⟩) (running_eq_saved exampleHost plainQuote (readLines lsTable)
    lsStart _ [["ls"], ["git", "status"], ["ls"]] rfl ?_ ?_ hr)⟩
  · refine ⟨readsBack_of_parse rfl (by rw [if_neg (by decide)]; rfl), fun m₁ h₁ => ?_⟩
    obtain rfl := Except.ok.inj h₁
    refine ⟨readsBack_of_parse rfl (by rw [if_neg (by decide)]; rfl), fun m₂ h₂ => ?_⟩
    obtain rfl := Except.ok.inj h₂
    exact ⟨readsBack_of_parse rfl (by rw [if_pos (by decide)]; decide), fun _ _ => trivial⟩
  · refine ⟨fun ha => absurd ha (by decide), fun m₁ h₁ => ?_⟩
    obtain rfl := Except.ok.inj h₁
    refine ⟨fun ha => absurd ha (by decide), fun m₂ h₂ => ?_⟩
    obtain rfl := Except.ok.inj h₂
    exact ⟨fun _ => by decide, fun _ _ => trivial⟩

def gitTable : List (Text × Text × PrefixRule) :=
  [("prefix_rule(pattern=[\"git\", \"status\"], decision=\"allow\")", "git", allowRule "git" ["status"]),
    ("prefix_rule(pattern=[\"git\", \"status\", \"-v\"], decision=\"forbidden\")", "git",
      { allowRule "git" ["status", "-v"] with decision := .forbidden }),
    (ruleLine plainQuote ["/bin/git", "status"], "/bin/git", allowRule "/bin/git" ["status"])]

def gitStart : ExecPolicyManager where
  contents := (gitTable.take 2).flatMap fun e => e.1 ++ ['\n']
  policy := { Policy.empty with rulesByProgram := (gitTable.take 2).map (·.2) }

set_option maxRecDepth 4000 in
theorem git_running_ne_saved : readLines gitTable gitStart.contents = some gitStart.policy ∧
    ReadsBack (readLines gitTable) plainQuote gitStart ["/bin/git", "status"] ∧
    ∃ m saved, ExecPolicy.amendAll exampleHost plainQuote gitStart [["/bin/git", "status"]] = .ok m ∧
      readLines gitTable m.contents = some saved ∧
      (m.policy.checkWithOptions exampleHost ["/bin/git", "status", "-v"]
        (fun _ => .prompt) ⟨true⟩).map (·.decision) = some .forbidden ∧
      (saved.checkWithOptions exampleHost ["/bin/git", "status", "-v"] (fun _ => .prompt)
        ⟨true⟩).map (·.decision) = some .allow := by
  have hr : readLines gitTable gitStart.contents = some gitStart.policy := rfl
  have ha : readLines gitTable (appendLockedLine gitStart.contents (ruleLine plainQuote ["/bin/git", "status"])) =
      some (withRule gitStart.policy "/bin/git" ["status"]) := rfl
  refine ⟨hr, readsBack_of_parse hr ?_, _, _, rfl, ha, by decide, by decide⟩
  rw [if_neg (by decide)]
  exact ha

end Codex.ExecPolicy
