import Codex.Text

/-!
# Commands that ask first, and the wrappers around them

The POSIX rules of the classifier. It looks through `sudo` and `env` down to a fixed depth, beyond
which every command counts as dangerous. The parser of shell scripts may be any function.
-/

namespace Codex.DangerousCommand

open List Text

inductive DangerousCommandMatch where
  | forcedRm
  | other
deriving DecidableEq

abbrev Words := List Text

def maxWrapperDepth : Nat := 8

/-- What stands behind the last slash. -/
def executableNameLookupKey (raw : Text) : Option Text :=
  let name := (raw.reverse.takeWhile (· ≠ '/')).reverse
  if name.isEmpty then none else some name

def rmArgsIncludeForceOption (args : Words) : Bool :=
  (args.takeWhile (· ≠ ("--" : Text))).any fun arg => arg = ("--force" : Text) ||
    (stripPrefix "-" arg).any fun flags => !startsWith "-" flags && flags.contains 'f'

/-- An option or an assignment that `env` reads before the command. -/
def envReads (argument : Text) : Bool :=
  argument = ("-i" : Text) || argument = ("--ignore-environment" : Text) ||
    (splitOnce "=" argument).any fun (name, _) => !name.isEmpty && !startsWith "-" name

def envCommand : Words → Words
  | [] => []
  | argument :: rest =>
    if argument = ("--" : Text) then rest
    else if envReads argument then envCommand rest
    else argument :: rest

def trapCommand (args : Words) : Option Words :=
  let args := if args.head? = some ("--" : Text) then args.tail else args
  (args.head?.filter fun action => !startsWith "-" action).map fun action => ["sh", "-c", action]

/-- `inner` classifies what a wrapper runs, one level deeper. -/
def matchForExec (inner : Words → Option DangerousCommandMatch) : Words → Option DangerousCommandMatch
  | [] => none
  | program :: args =>
    let cmd0 := executableNameLookupKey program
    if cmd0 = some ("rm" : Text) ∧ rmArgsIncludeForceOption args then some .forcedRm
    else if cmd0 = some ("sudo" : Text) then inner args
    else if cmd0 = some ("env" : Text) then inner (envCommand args)
    else if cmd0 = some ("trap" : Text) then (trapCommand args).bind inner
    else none

variable (parse : Words → Option (List Words))

/-- The first argument is how many levels are left before the depth exceeds the limit. -/
def matchWithDepth : Nat → Words → Option DangerousCommandMatch
  | 0, _ => some .other
  | left + 1, command =>
    (matchForExec (matchWithDepth left) command).or
      ((parse command).bind fun commands => commands.findSome? (matchWithDepth left))

def dangerousCommandMatch (command : Words) : Option DangerousCommandMatch :=
  matchWithDepth parse (maxWrapperDepth + 1) command

/-- `env` with what it reads before the command, and after a `--`, where there is one. -/
inductive Wrapper where
  | sudo
  | env (before : Words) (after : Option Words)

def Wrapper.words : Wrapper → Words
  | .sudo => ["sudo"]
  | env before after => ("env" : Text) :: before ++ after.elim [] (("--" : Text) :: ·)

/-- Only assignments may follow the `--`. -/
def Wrapper.WellFormed : Wrapper → Prop
  | .sudo => True
  | env before after => (∀ word ∈ before, envReads word) ∧
    ∀ words ∈ after, ∀ word ∈ words, envReads word ∧ '=' ∈ word

def Wrapper.assignmentsAfterDashes : Wrapper → Words
  | env _ (some after) => after
  | _ => []

/-- Without a `--`, `env` reads on into what it wraps. -/
def Wrapper.readsOn : Wrapper → Bool
  | env _ none => true
  | _ => false

def wrapped (wrappers : List Wrapper) (command : Words) : Words :=
  wrappers.foldr (fun wrapper inner => wrapper.words ++ inner) command

lemma matchForExec_mono (hfg : ∀ command, (f command).isSome → (g command).isSome)
    (h : (matchForExec f command).isSome) : (matchForExec g command).isSome := by
  unfold matchForExec at h ⊢
  split
  · simp at h
  rename_i args
  dsimp only at h ⊢
  split_ifs at h ⊢ with hrm hs he ht
  · rfl
  · exact hfg _ h
  · exact hfg _ h
  · obtain ⟨m, hm⟩ := Option.isSome_iff_exists.mp h
    obtain ⟨action, ha, hi⟩ := Option.bind_eq_some_iff.mp hm
    rw [ha]
    exact hfg _ (by simp [hi])
  · simp at h

variable {parse}

/-- One level deeper a flagged command is still flagged: the limit fails closed. -/
lemma matchWithDepth_mono (h : (matchWithDepth parse (left + 1) command).isSome) :
    (matchWithDepth parse left command).isSome := by
  induction left generalizing command with
  | zero => rfl
  | succ left ih => ?_
  rw [matchWithDepth, Option.isSome_or, Bool.or_eq_true] at h ⊢
  obtain h | h := h
  · exact .inl (matchForExec_mono (fun _ => ih) h)
  right
  obtain ⟨m, hm⟩ := Option.isSome_iff_exists.mp h
  obtain ⟨_, hp, hf⟩ := Option.bind_eq_some_iff.mp hm
  obtain ⟨inner, hi, hma⟩ := exists_of_findSome?_eq_some hf
  rw [hp]
  simp only [Option.bind_some, findSome?_isSome_iff]
  exact ⟨inner, hi, ih (by simp [hma])⟩

lemma envCommand_append (h : ∀ word ∈ pre, envReads word) (rest : Words) :
    envCommand (pre ++ rest) = envCommand rest := by
  induction pre with
  | nil => rfl
  | cons word pre ih => ?_
  have hw := h word mem_cons_self
  have hne : word ≠ ("--" : Text) := by
    rintro rfl
    cases hw
  rw [cons_append, envCommand, if_neg hne, if_pos hw, ih fun word hin => h word (mem_cons_of_mem _ hin)]

/-- The words behind a wrapper are what the classifier looks at next. -/
lemma Wrapper.WellFormed.matchWithDepth_words {wrapper : Wrapper} {inner : Words}
    (hw : wrapper.WellFormed) (hd : wrapper.assignmentsAfterDashes = [])
    (hf : wrapper.readsOn → ∀ word ∈ inner.head?, word ≠ ("--" : Text) ∧ ¬envReads word)
    (h : (matchWithDepth parse left inner).isSome) :
    (matchWithDepth parse (left + 1) (wrapper.words ++ inner)).isSome := by
  rw [matchWithDepth, Option.isSome_or, Bool.or_eq_true]
  left
  cases wrapper with
  | «sudo» => exact h
  | env pre after => ?_
  suffices he : envCommand (pre ++ after.elim [] (("--" : Text) :: ·) ++ inner) = inner by
    rw [← he] at h
    exact h
  rw [append_assoc, envCommand_append hw.1]
  rcases after with _ | after
  · rcases inner with _ | ⟨word, rest⟩
    · rfl
    obtain ⟨hne, hr⟩ := hf rfl word rfl
    rw [Option.elim_none, nil_append, envCommand, if_neg hne, if_neg hr]
  obtain rfl : after = [] := hd
  rw [Option.elim_some, singleton_append, envCommand, if_pos rfl]

/-- Whatever the last wrapper before the limit holds is flagged. -/
lemma Wrapper.matchWithDepth_limit (wrapper : Wrapper) (inner : Words) :
    (matchWithDepth parse 1 (wrapper.words ++ inner)).isSome := by
  rw [matchWithDepth, Option.isSome_or, Bool.or_eq_true]
  left
  cases wrapper <;> rfl

/-- No wrapper starts with a word that `env` reads. -/
lemma head_wrapped {wrappers : List Wrapper} (hne : wrappers ≠ []) (command : Words) :
    ∀ word ∈ (wrapped wrappers command).head?, word ≠ ("--" : Text) ∧ ¬envReads word := by
  obtain ⟨wrapper, rest, rfl⟩ := exists_cons_of_ne_nil hne
  obtain _ | _ := wrapper <;> rintro word ⟨⟩ <;> decide

lemma matchWithDepth_wrapped {wrappers : List Wrapper} {command : Words} (hw : ∀ wrapper ∈ wrappers, wrapper.WellFormed)
    (hdashes : ∀ wrapper ∈ wrappers.take (left - 1), wrapper.assignmentsAfterDashes = [])
    (hfirst : wrappers.length < left → wrappers.getLast?.any Wrapper.readsOn →
      ∀ word ∈ command.head?, word ≠ ("--" : Text) ∧ ¬envReads word)
    (h : (matchWithDepth parse left command).isSome) :
      (matchWithDepth parse left (wrapped wrappers command)).isSome := by
  induction wrappers generalizing left with
  | nil => exact h
  | cons wrapper wrappers ih => ?_
  obtain _ | _ | left := left
  · rfl
  · exact wrapper.matchWithDepth_limit _
  -- the wrapper is one of those the classifier looks through
  rw [Nat.add_sub_cancel, take_succ_cons, forall_mem_cons] at hdashes
  refine (hw _ mem_cons_self).matchWithDepth_words hdashes.1 (fun hr => ?_) ?_
  · rcases eq_or_ne wrappers [] with rfl | hne
    · exact hfirst (by simp) (by simpa using hr)
    · exact head_wrapped hne command
  · refine ih (fun w hin => hw w (mem_cons_of_mem _ hin)) hdashes.2 (fun hl hr => ?_) (matchWithDepth_mono h)
    refine hfirst (Nat.succ_lt_succ hl) ?_
    rwa [getLast?_cons_of_ne_nil]
    rintro rfl
    simp at hr

/-- A wrapped command is flagged when none of the wrappers down to the limit has an assignment behind its `--`, and
the command is not read on into by an `env` above the limit. -/
theorem wrapped_flagged (wrappers : List Wrapper) (command : Words) (hw : ∀ wrapper ∈ wrappers, wrapper.WellFormed)
    (hdashes : ∀ wrapper ∈ wrappers.take maxWrapperDepth, wrapper.assignmentsAfterDashes = [])
    (hfirst : wrappers.length ≤ maxWrapperDepth → wrappers.getLast?.any Wrapper.readsOn →
      ∀ word ∈ command.head?, word ≠ ("--" : Text) ∧ ¬envReads word)
    (h : (dangerousCommandMatch parse command).isSome) :
    (dangerousCommandMatch parse (wrapped wrappers command)).isSome :=
  matchWithDepth_wrapped hw hdashes (fun hl => hfirst (Nat.le_of_lt_succ hl)) h

theorem wrapped_flagged_of_sudo_env : (dangerousCommandMatch (fun _ => none)
    (wrapped [.sudo, .env ["-i", "A=B"] none] ["rm", "-rf", "/"])).isSome :=
  wrapped_flagged _ _ (by simp [Wrapper.WellFormed]; decide) (by decide) (by decide) (by decide)

/-- An assignment behind the `--` stands in the command's place. -/
theorem wrapped_hidden : dangerousCommandMatch (fun _ => none) ["rm", "-rf", "/"] = some .forcedRm ∧
    Wrapper.WellFormed (.env [] (some ["A=B"])) ∧
    dangerousCommandMatch (fun _ => none) (wrapped [.env [] (some ["A=B"])] ["rm", "-rf", "/"]) =
      none := by
  refine ⟨by decide, ⟨by decide, by decide⟩, by decide⟩

end Codex.DangerousCommand
