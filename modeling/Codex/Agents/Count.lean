import Codex.Agents.Registry
import Codex.HashMap.Laws
import Codex.Run

/-! # The count of spawned agents is exact unless a commit takes the place of a registered agent -/

namespace Codex.Agents

open Codex Codex.HashMap List Option

variable {ThreadId Snapshot : Type} [DecidableEq ThreadId] {display : ThreadId → Text}

def AgentMetadata.counted (metadata : AgentMetadata ThreadId) : Bool := metadata.agentId.isSome && !metadata.isRoot

def AgentMetadata.weight (metadata : AgentMetadata ThreadId) : Nat := if metadata.counted then 1 else 0

namespace ActiveAgents

section

variable (agents : ActiveAgents ThreadId Snapshot)

def liveAgents : List (AgentMetadata ThreadId) :=
  agents.agentTree.values.filter (·.counted)

def registered : Nat := agents.agentTree.total AgentMetadata.weight

/-- The thread is registered under the key. -/
def At (threadId : ThreadId) (key : Text) : Prop :=
  ∃ agent, agents.threadPaths.get threadId = some agent ∧ agent.path = key

/-- The entry of the key is the agent of the thread. -/
def Holds (key : Text) (threadId : ThreadId) : Prop :=
  ∃ metadata, agents.agentTree.get key = some metadata ∧ metadata.agentId = some threadId

end

structure Consistent (agents : ActiveAgents ThreadId Snapshot) : Prop where
  inverse : ∀ threadId key, agents.At threadId key ↔ agents.Holds key threadId
  rooted : ∀ key metadata, agents.agentTree.get key = some metadata →
    (metadata.isRoot = true ↔ key = AgentPath.root.text)

end ActiveAgents

namespace System

section

variable (s : System ThreadId Snapshot)

def liveReservations : Nat := s.reservations.entries.length

/-- An entry without an agent is at a reserved path. -/
def Reserved : Prop :=
  ∀ key metadata, s.agents.agentTree.get key = some metadata → metadata.agentId = none →
    ∃ reservation path, s.reservations.get reservation = some (some path) ∧ path.text = key

def Exact : Prop :=
  s.totalCount = s.agents.registered + s.liveReservations + s.calls.count .decrement

/-- A call that is about to count saw room. -/
def Bounded : Prop :=
  ∀ (maxThreads : Nat) (current : Int), .increment maxThreads current ∈ s.calls → current < maxThreads

end

structure Sound (s : System ThreadId Snapshot) : Prop where
  consistent : s.agents.Consistent
  reserved : s.Reserved
  exact : s.Exact
  bounded : s.Bounded

/-- A commit, or a root, in the place of a registered agent: of its thread or at its key. -/
def replaces (display : ThreadId → Text) (s : System ThreadId Snapshot) : Event ThreadId Snapshot → Prop
  | .commit _ metadata _ => ∃ threadId, metadata.agentId = some threadId ∧
      ((∃ key, s.agents.At threadId key ∧ key ≠ AgentPath.root.text) ∨
        ∃ other, s.agents.Holds (ActiveAgents.registrationKey display metadata threadId) other)
  | .registerRootThread threadId => s.agents.agentTree.get AgentPath.root.text = none ∧ ∃ key, s.agents.At threadId key
  | _ => False

end System

/-! ## What the locked sections do -/

omit [DecidableEq ThreadId] in
lemma length_liveAgents (agents : ActiveAgents ThreadId Snapshot) : agents.liveAgents.length = agents.registered := by
  unfold ActiveAgents.liveAgents ActiveAgents.registered total
  induction agents.agentTree.values with
  | nil => rfl
  | cons metadata rest ih => ?_
  rw [map_cons, sum_cons, ← ih, AgentMetadata.weight]
  cases h : metadata.counted
  · simp [h]
  · simp [h, Nat.add_comm]

lemma total_one (m : HashMap (id : Nat → Nat) V) : m.total (fun _ => 1) = m.entries.length := by
  simp [total, values, Function.comp_def]

section

variable {agents : ActiveAgents ThreadId Snapshot}

namespace ActiveAgents

variable {threadId : ThreadId} {metadata : AgentMetadata ThreadId} {key : Text}

lemma At.unique (h : agents.At threadId key) (h' : agents.At threadId key') : key = key' := by
  obtain ⟨_, hg, rfl⟩ := h
  obtain ⟨_, hg', rfl⟩ := h'
  rw [some.inj (hg.symm.trans hg')]

omit [DecidableEq ThreadId] in
lemma Holds.unique {other : ThreadId} (h : agents.Holds key threadId) (h' : agents.Holds key other) :
    threadId = other := by
  obtain ⟨_, hg, hid⟩ := h
  obtain ⟨_, hg', hid'⟩ := h'
  rw [some.inj (hg.symm.trans hg'), hid'] at hid
  exact (some.inj hid).symm

omit [DecidableEq ThreadId] in
lemma registered_insert (key : Text) (metadata : AgentMetadata ThreadId) (paths used) :
    (⟨agents.agentTree.insert key metadata, paths, used⟩ : ActiveAgents ThreadId Snapshot).registered +
      (agents.agentTree.get key).elim 0 AgentMetadata.weight = agents.registered + metadata.weight :=
  total_insert ..

omit [DecidableEq ThreadId] in
lemma registered_remove (key : Text) (paths used) :
    (⟨agents.agentTree.remove key, paths, used⟩ : ActiveAgents ThreadId Snapshot).registered +
      (agents.agentTree.get key).elim 0 AgentMetadata.weight = agents.registered :=
  total_remove ..

lemma Consistent.remove (h : agents.Consistent) (hat : agents.At threadId key) (used : List Text) :
    Consistent ⟨agents.agentTree.remove key, agents.threadPaths.remove threadId, used⟩ := by
  constructor
  · intro other key'
    unfold At Holds
    simp only [get_remove, id]
    by_cases ht : other = threadId
    · subst ht
      simp only [if_true]
      constructor
      · rintro ⟨_, hn, -⟩
        cases hn
      rintro ⟨metadata, hg, hid⟩
      split at hg
      · cases hg
      rename_i hne
      have hh : agents.Holds key' other := ⟨metadata, hg, hid⟩
      exact absurd (((h.inverse other key').mpr hh).unique hat) hne
    rw [if_neg ht]
    by_cases hkey : key' = key
    · subst hkey
      simp only [if_true]
      constructor
      · intro ho
        have := ((h.inverse other key').mp ho).unique ((h.inverse threadId key').mp hat)
        exact absurd this ht
      · rintro ⟨_, hn, -⟩
        cases hn
    · rw [if_neg hkey]
      exact h.inverse other key'
  intro key' metadata hg
  rw [get_remove] at hg
  split at hg
  · cases hg
  · exact h.rooted key' metadata hg

lemma Consistent.insert (h : agents.Consistent) (hid : metadata.agentId = some threadId) (hp : agent.path = key)
    (hro : metadata.isRoot ↔ key = AgentPath.root.text)
    (ht : agents.threadPaths.get threadId = none) (hkey : ∀ other, ¬ agents.Holds key other)
    (used : List Text) :
    Consistent ⟨agents.agentTree.insert key metadata, agents.threadPaths.insert threadId agent, used⟩ := by
  constructor
  · intro other key'
    unfold At Holds
    simp only [get_insert, id]
    by_cases ho : other = threadId
    · subst ho
      rw [if_pos rfl]
      by_cases hk' : key' = key
      · subst hk'
        rw [if_pos rfl]
        exact ⟨fun _ => ⟨metadata, rfl, hid⟩, fun _ => ⟨agent, rfl, hp⟩⟩
      rw [if_neg hk']
      constructor
      · rintro ⟨_, ha, rfl⟩
        cases ha
        exact absurd hp hk'
      intro hh
      obtain ⟨found, hf, -⟩ := (h.inverse other key').mpr hh
      rw [ht] at hf
      cases hf
    rw [if_neg ho]
    by_cases hk' : key' = key
    · subst hk'
      rw [if_pos rfl]
      constructor
      · intro hat
        exact absurd ((h.inverse other key').mp hat) (hkey other)
      rintro ⟨found, hf, hfi⟩
      cases hf
      exact absurd (some.inj (hfi.symm.trans hid)) ho
    · rw [if_neg hk']
      exact h.inverse other key'
  intro key' found hg
  rw [get_insert] at hg
  split at hg
  · rename_i heq
    cases hg
    rw [show key' = key from heq]
    exact hro
  · exact h.rooted key' found hg

lemma Consistent.of_tree (h : agents.Consistent)
    (hs : ∀ key threadId, (∃ metadata, tree.get key = some metadata ∧ metadata.agentId = some threadId) ↔
      agents.Holds key threadId)
    (hr : ∀ key metadata, tree.get key = some metadata → (metadata.isRoot ↔ key = AgentPath.root.text)) :
    Consistent { agents with agentTree := tree } :=
  ⟨fun threadId key => (h.inverse threadId key).trans (hs key threadId).symm, hr⟩

lemma Consistent.congr {agents' : ActiveAgents ThreadId Snapshot} (h : agents.Consistent)
    (hp : ∀ threadId, agents'.threadPaths.get threadId = agents.threadPaths.get threadId)
    (ht : agents'.agentTree = agents.agentTree) : agents'.Consistent := by
  constructor
  · intro threadId key
    unfold At Holds
    rw [hp, ht]
    exact h.inverse threadId key
  intro key metadata
  rw [ht]
  exact h.rooted key metadata

omit [DecidableEq ThreadId] in
lemma weight_of_root (h : metadata.isRoot = true) : metadata.weight = 0 := by
  simp [AgentMetadata.weight, AgentMetadata.counted, h]

omit [DecidableEq ThreadId] in
lemma weight_of_none (h : metadata.agentId = none) : metadata.weight = 0 := by
  simp [AgentMetadata.weight, AgentMetadata.counted, h]

omit [DecidableEq ThreadId] in
lemma weight_of_not_held (h : ∀ other, ¬ agents.Holds key other) :
    (agents.agentTree.get key).elim 0 AgentMetadata.weight = 0 := by
  rcases hg : agents.agentTree.get key with _ | metadata
  · rfl
  apply weight_of_none
  cases hid : metadata.agentId with
  | none => rfl
  | some other => exact absurd ⟨metadata, hg, hid⟩ (h other)

omit [DecidableEq ThreadId] in
lemma registrationKey_ne_root {metadata : AgentMetadata ThreadId} (h : metadata.isRoot = false) (threadId : ThreadId) :
    registrationKey display metadata threadId ≠ AgentPath.root.text := by
  unfold registrationKey
  rcases hp : metadata.agentPath with _ | path
  · intro heq
    exact absurd (cons.inj heq).1 (by decide)
  rw [AgentMetadata.isRoot, hp] at h
  exact beq_eq_false_iff_ne.mp h

structure Registers (agents agents' : ActiveAgents ThreadId Snapshot) (key : Text) : Prop where
  consistent : agents'.Consistent
  registered : agents'.registered = agents.registered + 1
  entries : ∀ other found, agents'.agentTree.get other = some found → found.agentId = none →
    other ≠ key ∧ agents.agentTree.get other = some found

omit [DecidableEq ThreadId] in
lemma bind_agentId_of_not_held (h : ∀ other, ¬ agents.Holds key other) :
    (agents.agentTree.get key).bind (·.agentId) = none := by
  rw [bind_eq_none_iff]
  intro found hf
  cases hid : found.agentId with
  | none => rfl
  | some other => exact absurd ⟨found, hf, hid⟩ (h other)

section Register

variable (h : agents.Consistent) (snapshot : Option Snapshot) (hid : metadata.agentId = some threadId)
  (hro : metadata.isRoot = false)
  (hkey : ∀ other, ¬ agents.Holds (registrationKey display metadata threadId) other)

include h hid hro hkey

lemma registerSpawnedThread_of_free (ht : agents.threadPaths.get threadId = none) :
    Registers agents (agents.registerSpawnedThread display metadata snapshot)
      (registrationKey display metadata threadId) := by
  have hfr := bind_agentId_of_not_held hkey
  have hw : metadata.weight = 1 := by
    simp [AgentMetadata.weight, AgentMetadata.counted, hid, hro]
  simp only [registerSpawnedThread, hid, ht, hfr]
  have hp : (RegisteredAgent.mk (registrationKey display metadata threadId) snapshot).path =
    registrationKey display metadata threadId := rfl
  refine ⟨h.insert hid hp ?_ ht hkey _, ?_, ?_⟩
  · rw [hro]
    exact ⟨fun hf => absurd hf (by decide), fun heq => absurd heq (registrationKey_ne_root hro threadId)⟩
  · have hi := @registered_insert _ _ agents (registrationKey display metadata threadId) metadata
    rw [weight_of_not_held hkey, hw] at hi
    exact hi _ _
  · intro key found hg hn
    rw [get_insert] at hg
    split at hg
    · cases hg
      rw [hid] at hn
      cases hn
    · rename_i hne
      exact ⟨hne, hg⟩

lemma registerSpawnedThread_of_root (hat : agents.At threadId AgentPath.root.text) :
    Registers agents (agents.registerSpawnedThread display metadata snapshot)
      (registrationKey display metadata threadId) := by
  have hne := @registrationKey_ne_root _ display _ hro threadId
  obtain ⟨previous, hget, hp⟩ := hat
  obtain ⟨_, hrg, _⟩ := (h.inverse threadId _).mp ⟨previous, hget, hp⟩
  -- The same as registering the thread after the root has left.
  let without : ActiveAgents ThreadId Snapshot :=
    ⟨agents.agentTree.remove AgentPath.root.text, agents.threadPaths.remove threadId, agents.usedAgentNicknames⟩
  have hw : without.Consistent := h.remove ⟨previous, hget, hp⟩ _
  have hr : without.registered = agents.registered := by
    have := @registered_remove _ _ agents AgentPath.root.text (agents.threadPaths.remove threadId)
      agents.usedAgentNicknames
    rw [hrg] at this
    have hz := weight_of_root ((h.rooted _ _ hrg).mpr rfl)
    simp only [elim_some, hz] at this
    exact this
  have hg : without.threadPaths.get threadId = none := by
    rw [get_remove, if_pos rfl]
  have hfr : ∀ other, ¬ without.Holds (registrationKey display metadata threadId) other := by
    rintro other ⟨found, hf, hfi⟩
    have hf : (agents.agentTree.remove AgentPath.root.text).get (registrationKey display metadata threadId) =
      some found := hf
    simp only [get_remove, id, if_neg hne] at hf
    exact hkey other ⟨found, hf, hfi⟩
  have hbw := bind_agentId_of_not_held hfr
  have hb : ((agents.agentTree.remove AgentPath.root.text).get (registrationKey display metadata threadId)).bind
      (·.agentId) = none := hbw
  have ht : (agents.registerSpawnedThread display metadata snapshot).agentTree =
      (without.registerSpawnedThread display metadata snapshot).agentTree := by
    simp only [registerSpawnedThread, hid, hget, hg, hp, ne_eq, hne.symm, not_false_eq_true]
    rfl
  obtain ⟨hc, hco, he⟩ :=
    registerSpawnedThread_of_free hw snapshot hid hro hfr hg
  refine ⟨hc.congr ?_ ht, ?_, ?_⟩
  · intro other
    simp only [registerSpawnedThread, hid, hget, hg, hp, ne_eq, hne.symm, not_false_eq_true, if_true, hb, hbw]
    rw [get_insert, get_insert, get_remove]
    split <;> rfl
  · unfold registered at hco hr ⊢
    rw [ht, hco, hr]
  · intro key found hf hn
    rw [ht] at hf
    obtain ⟨ho, hin⟩ := he key found hf hn
    rw [get_remove] at hin
    split at hin
    · cases hin
    · exact ⟨ho, hin⟩

lemma registerSpawnedThread_spec (ht : ∀ key, agents.At threadId key → key = AgentPath.root.text) :
    Registers agents (agents.registerSpawnedThread display metadata snapshot)
      (registrationKey display metadata threadId) := by
  rcases hg : agents.threadPaths.get threadId with _ | agent
  · exact registerSpawnedThread_of_free h snapshot hid hro hkey hg
  have hat : agents.At threadId agent.path := ⟨agent, hg, rfl⟩
  rw [ht _ hat] at hat
  exact registerSpawnedThread_of_root h snapshot hid hro hkey hat

end Register

lemma registerRootThread_spec (h : agents.Consistent) (threadId : ThreadId)
    (hfr : agents.agentTree.get AgentPath.root.text = none → ∀ key, ¬ agents.At threadId key) :
    (agents.registerRootThread threadId).Consistent ∧
      (agents.registerRootThread threadId).registered = agents.registered ∧
      ∀ key found, (agents.registerRootThread threadId).agentTree.get key = some found →
        found.agentId = none → agents.agentTree.get key = some found := by
  unfold registerRootThread
  rcases hg : agents.agentTree.get AgentPath.root.text with _ | metadata
  · have ht : agents.threadPaths.get threadId = none := by
      cases hp : agents.threadPaths.get threadId with
      | none => rfl
      | some agent => exact absurd ⟨agent, hp, rfl⟩ (hfr hg agent.path)
    have hkey : ∀ other, ¬ agents.Holds AgentPath.root.text other := by
      rintro other ⟨found, hf, -⟩
      rw [hg] at hf
      cases hf
    have hro : (AgentMetadata.mk (some threadId) (some AgentPath.root) none none).isRoot := rfl
    refine ⟨?_, ?_, ?_⟩
    · have hpa : (RegisteredAgent.mk AgentPath.root.text (none : Option Snapshot)).path = AgentPath.root.text := rfl
      exact h.insert rfl hpa ⟨fun _ => rfl, fun _ => hro⟩ ht hkey _
    · have := @registered_insert _ _ agents AgentPath.root.text ⟨some threadId, some AgentPath.root, none, none⟩
        (agents.threadPaths.insert threadId ⟨AgentPath.root.text, none⟩) agents.usedAgentNicknames
      rw [weight_of_not_held hkey, weight_of_root hro] at this
      exact this
    · intro key found hf hn
      rw [get_insert] at hf
      split at hf
      · cases hf
        cases hn
      · exact hf
  rcases hid : metadata.agentId with _ | rootThreadId
  · simp only [hid]
    exact ⟨h, trivial, fun _ _ hf _ => hf⟩
  simp only [hid]
  refine ⟨⟨?_, h.rooted⟩, rfl, fun _ _ hf _ => hf⟩
  intro other key
  have hat : agents.At rootThreadId AgentPath.root.text := (h.inverse _ _).mpr ⟨metadata, hg, hid⟩
  refine Iff.trans ?_ (h.inverse other key)
  unfold At
  simp only [get_insert]
  split
  · rename_i heq
    subst heq
    constructor
    · rintro ⟨_, hs, rfl⟩
      cases hs
      exact hat
    · intro ho
      exact ⟨_, rfl, hat.unique ho⟩
  · rfl

lemma releaseSpawnedThread_spec (h : agents.Consistent) (threadId : ThreadId) :
    (agents.releaseSpawnedThread threadId).1.Consistent ∧
      (agents.releaseSpawnedThread threadId).1.registered + (agents.releaseSpawnedThread threadId).2.toNat =
        agents.registered ∧
      ∀ key found, (agents.releaseSpawnedThread threadId).1.agentTree.get key = some found →
        agents.agentTree.get key = some found := by
  unfold releaseSpawnedThread
  rcases hg : agents.threadPaths.get threadId with _ | agent
  · exact ⟨h, rfl, fun _ _ hf => hf⟩
  have hat : agents.At threadId agent.path := ⟨agent, hg, rfl⟩
  obtain ⟨metadata, ht, hid⟩ := (h.inverse _ _).mp hat
  simp only [ht]
  refine ⟨h.remove hat _, ?_, ?_⟩
  · have := @registered_remove _ _ agents agent.path (agents.threadPaths.remove threadId) agents.usedAgentNicknames
    rw [ht] at this
    have hw : (Option.some metadata).elim 0 AgentMetadata.weight = (!metadata.isRoot).toNat := by
      cases hro : metadata.isRoot <;> simp [AgentMetadata.weight, AgentMetadata.counted, hid, hro]
    rw [hw] at this
    exact this
  intro key found hf
  rw [get_remove] at hf
  split at hf
  · cases hf
  · exact hf

lemma reserveAgentPath_spec (h : agents.Consistent) (hr : agents.reserveAgentPath path = some reserved) :
    reserved.Consistent ∧ reserved.registered = agents.registered ∧
      ∀ key found, reserved.agentTree.get key = some found → key = path.text ∨ agents.agentTree.get key =
        some found := by
  unfold reserveAgentPath at hr
  cases hg : agents.agentTree.get path.text with
  | some _ => simp [hg] at hr
  | none => ?_
  simp only [hg, Option.some.injEq] at hr
  subst hr
  have hkey : ∀ other, ¬ agents.Holds path.text other := by
    rintro other ⟨found, hf, -⟩
    rw [hg] at hf
    cases hf
  refine ⟨h.of_tree ?_ ?_, ?_, ?_⟩
  · intro key threadId
    simp only [get_insert]
    split
    · rename_i heq
      subst heq
      constructor
      · rintro ⟨_, hs, hid⟩
        cases hs
        cases hid
      · exact fun hh => absurd hh (hkey threadId)
    · rfl
  · intro key metadata hf
    rw [get_insert] at hf
    split at hf
    · rename_i heq
      cases hf
      rw [show key = path.text from heq]
      exact beq_iff_eq
    · exact h.rooted key metadata hf
  · have := @registered_insert _ _ agents path.text { agentPath := some path } agents.threadPaths
      agents.usedAgentNicknames
    rw [weight_of_not_held hkey, weight_of_none rfl] at this
    exact this
  · intro key found hf
    rw [get_insert] at hf
    split at hf
    · rename_i heq
      exact .inl heq
    · exact .inr hf

lemma releaseReservedAgentPath_spec (h : agents.Consistent) (path : AgentPath) :
    (agents.releaseReservedAgentPath path).Consistent ∧
      (agents.releaseReservedAgentPath path).registered = agents.registered ∧
      ∀ key found, (agents.releaseReservedAgentPath path).agentTree.get key = some found → found.agentId = none →
        key ≠ path.text ∧ agents.agentTree.get key = some found := by
  unfold releaseReservedAgentPath
  rcases hg : agents.agentTree.get path.text with _ | metadata
  · refine ⟨h, rfl, fun key found hf _ => ⟨?_, hf⟩⟩
    rintro rfl
    rw [hg] at hf
    cases hf
  cases hid : metadata.agentId with
  | some threadId =>
    simp only [hid, isNone_some, Bool.false_eq_true, if_false]
    refine ⟨h, trivial, fun key found hf hn => ⟨?_, hf⟩⟩
    rintro rfl
    rw [some.inj (hf.symm.trans hg), hid] at hn
    cases hn
  | none => ?_
  simp only [hid, isNone_none, if_true]
  have hkey : ∀ other, ¬ agents.Holds path.text other := by
    rintro other ⟨found, hf, hfi⟩
    rw [some.inj (hf.symm.trans hg), hid] at hfi
    cases hfi
  refine ⟨h.of_tree ?_ ?_, ?_, ?_⟩
  · intro key threadId
    simp only [get_remove]
    split
    · rename_i heq
      subst heq
      constructor
      · rintro ⟨_, hs, -⟩
        cases hs
      · exact fun hh => absurd hh (hkey threadId)
    · rfl
  · intro key found hf
    rw [get_remove] at hf
    split at hf
    · cases hf
    · exact h.rooted key found hf
  · have := @registered_remove _ _ agents path.text agents.threadPaths agents.usedAgentNicknames
    rw [weight_of_not_held hkey] at this
    exact this
  · intro key found hf _
    rw [get_remove] at hf
    split at hf
    · cases hf
    · rename_i hne
      exact ⟨hne, hf⟩

end ActiveAgents

end

/-! ## Steps and runs -/

namespace System

variable {reservation : Nat} {m : HashMap (id : Nat → Nat) (Option AgentPath)}

lemma length_reserve (h : m.get reservation = none) (reserved : Option AgentPath) :
    (m.insert reservation reserved).entries.length = m.entries.length + 1 := by
  have := total_insert (fun _ => 1) m reservation reserved
  rw [h, total_one, total_one] at this
  exact this

lemma length_update (h : m.get reservation = some before)
    (reserved : Option AgentPath) : (m.insert reservation reserved).entries.length = m.entries.length := by
  have := total_insert (fun _ => 1) m reservation reserved
  rw [h, total_one, total_one] at this
  exact Nat.add_right_cancel this

variable {reserved : Option AgentPath} {c : Int} {calls : List Call}

lemma length_unreserve (h : m.get reservation = some reserved) :
    (m.remove reservation).entries.length + 1 = m.entries.length := by
  have := total_remove (fun _ => 1) m reservation
  rw [h, total_one, total_one] at this
  exact this

variable {s s' : System ThreadId Snapshot}

lemma count_resume (maxThreads : Nat) (current : Int) (calls : List Call) :
    (resume maxThreads current calls).count .decrement = calls.count .decrement := by
  unfold resume
  split
  · rfl
  · exact count_cons_of_ne Call.noConfusion

lemma mem_resume {maxThreads m : Nat} (h : .increment m c ∈ resume maxThreads current calls) :
    (m = maxThreads ∧ c = current ∧ current < (maxThreads : Int)) ∨ .increment m c ∈ calls := by
  unfold resume at h
  split at h
  · exact .inr h
  rcases mem_cons.mp h with heq | h
  · obtain ⟨rfl, rfl⟩ := Call.increment.inj heq
    exact .inl ⟨rfl, rfl, by omega⟩
  · exact .inr h

omit [DecidableEq ThreadId] in
lemma Bounded.resume (h : s.Bounded) (maxThreads : Nat) (hc : ∀ call ∈ calls, call ∈ s.calls) {m : Nat}
    (hm : .increment m c ∈ System.resume maxThreads s.totalCount calls) : c < (m : Int) := by
  rcases mem_resume hm with ⟨rfl, rfl, hlt⟩ | hm
  · exact hlt
  · exact h m c (hc _ hm)

omit [DecidableEq ThreadId] in
lemma Bounded.decrement (h : s.Bounded) (m : Nat) (c : Int) (hm : .increment m c ∈ Call.decrement :: s.calls) :
    c < m := by
  rcases mem_cons.mp hm with heq | hm
  · cases heq
  · exact h m c hm

omit [DecidableEq ThreadId] in
lemma Reserved.reserve (h : s.Reserved) (hf : s.reservations.get reservation = none) {key : Text}
    {metadata : AgentMetadata ThreadId} (hg : s.agents.agentTree.get key = some metadata)
    (hn : metadata.agentId = none) : ∃ other path,
      (s.reservations.insert reservation none).get other = some (some path) ∧ path.text = key := by
  obtain ⟨other, path, ho, ht⟩ := h key metadata hg hn
  refine ⟨other, path, ?_, ht⟩
  rw [get_insert, if_neg]
  · exact ho
  · rintro heq
    rw [show other = reservation from heq, hf] at ho
    cases ho

omit [DecidableEq ThreadId] in
lemma Reserved.unreserve (h : s.Reserved) (hr : s.reservations.get reservation = some reserved)
    {key : Text} {metadata : AgentMetadata ThreadId} (hg : s.agents.agentTree.get key = some metadata)
    (hn : metadata.agentId = none) (hkey : ∀ path, reserved = some path → key ≠ path.text) : ∃ other path,
      (s.reservations.remove reservation).get other = some (some path) ∧ path.text = key := by
  obtain ⟨other, path, ho, ht⟩ := h key metadata hg hn
  refine ⟨other, path, ?_, ht⟩
  rw [get_remove, if_neg]
  · exact ho
  · rintro heq
    rw [show other = reservation from heq, hr] at ho
    exact hkey path (some.inj ho) ht.symm

lemma Sound.initial : Sound ({} : System ThreadId Snapshot) := by
  refine ⟨⟨?_, ?_⟩, ?_, rfl, ?_⟩
  · intro threadId key
    constructor
    all_goals
      rintro ⟨_, hn, -⟩
      cases hn
  · intro key metadata hn
    cases hn
  · intro key metadata hn
    cases hn
  · intro maxThreads current hm
    cases hm

section Step

variable (h : s.Sound)

include h

lemma Sound.totalCount_eq :
    s.totalCount = s.agents.registered + s.reservations.entries.length + s.calls.count .decrement :=
  h.exact

lemma Sound.compareExchangeWeak
    (hs : s.step display (.compareExchangeWeak maxThreads current reservation fails) = some s') : s'.Sound := by
  have hexa := h.totalCount_eq
  simp only [System.step] at hs
  split at hs
  · rename_i hen
    have hera : ∀ call ∈ s.calls.erase (.increment maxThreads current), call ∈ s.calls :=
      fun _ hca => mem_of_mem_erase hca
    have hcou : (s.calls.erase (.increment maxThreads current)).count .decrement = s.calls.count .decrement :=
      count_erase_of_ne Call.noConfusion
    split at hs
    · cases hs
      refine ⟨h.consistent, fun _ _ hg hn => h.reserved.reserve hen.2 hg hn, ?_, ?_⟩
      · have hl := length_reserve hen.2 none
        simp only [Exact, liveReservations]
        omega
      · exact fun m c hm => h.bounded m c (hera _ hm)
    cases hs
    refine ⟨h.consistent, h.reserved, ?_, fun m c hm => h.bounded.resume maxThreads hera hm⟩
    simp only [Exact, count_resume, hcou]
    exact hexa
  · cases hs

lemma Sound.reserveAgentPath
    (hs : s.step display (.reserveAgentPath reservation path) = some s') : s'.Sound := by
  have hexa := h.totalCount_eq
  simp only [System.step] at hs
  split at hs
  · rename_i hr
    split at hs
    · rename_i ha
      cases hs
      obtain ⟨hc, hre, he⟩ := ActiveAgents.reserveAgentPath_spec h.consistent ha
      refine ⟨hc, ?_, ?_, h.bounded⟩
      · intro key metadata hg hn
        rcases he key metadata hg with rfl | hin
        · exact ⟨reservation, path, by simp only [get_insert, if_true], rfl⟩
        obtain ⟨other, path', ho, hte⟩ := h.reserved key metadata hin hn
        refine ⟨other, path', ?_, hte⟩
        rw [get_insert, if_neg]
        · exact ho
        · intro heq
          rw [show other = reservation from heq, hr] at ho
          cases ho
      have hl := length_update hr (some path)
      simp only [Exact, liveReservations]
      omega
    · cases hs
      exact h
  · cases hs

lemma Sound.commit (hrep : ¬ replaces display s (.commit reservation metadata snapshot))
    (hs : s.step display (.commit reservation metadata snapshot) = some s') : s'.Sound := by
  have hexa := h.totalCount_eq
  simp only [System.step] at hs
  split at hs
  · rename_i reserved hr
    split at hs
    · rename_i hco
      cases hs
      simp only [commits, Bool.and_eq_true, Bool.not_eq_true', Bool.or_eq_true, beq_iff_eq] at hco
      obtain ⟨⟨hso, hro⟩, hp⟩ := hco
      obtain ⟨threadId, hid⟩ := isSome_iff_exists.mp hso
      have ht : ∀ key, s.agents.At threadId key → key = AgentPath.root.text := by
        intro key hat
        by_contra hne
        exact hrep ⟨threadId, hid, .inl ⟨key, hat, hne⟩⟩
      have hkey : ∀ other, ¬ s.agents.Holds (ActiveAgents.registrationKey display metadata threadId) other :=
        fun other hh => hrep ⟨threadId, hid, .inr ⟨other, hh⟩⟩
      obtain ⟨hc, hre, he⟩ :=
        ActiveAgents.registerSpawnedThread_spec h.consistent snapshot hid hro hkey ht
      refine ⟨hc, ?_, ?_, h.bounded⟩
      · intro key found hg hn
        obtain ⟨hne, hin⟩ := he key found hg hn
        apply h.reserved.unreserve hr hin hn
        -- The committed agent is at the reserved path, so no entry waits for it any more.
        rintro path rfl rfl
        rcases hp with hp | hp
        · cases hp
        · exact hne (by rw [ActiveAgents.registrationKey, hp])
      have hl := length_unreserve hr
      simp only [Exact, liveReservations]
      omega
    · cases hs
  · cases hs

lemma Sound.drop
    (hs : s.step display (.drop reservation) = some s') : s'.Sound := by
  have hexa := h.totalCount_eq
  simp only [System.step] at hs
  split at hs
  · rename_i reserved hr
    cases hs
    have hl := length_unreserve hr
    rcases reserved with _ | path
    · refine ⟨h.consistent, fun key found hg hn => ?_, ?_, h.bounded.decrement⟩
      · exact h.reserved.unreserve hr hg hn fun _ hnev => by cases hnev
      · simp only [Exact, liveReservations, count_cons_self]
        omega
    obtain ⟨hc, hre, he⟩ := ActiveAgents.releaseReservedAgentPath_spec h.consistent path
    refine ⟨hc, fun key found hg hn => ?_, ?_, h.bounded.decrement⟩
    · obtain ⟨hne, hin⟩ := he key found hg hn
      refine h.reserved.unreserve hr hin hn fun path' heq => ?_
      cases heq
      exact hne
    · simp only [Exact, liveReservations, count_cons_self]
      omega
  · cases hs

lemma Sound.releaseSpawnedThread
    (hs : s.step display (.releaseSpawnedThread threadId) = some s') : s'.Sound := by
  have hexa := h.totalCount_eq
  have hsp := ActiveAgents.releaseSpawnedThread_spec h.consistent threadId
  simp only [System.step] at hs
  generalize s.agents.releaseSpawnedThread threadId = released at hsp hs
  obtain ⟨agents, counted⟩ := released
  cases hs
  obtain ⟨hc, hre, he⟩ := hsp
  have hres : ∀ key found, agents.agentTree.get key = some found → found.agentId = none → _ :=
    fun key found hg hn => h.reserved key found (he key found hg) hn
  rcases counted with _ | _
  · refine ⟨hc, hres, ?_, h.bounded⟩
    simp only [Bool.toNat_false, Nat.add_zero] at hre
    simp only [Exact, hre]
    exact hexa
  refine ⟨hc, hres, ?_, h.bounded.decrement⟩
  simp only [Bool.toNat_true] at hre
  simp only [Exact, liveReservations, if_true, count_cons_self]
  omega

lemma Sound.registerRootThread (hrep : ¬ replaces display s (.registerRootThread threadId))
    (hs : s.step display (.registerRootThread threadId) = some s') : s'.Sound := by
  have hexa := h.totalCount_eq
  cases hs
  have hfr : s.agents.agentTree.get AgentPath.root.text = none → ∀ key, ¬ s.agents.At threadId key :=
    fun hn key hat => hrep ⟨hn, key, hat⟩
  obtain ⟨hc, hre, he⟩ := ActiveAgents.registerRootThread_spec h.consistent threadId hfr
  refine ⟨hc, fun key found hg hn => h.reserved key found (he key found hg hn) hn, ?_, h.bounded⟩
  simp only [Exact, hre]
  exact hexa

lemma Sound.step {event : Event ThreadId Snapshot} (hrep : ¬ replaces display s event)
    (hs : s.step display event = some s') : s'.Sound := by
  have hexa := h.totalCount_eq
  cases event with
  | reserveSpawnSlot reservation =>
    simp only [System.step] at hs
    cases hf : s.reservations.get reservation with
    | some _ => simp [hf] at hs
    | none => ?_
    simp only [hf, Option.some.injEq] at hs
    subst hs
    refine ⟨h.consistent, fun _ _ hg hn => h.reserved.reserve hf hg hn, ?_, h.bounded⟩
    have hl := length_reserve hf none
    simp only [Exact, liveReservations]
    omega
  | loadCount maxThreads =>
    cases hs
    refine ⟨h.consistent, h.reserved, ?_, fun m c hm => h.bounded.resume maxThreads (fun _ hca => hca) hm⟩
    simp only [Exact, count_resume]
    exact hexa
  | compareExchangeWeak maxThreads current reservation fails => exact h.compareExchangeWeak hs
  | reserveAgentPath reservation path => exact h.reserveAgentPath hs
  | commit reservation metadata snapshot => exact h.commit hrep hs
  | drop reservation => exact h.drop hs
  | fetchSub =>
    simp only [System.step] at hs
    split at hs
    · rename_i hm
      cases hs
      refine ⟨h.consistent, h.reserved, ?_, fun m c hca => h.bounded m c (mem_of_mem_erase hca)⟩
      have hpo := count_pos_iff.mpr hm
      simp only [Exact, liveReservations, count_erase_self]
      omega
    · cases hs
  | registerRootThread threadId => exact h.registerRootThread hrep hs
  | releaseSpawnedThread threadId => exact h.releaseSpawnedThread hs

end Step

/-- In a run in which no commit takes the place of a registered agent, the count is exact whenever no call is in
progress. -/
theorem totalCount_exact (display : ThreadId → Text) (events : List (Event ThreadId Snapshot))
    (s : System ThreadId Snapshot) (hrun : Run.run (System.step display) {} events = some s)
    (havoids : Run.Avoids (System.step display) (replaces display) {} events) :
    (s.calls = [] → s.totalCount = s.agents.liveAgents.length + s.liveReservations) ∧ 0 ≤ s.totalCount ∧
      (∀ maxThreads current reservation s', s.reservations.get reservation = none →
        s.step display (.compareExchangeWeak maxThreads current reservation false) = some s' →
        s'.reservations.get reservation = some none → s'.totalCount ≤ maxThreads) ∧
      (∀ threadId key, s.agents.At threadId key ↔ s.agents.Holds key threadId) ∧ s.Reserved := by
  have hso : s.Sound := Run.invariant_of_avoids Sound Sound.initial (fun _ _ _ ho hre hs => ho.step hre hs) hrun havoids
  have he := hso.exact
  unfold Exact at he
  refine ⟨?_, by omega, ?_, hso.consistent.inverse, hso.reserved⟩
  · intro hq
    rw [hq, count_nil] at he
    rw [length_liveAgents]
    omega
  intro maxThreads current reservation s' hf hs hr
  simp only [System.step] at hs
  split at hs
  · rename_i hen
    have hlt := hso.bounded _ _ hen.1
    split at hs
    · cases hs
      show s.totalCount + 1 ≤ _
      omega
    cases hs
    rw [hf] at hr
    cases hr
  · cases hs

/-! ## Two runs -/

def researcher : AgentPath := ⟨"/root/researcher".toList, by decide⟩

def reviewer : AgentPath := ⟨"/root/reviewer".toList, by decide⟩

def spawned : List (Event Nat Unit) :=
  [.registerRootThread 0, .loadCount 1, .compareExchangeWeak 1 0 0 false, .reserveAgentPath 0 researcher,
    .commit 0 { agentId := some 1, agentPath := some researcher } none]

def digits (threadId : Nat) : Text := replicate threadId '1'

def resumed : List (Event Nat Unit) :=
  spawned ++ [.reserveSpawnSlot 1, .commit 1 { agentId := some 1, agentPath := some reviewer } none]

theorem spawned_counted : ∃ s : System Nat Unit, Run.run (System.step digits) {} spawned = some s ∧ s.calls = [] ∧
    s.totalCount = 1 ∧ s.totalCount = s.agents.liveAgents.length + s.liveReservations := by
  refine ⟨_, rfl, rfl, rfl, (totalCount_exact digits spawned _ rfl ?_).1 rfl⟩
  have hro :=
    @Run.avoids_concat (System Nat Unit) _ (System.step digits) {} _ [] (replaces digits) (.registerRootThread 0)
    Run.avoids_nil rfl (by rintro ⟨-, key, agent, hg, -⟩; cases hg)
  have hl := @Run.avoids_concat _ _ (System.step digits) {} _ _ (replaces digits) (.loadCount 1) hro rfl id
  have he := @Run.avoids_concat _ _ (System.step digits) {} _ _ (replaces digits)
    (.compareExchangeWeak 1 0 0 false) hl rfl id
  have hr := @Run.avoids_concat _ _ (System.step digits) {} _ _ (replaces digits)
    (.reserveAgentPath 0 researcher) he rfl id
  refine Run.avoids_concat hr rfl ?_
  rintro ⟨_, hid, ⟨key, ⟨agent, hg, -⟩, -⟩ | ⟨_, _, hg, ho⟩⟩
  · cases hid
    cases hg
  · cases hg
    cases ho

theorem resumed_overcounted : ∃ s : System Nat Unit, Run.run (System.step digits) {} resumed = some s ∧ s.calls = [] ∧
    ¬ s.totalCount = s.agents.liveAgents.length + s.liveReservations :=
  ⟨_, rfl, rfl, by decide⟩

end System

end Codex.Agents
