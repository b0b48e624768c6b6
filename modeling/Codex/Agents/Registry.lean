import Codex.HashMap
import Codex.Text

/-!
# The registry of spawned agents

`core/src/agent/registry.rs`. Each locked section, and each change of the count outside the lock, is one step.
Thread identities, how they are written, and identity snapshots are parameters.
-/

namespace Codex.Agents

open Codex

/-! ## Agent paths -/

def validAgentName (name : Text) : Bool :=
  !name.isEmpty && name != "root".toList && name.all fun c => c.isLower || c.isDigit || c == '_'

def validAbsolutePath (path : Text) : Bool :=
  path == "/morpheus".toList ||
    match path with
    | '/' :: rest =>
      match rest.splitOn '/' with
      | root :: names => root == "root".toList && names.all validAgentName
      | [] => false
    | _ => false

structure AgentPath where
  text : Text
  valid : validAbsolutePath text = true
  deriving DecidableEq

def AgentPath.root : AgentPath := ⟨"/root".toList, by decide⟩

def AgentPath.isRoot (path : AgentPath) : Bool := path.text == AgentPath.root.text

/-! ## Behind the lock -/

variable {ThreadId Snapshot : Type} [DecidableEq ThreadId]

structure AgentMetadata (ThreadId : Type) where
  agentId : Option ThreadId := none
  agentPath : Option AgentPath := none
  agentNickname : Option Text := none
  agentRole : Option Text := none

def AgentMetadata.isRoot (metadata : AgentMetadata ThreadId) : Bool := metadata.agentPath.any (·.isRoot)

structure RegisteredAgent (Snapshot : Type) where
  path : Text
  identitySnapshot : Option Snapshot

structure ActiveAgents (ThreadId Snapshot : Type) where
  agentTree : HashMap (id : Text → Text) (AgentMetadata ThreadId) := {}
  threadPaths : HashMap (id : ThreadId → ThreadId) (RegisteredAgent Snapshot) := {}
  usedAgentNicknames : List Text := []

namespace ActiveAgents

section

variable (agents : ActiveAgents ThreadId Snapshot)

/-- The agents without the one of a thread, and whether it was one that is counted. -/
def releaseSpawnedThread (threadId : ThreadId) : ActiveAgents ThreadId Snapshot × Bool :=
  match agents.threadPaths.get threadId with
  | none => (agents, false)
  | some agent =>
    match agents.agentTree.get agent.path with
    | none => ({ agents with threadPaths := agents.threadPaths.remove threadId }, false)
    | some metadata =>
      ({ agents with
          threadPaths := agents.threadPaths.remove threadId
          agentTree := agents.agentTree.remove agent.path }, !metadata.isRoot)

def registerRootThread (threadId : ThreadId) : ActiveAgents ThreadId Snapshot :=
  match agents.agentTree.get AgentPath.root.text with
  | none =>
    { agents with
      agentTree := agents.agentTree.insert AgentPath.root.text
        { agentId := some threadId, agentPath := some AgentPath.root }
      threadPaths := agents.threadPaths.insert threadId ⟨AgentPath.root.text, none⟩ }
  | some metadata =>
    match metadata.agentId with
    | none => agents
    | some rootThreadId =>
      { agents with threadPaths := agents.threadPaths.insert rootThreadId ⟨AgentPath.root.text, none⟩ }

/-- The key of an agent in the tree: its path, or a name made of its thread. -/
def registrationKey (display : ThreadId → Text) (metadata : AgentMetadata ThreadId) (threadId : ThreadId) : Text :=
  match metadata.agentPath with
  | some path => path.text
  | none => "thread:".toList ++ display threadId

def registerSpawnedThread (display : ThreadId → Text) (agents : ActiveAgents ThreadId Snapshot)
    (metadata : AgentMetadata ThreadId) (snapshot : Option Snapshot) : ActiveAgents ThreadId Snapshot :=
  match metadata.agentId with
  | none => agents
  | some threadId =>
    let key := registrationKey display metadata threadId
    let used := match metadata.agentNickname with
      | some nickname => agents.usedAgentNicknames.insert nickname
      | none => agents.usedAgentNicknames
    let tree := match agents.threadPaths.get threadId with
      | some previous => if previous.path ≠ key then agents.agentTree.remove previous.path else agents.agentTree
      | none => agents.agentTree
    let paths := agents.threadPaths.insert threadId ⟨key, snapshot⟩
    let paths := match (tree.get key).bind (·.agentId) with
      | some previousThreadId => if previousThreadId ≠ threadId then paths.remove previousThreadId else paths
      | none => paths
    { agentTree := tree.insert key metadata, threadPaths := paths, usedAgentNicknames := used }

def reserveAgentPath (path : AgentPath) : Option (ActiveAgents ThreadId Snapshot) :=
  match agents.agentTree.get path.text with
  | some _ => none
  | none => some { agents with agentTree := agents.agentTree.insert path.text { agentPath := some path } }

def releaseReservedAgentPath (path : AgentPath) : ActiveAgents ThreadId Snapshot :=
  match agents.agentTree.get path.text with
  | some metadata =>
    if metadata.agentId.isNone then { agents with agentTree := agents.agentTree.remove path.text } else agents
  | none => agents

end

end ActiveAgents

/-! ## Calls in progress -/

inductive Call where
  /-- To raise the count from the value it last read. -/
  | increment (maxThreads : Nat) (current : Int)
  /-- To lower the count. -/
  | decrement
  deriving DecidableEq

/-- The registry, the reservations that are neither committed nor dropped, and the calls in progress. -/
structure System (ThreadId Snapshot : Type) where
  agents : ActiveAgents ThreadId Snapshot := {}
  totalCount : Int := 0
  reservations : HashMap (id : Nat → Nat) (Option AgentPath) := {}
  calls : List Call := []

inductive Event (ThreadId Snapshot : Type) where
  /-- `reserve_spawn_slot` without a limit. -/
  | reserveSpawnSlot (reservation : Nat)
  /-- `reserve_spawn_slot` with a limit reads the count. -/
  | loadCount (maxThreads : Nat)
  /-- The weak exchange of a call that last read `current`, which may fail for no reason. -/
  | compareExchangeWeak (maxThreads : Nat) (current : Int) (reservation : Nat) (fails : Bool)
  | reserveAgentPath (reservation : Nat) (path : AgentPath)
  | commit (reservation : Nat) (metadata : AgentMetadata ThreadId) (snapshot : Option Snapshot)
  | drop (reservation : Nat)
  | fetchSub
  | registerRootThread (threadId : ThreadId)
  | releaseSpawnedThread (threadId : ThreadId)

namespace System

def resume (maxThreads : Nat) (current : Int) (calls : List Call) : List Call :=
  if (maxThreads : Int) ≤ current then calls else .increment maxThreads current :: calls

/-- A commit is of an agent with a thread and not of the root, at the reserved path if there is one. -/
def commits (reserved : Option AgentPath) (metadata : AgentMetadata ThreadId) : Bool :=
  metadata.agentId.isSome && !metadata.isRoot && (reserved.isNone || metadata.agentPath == reserved)

def step (display : ThreadId → Text) (s : System ThreadId Snapshot) :
    Event ThreadId Snapshot → Option (System ThreadId Snapshot)
  | .reserveSpawnSlot reservation =>
    match s.reservations.get reservation with
    | some _ => none
    | none => some { s with
        totalCount := s.totalCount + 1
        reservations := s.reservations.insert reservation none }
  | .loadCount maxThreads => some { s with calls := resume maxThreads s.totalCount s.calls }
  | .compareExchangeWeak maxThreads current reservation fails =>
    if .increment maxThreads current ∈ s.calls ∧ s.reservations.get reservation = none then
      let calls := s.calls.erase (.increment maxThreads current)
      if s.totalCount = current ∧ fails = false then
        some { s with
          totalCount := s.totalCount + 1
          reservations := s.reservations.insert reservation none
          calls := calls }
      else some { s with calls := resume maxThreads s.totalCount calls }
    else none
  | .reserveAgentPath reservation path =>
    match s.reservations.get reservation with
    | some none =>
      match s.agents.reserveAgentPath path with
      | some agents =>
        some { s with agents := agents, reservations := s.reservations.insert reservation (some path) }
      | none => some s
    | _ => none
  | .commit reservation metadata snapshot =>
    match s.reservations.get reservation with
    | some reserved =>
      if commits reserved metadata then
        some { s with
          agents := s.agents.registerSpawnedThread display metadata snapshot
          reservations := s.reservations.remove reservation }
      else none
    | none => none
  | .drop reservation =>
    match s.reservations.get reservation with
    | some reserved =>
      some { s with
        agents := match reserved with
          | some path => s.agents.releaseReservedAgentPath path
          | none => s.agents
        reservations := s.reservations.remove reservation
        calls := .decrement :: s.calls }
    | none => none
  | .fetchSub =>
    if .decrement ∈ s.calls then
      some { s with totalCount := s.totalCount - 1, calls := s.calls.erase .decrement }
    else none
  | .registerRootThread threadId => some { s with agents := s.agents.registerRootThread threadId }
  | .releaseSpawnedThread threadId =>
    let (agents, counted) := s.agents.releaseSpawnedThread threadId
    some { s with agents := agents, calls := if counted then .decrement :: s.calls else s.calls }

end System

end Codex.Agents
