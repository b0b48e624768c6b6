import Mathlib
import Codex.Agents.Registry

/-!
# The in-memory message board

`message-board/src/in_memory.rs`: what each locked section does to a board, `none` where it would panic. Identities
and times are parameters. What only queries read is left out.
-/

namespace Codex.Board

open Codex Codex.Agents Codex.Text

inductive PostDestination (Uuid : Type) where
  | channel (name : Text)
  | newChannel (name : Text)
  | thread (root : Uuid)
  deriving DecidableEq

structure PostRequest (Uuid : Type) where
  requestId : Text
  destination : PostDestination Uuid
  text : Text
  agentsToNotify : List AgentPath
  deriving DecidableEq

inductive PostBehavior where
  | discussion | silentAppend
  deriving DecidableEq

structure PostMetadata (Uuid Time : Type) where
  messageId : Uuid
  channelName : Text
  author : AgentPath
  threadId : Uuid
  createdAt : Time

structure Post (Uuid Time : Type) where
  metadata : PostMetadata Uuid Time
  request : PostRequest Uuid
  behavior : PostBehavior
  replies : List Nat := []
  latestReply : Option Nat := none

structure ChannelSummary (Uuid Time : Type) where
  channelName : Text
  description : Option Text
  createdAt : Time
  createdBy : AgentPath
  messageCount : Nat
  lastMessageId : Option Uuid

structure Channel (Uuid Time : Type) where
  summary : ChannelSummary Uuid Time
  posts : List Nat
  roots : List Nat

inductive SubscriptionTarget (Uuid : Type) where
  | channel (name : Text)
  | thread (root : Uuid)
  deriving DecidableEq

inductive SubscriptionChange where
  | subscribe | unsubscribe
  deriving DecidableEq

structure CreateChannelRequest where
  channelName : Text
  description : Option Text
  subscription : SubscriptionChange
  deriving DecidableEq

structure UpsertChannelRequest where
  channelName : Text
  description : Text
  deriving DecidableEq

structure State (ThreadId Uuid Time : Type) where
  channels : HashMap (id : Text → Text) (Channel Uuid Time) := {}
  posts : List (Post Uuid Time) := []
  byId : HashMap (id : Uuid → Uuid) Nat := {}
  requests : HashMap (id : ThreadId × Text → ThreadId × Text) Nat := {}
  subscriptions : HashMap (id : SubscriptionTarget Uuid → SubscriptionTarget Uuid)
    (HashMap (id : ThreadId → ThreadId) SubscriptionChange) := {}

def utf8Len (s : Text) : Nat := (s.map fun c => c.utf8Size).sum

def isControl (c : Char) : Bool := c.toNat < 0x20 || (0x7F ≤ c.toNat && c.toNat ≤ 0x9F)

def validateChannel (name : Text) : Except Text Unit :=
  if name.isEmpty ∨ utf8Len name > 128 ∨ trim name ≠ name ∨ name.any isControl then
    .error "channel names must contain 1–128 bytes without edge whitespace or control characters".toList
  else .ok ()

def withinLimits {Uuid : Type} (request : PostRequest Uuid) : Bool :=
  !(request.text.isEmpty || utf8Len request.text > 64 * 1024 || request.requestId.isEmpty ||
    utf8Len request.requestId > 512 || request.agentsToNotify.length > 256)

namespace State

variable {ThreadId Uuid Time : Type} [DecidableEq ThreadId] [DecidableEq Uuid]

section

variable (s : State ThreadId Uuid Time)

def threadIndex (id : Uuid) : Option (Except Text Nat) :=
  match s.byId.get id with
  | none => some (.error "post not found in this board".toList)
  | some index => s.posts[index]?.map fun post =>
      if post.metadata.threadId ≠ id then .error "thread_id must identify a top-level post".toList else .ok index

section

variable (micros : Time → Int) (s : State ThreadId Uuid Time)

def key (index : Nat) : Option (Int ×ₗ Nat) :=
  s.posts[index]?.map fun post => toLex (micros post.metadata.createdAt, index)

section

variable (caller : ThreadId) (request : PostRequest Uuid) (behavior : PostBehavior)

def existingPost : Option (Except Text (Option (PostMetadata Uuid Time))) :=
  match s.requests.get (caller, request.requestId) with
  | none => some (.ok none)
  | some index => s.posts[index]?.map fun post =>
      if post.request ≠ request ∨ post.behavior ≠ behavior then
        .error "request ID was already used for a different post".toList
      else .ok (some post.metadata)

def insertChannel (name : Text) (description : Option Text) (author : AgentPath)
    (now : Time) : Except Text (State ThreadId Uuid Time) :=
  match validateChannel name with
  | .error message => .error message
  | .ok () =>
    if s.channels.contains name then .error "channel already exists".toList
    else .ok { s with channels := s.channels.insert name ⟨⟨name, description, now, author, 0, none⟩, [], []⟩ }

/-- A subscription that was changed by hand stays as it was left. -/
def subscribe (target : SubscriptionTarget Uuid) (caller : ThreadId) : State ThreadId Uuid Time :=
  let subscribers := (s.subscriptions.get target).getD {}
  let subscribers := if subscribers.contains caller then subscribers else subscribers.insert caller .subscribe
  { s with subscriptions := s.subscriptions.insert target subscribers }

def createChannel (caller : ThreadId) (request : CreateChannelRequest)
    (author : AgentPath) (now : Time) : Except Text (State ThreadId Uuid Time) :=
  match s.insertChannel request.channelName request.description author now with
  | .error message => .error message
  | .ok inserted =>
    .ok (if request.subscription = .subscribe then inserted.subscribe (.channel request.channelName) caller
      else inserted)

def describe (request : UpsertChannelRequest) : Option (State ThreadId Uuid Time) :=
  (s.channels.get request.channelName).map fun channel =>
    let summary := { channel.summary with description := some request.description }
    { s with channels := s.channels.insert request.channelName { channel with summary := summary } }

structure Destination (ThreadId Uuid Time : Type) where
  state : State ThreadId Uuid Time
  channelName : Text
  root : Uuid
  target : SubscriptionTarget Uuid

def resolveDestination (author : AgentPath) (now : Time) (id : Uuid) :
    Option (Except Text (Destination ThreadId Uuid Time)) :=
  match request.destination with
  | .channel name =>
    if s.channels.contains name then some (.ok ⟨s, name, id, .channel name⟩)
    else some (.error "channel not found in this board".toList)
  | .newChannel name =>
    match s.insertChannel name none author now with
    | .error message => some (.error message)
    | .ok inserted =>
      some (.ok ⟨if behavior = .discussion then inserted.subscribe (.channel name) caller else inserted, name, id,
        .channel name⟩)
  | .thread root =>
    match s.threadIndex root with
    | none => none
    | some (.error message) => some (.error message)
    | some (.ok index) => s.posts[index]?.map fun post => .ok ⟨s, post.metadata.channelName, root, .thread root⟩

def isNewest (index : Nat) (newest : Option Nat) : Option Bool :=
  match newest with
  | none => some true
  | some last => (s.key micros index).bind fun key => (s.key micros last).map fun lastKey => decide (lastKey < key)

def pushPost (metadata : PostMetadata Uuid Time) : State ThreadId Uuid Time :=
  { s with
    requests := s.requests.insert (caller, request.requestId) s.posts.length
    byId := s.byId.insert metadata.messageId s.posts.length
    posts := s.posts ++ [{ metadata := metadata, request := request, behavior := behavior }] }

end

def lastIndex : Option Uuid → Option (Option Nat)
  | none => some none
  | some last => (s.byId.get last).map some

def indexChannel (metadata : PostMetadata Uuid Time) (index : Nat) : Option (State ThreadId Uuid Time) :=
  (s.channels.get metadata.channelName).bind fun channel =>
    (s.lastIndex channel.summary.lastMessageId).bind fun last =>
      (s.isNewest micros index last).map fun (newest : Bool) =>
        let summary := { channel.summary with
          messageCount := channel.summary.messageCount + 1
          lastMessageId := if newest then some metadata.messageId else channel.summary.lastMessageId }
        let roots := if metadata.threadId = metadata.messageId then channel.roots ++ [index] else channel.roots
        { s with channels := s.channels.insert metadata.channelName ⟨summary, channel.posts ++ [index], roots⟩ }

def indexReply (metadata : PostMetadata Uuid Time) (index : Nat) : Option (State ThreadId Uuid Time) :=
  if metadata.threadId = metadata.messageId then some s
  else
    (s.byId.get metadata.threadId).bind fun rootIndex =>
      (s.posts[rootIndex]?).bind fun thread =>
        (s.isNewest micros index thread.latestReply).map fun (newest : Bool) =>
          let latestReply := if newest then some index else thread.latestReply
          let thread := { thread with replies := thread.replies ++ [index], latestReply := latestReply }
          { s with posts := s.posts.set rootIndex thread }

end

/-- Who hears of a post: those it names and, for a discussion, those who listen, the author apart. -/
def recipients (caller : ThreadId) (behavior : PostBehavior)
    (target : SubscriptionTarget Uuid) (named : List ThreadId) : List ThreadId :=
  let subscribers := if behavior = .discussion then
      (((s.subscriptions.get target).map (·.entries)).getD []).filterMap fun e =>
        if e.2 = .subscribe then some e.1 else none
    else []
  ((named ++ subscribers).dedup).filter (· ≠ caller)

end

/-- The section of a post that writes: it looks once more for a post under the same request. -/
def write (micros : Time → Int) (s : State ThreadId Uuid Time) (caller : ThreadId) (request : PostRequest Uuid)
    (behavior : PostBehavior) (author : AgentPath) (named : List ThreadId) (now : Time) (id : Uuid) :
    Option (State ThreadId Uuid Time × Except Text (PostMetadata Uuid Time × List ThreadId)) :=
  match s.existingPost caller request behavior with
  | none => none
  | some (.error message) => some (s, .error message)
  | some (.ok (some metadata)) => some (s, .ok (metadata, []))
  | some (.ok none) =>
    match s.resolveDestination caller request behavior author now id with
    | none => none
    | some (.error message) => some (s, .error message)
    | some (.ok destination) =>
      let notified := destination.state.recipients caller behavior destination.target named
      let metadata : PostMetadata Uuid Time := ⟨id, destination.channelName, author, destination.root, now⟩
      let index := destination.state.posts.length
      ((destination.state.pushPost caller request behavior metadata).indexChannel micros metadata index).bind
        fun indexed => (indexed.indexReply micros metadata index).map fun stored =>
          (if behavior = .discussion then stored.subscribe (.thread destination.root) caller else stored,
            .ok (metadata, notified))

end State

/-! ## Interleaved calls -/

inductive Call (ThreadId Uuid : Type) where
  | post (caller : ThreadId) (request : PostRequest Uuid) (behavior : PostBehavior) (author : AgentPath)
  | upsert (request : UpsertChannelRequest) (author : AgentPath)
  deriving DecidableEq

structure Reply (ThreadId Uuid Time : Type) where
  caller : ThreadId
  request : PostRequest Uuid
  behavior : PostBehavior
  result : Except Text (PostMetadata Uuid Time)

/-- The board and its calls. `callers` says who wrote each post and `replies` what posts were answered; the code keeps
neither. -/
structure System (ThreadId Uuid Time : Type) where
  state : State ThreadId Uuid Time := {}
  calls : List (Call ThreadId Uuid) := []
  callers : List ThreadId := []
  replies : List (Reply ThreadId Uuid Time) := []

inductive Event (ThreadId Uuid Time : Type) where
  /-- A post, or an append, looks for a post under the same request. -/
  | checkPost (caller : ThreadId) (request : PostRequest Uuid) (behavior : PostBehavior) (author : AgentPath)
  /-- The host has resolved recipients and told the time. -/
  | writePost (caller : ThreadId) (request : PostRequest Uuid) (behavior : PostBehavior) (author : AgentPath)
      (named : List ThreadId) (now : Time) (id : Uuid)
  | createChannel (caller : ThreadId) (request : CreateChannelRequest) (author : AgentPath) (now : Time)
  | checkUpsert (request : UpsertChannelRequest) (author : AgentPath)
  | writeUpsert (request : UpsertChannelRequest) (author : AgentPath) (now : Time)
  | hostFails (call : Call ThreadId Uuid)

namespace System

variable {ThreadId Uuid Time : Type} [DecidableEq ThreadId] [DecidableEq Uuid]

section

variable (s : System ThreadId Uuid Time) (caller : ThreadId) (request : PostRequest Uuid)
  (behavior : PostBehavior)

def answer (result : Except Text (PostMetadata Uuid Time)) : System ThreadId Uuid Time :=
  { s with replies := s.replies ++ [⟨caller, request, behavior, result⟩] }

def checkPost (author : AgentPath) : Option (System ThreadId Uuid Time) :=
  if withinLimits request then
    (s.state.existingPost caller request behavior).map fun
      | .error message => s.answer caller request behavior (.error message)
      | .ok (some metadata) => s.answer caller request behavior (.ok metadata)
      | .ok none => { s with calls := .post caller request behavior author :: s.calls }
  else some (s.answer caller request behavior
    (.error "post text, request ID or recipient count exceeds the board limits".toList))

end

def writePost (micros : Time → Int) (s : System ThreadId Uuid Time) (caller : ThreadId) (request : PostRequest Uuid)
    (behavior : PostBehavior) (author : AgentPath) (named : List ThreadId) (now : Time) (id : Uuid) :
    Option (System ThreadId Uuid Time) :=
  (s.state.write micros caller request behavior author named now id).map fun (state, result) =>
    { state := state
      calls := s.calls.erase (.post caller request behavior author)
      callers := if state.posts.length = s.state.posts.length then s.callers else s.callers ++ [caller]
      replies := s.replies ++ [⟨caller, request, behavior, result.map (·.1)⟩] }

/-- A step, unless a call is not there to take it or the new identity is in use. -/
def step (micros : Time → Int) (s : System ThreadId Uuid Time) :
    Event ThreadId Uuid Time → Option (System ThreadId Uuid Time)
  | .checkPost caller request behavior author => s.checkPost caller request behavior author
  | .writePost caller request behavior author named now id =>
    if .post caller request behavior author ∈ s.calls ∧ s.state.byId.get id = none then
      s.writePost micros caller request behavior author named now id
    else none
  | .createChannel caller request author now =>
    some (match s.state.createChannel caller request author now with
      | .error _ => s
      | .ok state => { s with state := state })
  | .checkUpsert request author =>
    match validateChannel request.channelName with
    | .error _ => some s
    | .ok () =>
      match s.state.describe request with
      | some state => some { s with state := state }
      | none => some { s with calls := .upsert request author :: s.calls }
  | .writeUpsert request author now =>
    if .upsert request author ∈ s.calls then
      let calls := s.calls.erase (.upsert request author)
      match s.state.describe request with
      | some state => some { s with state := state, calls := calls }
      | none =>
        match s.state.insertChannel request.channelName (some request.description) author now with
        | .error _ => some { s with calls := calls }
        | .ok state => some { s with state := state, calls := calls }
    else none
  | .hostFails call => if call ∈ s.calls then some { s with calls := s.calls.erase call } else none

end System

end Codex.Board
