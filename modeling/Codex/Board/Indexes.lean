import Codex.Board.Store
import Codex.Positions
import Codex.Run

/-! # The indexes of a board, kept one post at a time, equal what the stored posts give -/

namespace Codex.Board

open Codex Codex.Agents Codex.HashMap List Option

variable {ThreadId Uuid Time : Type} [DecidableEq ThreadId] [DecidableEq Uuid] {micros : Time → Int}

/-! ## What the posts say -/

def inChannel (name : Text) (metadata : PostMetadata Uuid Time) : Bool := metadata.channelName = name

def isRootOf (name : Text) (metadata : PostMetadata Uuid Time) : Bool :=
  metadata.channelName = name ∧ metadata.threadId = metadata.messageId

def isReplyTo (root : Uuid) (metadata : PostMetadata Uuid Time) : Bool :=
  metadata.threadId = root ∧ metadata.threadId ≠ metadata.messageId

def stampAt (micros : Time → Int) (stored : List (PostMetadata Uuid Time)) (i : Nat) : Int ×ₗ Nat :=
  toLex ((stored[i]?.map fun metadata => micros metadata.createdAt).getD 0, i)

def newest (micros : Time → Int) (stored : List (PostMetadata Uuid Time)) (is : List Nat) : Option Nat :=
  maxByKey (stampAt micros stored) is

def idAt (stored : List (PostMetadata Uuid Time)) (i : Nat) : Option Uuid := stored[i]?.map (·.messageId)

namespace State

def stored (s : State ThreadId Uuid Time) : List (PostMetadata Uuid Time) := s.posts.map (·.metadata)

/-- What a channel keeps is what the posts say. -/
structure ChannelIndexed (micros : Time → Int) (stored : List (PostMetadata Uuid Time)) (name : Text)
    (channel : Channel Uuid Time) : Prop where
  posts : channel.posts = positions (inChannel name) stored
  roots : channel.roots = positions (isRootOf name) stored
  count : channel.summary.messageCount = (positions (inChannel name) stored).length
  last : channel.summary.lastMessageId = (newest micros stored (positions (inChannel name) stored)).bind (idAt stored)

/-- So are the replies of a post. -/
structure RepliesIndexed (micros : Time → Int) (stored : List (PostMetadata Uuid Time)) (post : Post Uuid Time) :
    Prop where
  replies : post.replies = positions (isReplyTo post.metadata.messageId) stored
  latest : post.latestReply = newest micros stored (positions (isReplyTo post.metadata.messageId) stored)

structure Indexed (micros : Time → Int) (s : State ThreadId Uuid Time) (callers : List ThreadId) : Prop where
  length : callers.length = s.posts.length
  requests : ∀ caller requestId i, s.requests.get (caller, requestId) = some i ↔
    ∃ post, s.posts[i]? = some post ∧ callers[i]? = some caller ∧ post.request.requestId = requestId
  byId : ∀ id i, s.byId.get id = some i ↔ ∃ post, s.posts[i]? = some post ∧ post.metadata.messageId = id
  channelOf : ∀ metadata ∈ s.stored, (s.channels.get metadata.channelName).isSome
  rootOf : ∀ metadata ∈ s.stored, (s.byId.get metadata.threadId).isSome
  channels : ∀ name channel, s.channels.get name = some channel → ChannelIndexed micros s.stored name channel
  replies : ∀ post ∈ s.posts, RepliesIndexed micros s.stored post

lemma Indexed.initial : Indexed micros ({} : State ThreadId Uuid Time) [] where
  length := rfl
  requests := by
    intro caller requestId i
    constructor
    · intro hn
      cases hn
    · rintro ⟨_, hn, -⟩
      cases hn
  byId := by
    intro id i
    constructor
    · intro hn
      cases hn
    · rintro ⟨_, hn, -⟩
      cases hn
  channelOf := by intro _ hm; cases hm
  rootOf := by intro _ hm; cases hm
  channels := by intro _ _ hn; cases hn
  replies := by intro _ hm; cases hm

variable {s' : State ThreadId Uuid Time} {author : AgentPath} {now : Time} {name : Text}
  {description : Option Text}

lemma Indexed.of_channels (h : Indexed micros s callers) (hp : s'.posts = s.posts) (hbi : s'.byId = s.byId)
    (hr : s'.requests = s.requests)
    (hso : ∀ name, (s.channels.get name).isSome → (s'.channels.get name).isSome)
    (hc : ∀ name channel, s'.channels.get name = some channel → ChannelIndexed micros s.stored name channel) :
    Indexed micros s' callers := by
  have hs : s'.stored = s.stored := by unfold stored; rw [hp]
  refine ⟨?_, ?_, ?_, ?_, ?_, ?_, ?_⟩
  · rw [hp]
    exact h.length
  · rw [hp, hr]
    exact h.requests
  · rw [hp, hbi]
    exact h.byId
  · rw [hs]
    exact fun metadata hm => hso _ (h.channelOf metadata hm)
  · rw [hs, hbi]
    exact h.rootOf
  · rw [hs]
    exact hc
  · rw [hp, hs]
    exact h.replies

lemma Indexed.subscribe (h : Indexed micros s callers)
    (target : SubscriptionTarget Uuid) (caller : ThreadId) : Indexed micros (s.subscribe target caller) callers :=
  h.of_channels rfl rfl rfl (fun _ hs => hs) h.channels

omit [DecidableEq ThreadId] [DecidableEq Uuid] in
lemma insertChannel_eq_ok {s : State ThreadId Uuid Time}
    (h : s.insertChannel name description author now = .ok s') :
    s.channels.get name = none ∧
      s' = { s with channels := s.channels.insert name ⟨⟨name, description, now, author, 0, none⟩, [], []⟩ } := by
  unfold insertChannel at h
  split at h
  · cases h
  split at h
  · cases h
  rename_i hf
  refine ⟨?_, (Except.ok.inj h).symm⟩
  unfold HashMap.contains at hf
  simpa using hf

lemma Indexed.insertChannel (h : Indexed micros s callers) (hi : s.insertChannel name description author now = .ok s') :
    Indexed micros s' callers := by
  obtain ⟨hf, rfl⟩ := insertChannel_eq_ok hi
  have he : ∀ p : PostMetadata Uuid Time → Bool, (∀ metadata, p metadata → metadata.channelName = name) →
      positions p s.stored = [] := by
    intro p hp
    apply positions_eq_nil
    intro metadata hm
    rw [Bool.eq_false_iff]
    intro ht
    have hs := h.channelOf metadata hm
    rw [hp metadata ht, hf] at hs
    cases hs
  have hin := he (inChannel name) (fun metadata hp => of_decide_eq_true hp)
  have hr := he (isRootOf name) (fun metadata hp => (of_decide_eq_true hp).1)
  refine h.of_channels rfl rfl rfl ?_ ?_
  · intro other hs
    rw [get_insert]
    split
    · rfl
    · exact hs
  intro other channel hg
  rw [get_insert] at hg
  split at hg
  · rename_i heq
    cases hg
    rw [show other = name from heq]
    refine ⟨hin.symm, hr.symm, ?_, ?_⟩
    all_goals
      rw [hin]
      rfl
  · exact h.channels other channel hg

lemma Indexed.createChannel (h : Indexed micros s callers)
    (hc : s.createChannel caller request author now = .ok s') : Indexed micros s' callers := by
  unfold State.createChannel at hc
  split at hc
  · cases hc
  rename_i hins
  have hi := h.insertChannel hins
  cases hc
  split
  · exact hi.subscribe _ _
  · exact hi

lemma Indexed.describe (h : Indexed micros s callers) (hd : s.describe request = some s') :
    Indexed micros s' callers := by
  obtain ⟨channel, hc, rfl⟩ := map_eq_some_iff.mp hd
  refine h.of_channels rfl rfl rfl ?_ ?_
  · intro other hs
    rw [get_insert]
    split
    · rfl
    · exact hs
  intro other found hg
  rw [get_insert] at hg
  split at hg
  · rename_i heq
    cases hg
    rw [show other = request.channelName from heq]
    have hi := h.channels _ _ hc
    exact ⟨hi.posts, hi.roots, hi.count, hi.last⟩
  · exact h.channels other found hg

end State

/-! ## One more post -/

section

variable {stored : List (PostMetadata Uuid Time)} {metadata : PostMetadata Uuid Time} {is : List Nat}
  {i : Nat}

omit [DecidableEq Uuid] in
lemma stampAt_append (h : i < stored.length) :
    stampAt micros (stored ++ [metadata]) i = stampAt micros stored i := by
  unfold stampAt
  rw [getElem?_append_left h]

omit [DecidableEq Uuid] in
lemma idAt_append (h : i < stored.length) : idAt (stored ++ [metadata]) i = idAt stored i := by
  unfold idAt
  rw [getElem?_append_left h]

omit [DecidableEq Uuid] in
lemma newest_append (h : ∀ i ∈ is, i < stored.length) : newest micros
    (stored ++ [metadata]) is = newest micros stored is :=
  maxByKey_congr fun i hi => stampAt_append (h i hi)

omit [DecidableEq Uuid] in
lemma lt_of_newest (h : ∀ i ∈ is, i < stored.length) {c : Nat} (hc : newest micros stored is = some c) :
    c < stored.length := h c (mem_of_maxByKey hc)

omit [DecidableEq Uuid] in
lemma newest_bind_idAt_append (h : ∀ i ∈ is, i < stored.length) :
    (newest micros (stored ++ [metadata]) is).bind (idAt (stored ++ [metadata])) =
      (newest micros stored is).bind (idAt stored) := by
  rw [newest_append h]
  cases hc : newest micros stored is with
  | none => rfl
  | some c => exact idAt_append (lt_of_newest h hc)

omit [DecidableEq Uuid] in
lemma newest_concat (h : ∀ i ∈ is, i < stored.length) :
    newest micros (stored ++ [metadata]) (is ++ [stored.length]) =
      match newest micros stored is with
      | none => some stored.length
      | some c => if stampAt micros (stored ++ [metadata]) c < stampAt micros (stored ++ [metadata]) stored.length
          then some stored.length else some c := by
  have hs := @newest_append _ _ micros _ metadata _ h
  unfold newest at hs ⊢
  rw [maxByKey_concat, hs]
  rcases hc : maxByKey (stampAt micros stored) is with _ | c
  · rfl
  have hne : stampAt micros (stored ++ [metadata]) c ≠ stampAt micros (stored ++ [metadata]) stored.length := by
    intro heq
    have hlt : c < stored.length := h c (mem_of_maxByKey hc)
    have : c = stored.length := (Prod.ext_iff.mp (toLex.injective heq)).2
    omega
  show (if stampAt micros (stored ++ [metadata]) stored.length < stampAt micros (stored ++ [metadata]) c
    then some c else some stored.length) = if _ then _ else _
  rcases lt_or_gt_of_ne hne with hlt | hgt
  · rw [if_neg (not_lt_of_gt hlt), if_pos hlt]
  · rw [if_pos hgt, if_neg (not_lt_of_gt hgt)]

end

namespace State

variable {s : State ThreadId Uuid Time} {callers : List ThreadId} {i : Nat} {post : Post Uuid Time}

omit [DecidableEq ThreadId] [DecidableEq Uuid] in
lemma getElem?_stored : s.stored[i]? = s.posts[i]?.map (·.metadata) := getElem?_map

omit [DecidableEq ThreadId] [DecidableEq Uuid] in
lemma length_stored : s.stored.length = s.posts.length := length_map _

omit [DecidableEq ThreadId] [DecidableEq Uuid] in
lemma key_eq (h : i < s.posts.length) : s.key micros i = some (stampAt micros s.stored i) := by
  unfold key stampAt
  rw [getElem?_stored, getElem?_eq_getElem h]
  rfl

omit [DecidableEq ThreadId] [DecidableEq Uuid] in
lemma isNewest_concat {metadata : PostMetadata Uuid Time} {stored : List (PostMetadata Uuid Time)} {is : List Nat}
    (hs : s.stored = stored ++ [metadata]) (his : ∀ i ∈ is, i < stored.length) :
    ∃ newer, s.isNewest micros stored.length (newest micros stored is) = some newer ∧
      newest micros (stored ++ [metadata]) (is ++ [stored.length]) =
        if newer then some stored.length else newest micros stored is := by
  have hl : s.posts.length = stored.length + 1 := by
    rw [← length_stored, hs, length_append]
    rfl
  rw [newest_concat his]
  rcases hc : newest micros stored is with _ | c
  · exact ⟨true, rfl, rfl⟩
  have hlt := lt_of_newest his hc
  unfold isNewest
  simp only [@key_eq _ _ _ micros _ _ (show stored.length < s.posts.length by omega),
    @key_eq _ _ _ micros _ _ (show c < s.posts.length by omega), hs]
  exact ⟨_, rfl, by simp⟩

lemma Indexed.byId_unique (h : Indexed micros s callers) (hi : s.posts[i]? = some post) (hj : s.posts[j]? = some other)
    (heq : post.metadata.messageId = other.metadata.messageId) : i = j :=
  Option.some.inj (((h.byId _ i).mpr ⟨post, hi, heq⟩).symm.trans ((h.byId _ j).mpr ⟨other, hj, rfl⟩))

variable {caller : ThreadId} {request : PostRequest Uuid} {behavior : PostBehavior} {metadata : PostMetadata Uuid Time}

lemma stored_pushPost : (s.pushPost caller request behavior metadata).stored = s.stored ++ [metadata] := by
  simp [stored, pushPost]

/-- A post that may be stored: new, and in a thread of a channel that is there. -/
structure Fits (s : State ThreadId Uuid Time) (caller : ThreadId) (request : PostRequest Uuid)
    (metadata : PostMetadata Uuid Time) : Prop where
  fresh : s.byId.get metadata.messageId = none
  unused : s.requests.get (caller, request.requestId) = none
  channel : (s.channels.get metadata.channelName).isSome
  thread : metadata.threadId ≠ metadata.messageId → (s.byId.get metadata.threadId).isSome

lemma indexChannel_spec (h : Indexed micros s callers) (hf : s.Fits caller request metadata) :
    ∃ channel, ChannelIndexed micros (s.stored ++ [metadata]) metadata.channelName channel ∧
      (s.pushPost caller request behavior metadata).indexChannel micros metadata s.posts.length =
        some { s.pushPost caller request behavior metadata with
          channels := s.channels.insert metadata.channelName channel } := by
  obtain ⟨channel, hch⟩ := isSome_iff_exists.mp hf.channel
  have hind := h.channels _ _ hch
  have his : ∀ i ∈ positions (inChannel metadata.channelName) s.stored, i < s.stored.length :=
    fun i hi => lt_of_mem_positions hi
  obtain ⟨newer, hnew, hn⟩ := @isNewest_concat _ _ _ micros _ metadata _ _
    (@stored_pushPost _ _ _ _ _ s caller request behavior metadata) his
  have hl : (s.pushPost caller request behavior metadata).lastIndex channel.summary.lastMessageId =
        some (newest micros s.stored (positions (inChannel metadata.channelName) s.stored)) := by
    rw [hind.last]
    rcases hc : newest micros s.stored (positions (inChannel metadata.channelName) s.stored) with _ | c
    · rfl
    obtain ⟨last, hl, -⟩ := mem_positions.mp (mem_of_maxByKey hc)
    have hid : (some c).bind (idAt s.stored) = some last.messageId := by
      simp [idAt, hl]
    rw [getElem?_stored] at hl
    obtain ⟨post, hp, rfl⟩ := map_eq_some_iff.mp hl
    have hg := (h.byId _ c).mpr ⟨post, hp, rfl⟩
    have hne : post.metadata.messageId ≠ metadata.messageId := by
      intro heq
      rw [heq, hf.fresh] at hg
      cases hg
    simp only [hid, lastIndex, pushPost, get_insert, id, if_neg hne, hg]
    rfl
  have hin : positions (inChannel metadata.channelName) (s.stored ++ [metadata]) =
      positions (inChannel metadata.channelName) s.stored ++ [s.stored.length] := by
    rw [positions_concat, if_pos (show inChannel _ metadata from decide_eq_true rfl)]
  have hlen := @length_stored _ _ _ s
  refine ⟨⟨{ channel.summary with
      messageCount := channel.summary.messageCount + 1
      lastMessageId := if newer then some metadata.messageId else channel.summary.lastMessageId },
    channel.posts ++ [s.posts.length],
    if metadata.threadId = metadata.messageId then channel.roots ++ [s.posts.length] else channel.roots⟩,
    ⟨?_, ?_, ?_, ?_⟩, ?_⟩
  · rw [hin, ← hlen, hind.posts]
  · rw [positions_concat]
    simp only [isRootOf, decide_eq_true_eq, true_and, hind.roots, ← hlen]
    split <;> simp
  · rw [hin, hind.count]
    simp
  · rw [hin, hn]
    cases newer with
    | true => simp [idAt]
    | false => ?_
    simp only [hind.last]
    have := @newest_bind_idAt_append _ _ micros s.stored metadata _ his
    rw [newest_append his] at this
    exact this.symm
  · unfold indexChannel
    rw [show (s.pushPost caller request behavior metadata).channels.get metadata.channelName = some channel from hch]
    simp only [bind_some]
    rw [hl]
    simp only [bind_some]
    rw [← hlen, hnew]
    rfl

lemma Indexed.positions_isReplyTo_fresh (h : Indexed micros s callers) {id : Uuid} (hf : s.byId.get id = none) :
    positions (isReplyTo id) s.stored = [] := by
  apply positions_eq_nil
  intro other hm
  rw [Bool.eq_false_iff]
  intro hr
  have hs := h.rootOf other hm
  rw [(of_decide_eq_true hr).1, hf] at hs
  cases hs

lemma RepliesIndexed.append {stored : List (PostMetadata Uuid Time)} (h : RepliesIndexed micros stored post)
    (ho : isReplyTo post.metadata.messageId metadata = false) :
    RepliesIndexed micros (stored ++ [metadata]) post := by
  have hs : positions (isReplyTo post.metadata.messageId) (stored ++ [metadata]) =
      positions (isReplyTo post.metadata.messageId) stored := by
    rw [positions_concat, ho]
    exact append_nil _
  constructor
  · rw [hs]
    exact h.replies
  · rw [hs, newest_append fun i hi => lt_of_mem_positions hi]
    exact h.latest

lemma ChannelIndexed.append {stored : List (PostMetadata Uuid Time)}
    (h : ChannelIndexed micros stored name channel) (ho : metadata.channelName ≠ name) :
    ChannelIndexed micros (stored ++ [metadata]) name channel := by
  have hin : positions (inChannel name) (stored ++ [metadata]) = positions (inChannel name) stored := by
    rw [positions_concat, if_neg (by simpa [inChannel] using ho)]
    exact append_nil _
  constructor
  · rw [hin]
    exact h.posts
  · rw [positions_concat, if_neg (by simp [isRootOf, ho]), append_nil]
    exact h.roots
  · rw [hin]
    exact h.count
  · rw [hin, newest_bind_idAt_append fun i hi => lt_of_mem_positions hi]
    exact h.last

section Indexing

variable (h : Indexed micros s callers)

include h

lemma indexReply_spec (hf : s.Fits caller request metadata)
    (channels : HashMap (id : Text → Text) (Channel Uuid Time)) :
    ∃ posts : List (Post Uuid Time),
      { s.pushPost caller request behavior metadata with channels := channels }.indexReply micros metadata
          s.posts.length =
            some { s.pushPost caller request behavior metadata with channels := channels, posts := posts } ∧
      posts.map (·.metadata) = s.stored ++ [metadata] ∧
      (∀ (i : Nat) (Q : PostMetadata Uuid Time → PostRequest Uuid → PostBehavior → Prop),
        (∃ post : Post Uuid Time, posts[i]? = some post ∧ Q post.metadata post.request post.behavior) ↔
          ∃ post : Post Uuid Time, (s.pushPost caller request behavior metadata).posts[i]? = some post ∧
            Q post.metadata post.request post.behavior) ∧
      ∀ post ∈ posts, RepliesIndexed micros (s.stored ++ [metadata]) post := by
  have hs := @stored_pushPost _ _ _ _ _ s caller request behavior metadata
  have hnew : RepliesIndexed micros (s.stored ++ [metadata])
      { metadata := metadata, request := request, behavior := behavior } := by
    refine RepliesIndexed.append ⟨?_, ?_⟩ ?_
    · exact (h.positions_isReplyTo_fresh hf.fresh).symm
    · rw [h.positions_isReplyTo_fresh hf.fresh]
      rfl
    · simp [isReplyTo]
  unfold indexReply
  by_cases hr : metadata.threadId = metadata.messageId
  · refine ⟨(s.pushPost caller request behavior metadata).posts, by rw [if_pos hr], hs, fun _ _ => Iff.rfl, ?_⟩
    intro post hm
    rcases mem_append.mp hm with hm | hm
    · exact (h.replies post hm).append (by simp [isReplyTo, hr])
    · obtain rfl := mem_singleton.mp hm
      exact hnew
  obtain ⟨rootIndex, hbi⟩ := isSome_iff_exists.mp (hf.thread hr)
  obtain ⟨thread, ht, hid⟩ := (h.byId _ _).mp hbi
  have hlt := (List.getElem?_eq_some_iff.mp ht).1
  have hp : (s.pushPost caller request behavior metadata).posts[rootIndex]? = some thread := by
    show (s.posts ++ _)[rootIndex]? = _
    rw [getElem?_append_left hlt, ht]
  have hg : (s.pushPost caller request behavior metadata).byId.get metadata.threadId = some rootIndex := by
    show (s.byId.insert metadata.messageId s.posts.length).get metadata.threadId = _
    rw [get_insert]
    exact (if_neg hr).trans hbi
  have hind := h.replies thread (mem_of_getElem? ht)
  have his : ∀ i ∈ positions (isReplyTo thread.metadata.messageId) s.stored, i < s.stored.length :=
    fun i hi => lt_of_mem_positions hi
  obtain ⟨newer, hn, hnewe⟩ := @isNewest_concat _ _ _ micros _ metadata _ _ hs his
  rw [← hind.latest, length_stored] at hn
  have hin : positions (isReplyTo thread.metadata.messageId) (s.stored ++ [metadata]) =
      positions (isReplyTo thread.metadata.messageId) s.stored ++ [s.stored.length] := by
    rw [positions_concat, if_pos (show isReplyTo _ metadata from decide_eq_true ⟨hid.symm, hr⟩)]
  rw [if_neg hr]
  refine ⟨(s.pushPost caller request behavior metadata).posts.set rootIndex { thread with
    replies := thread.replies ++ [s.posts.length]
    latestReply := if newer then some s.posts.length else thread.latestReply }, ?_, ?_, ?_, ?_⟩
  · simp only [hg, hp, bind_some]
    rw [show isNewest micros { s.pushPost caller request behavior metadata with channels := channels }
      s.posts.length thread.latestReply = some newer from hn]
    rfl
  · refine Eq.trans ?_ hs
    exact map_set_eq hp (by rfl)
  · exact fun i Q => exists_set_iff hp Iff.rfl
  · intro post hm
    obtain ⟨i, hi⟩ := mem_iff_getElem?.mp hm
    by_cases heq : rootIndex = i
    · subst heq
      rw [getElem?_set_self (List.getElem?_eq_some_iff.mp hp).1] at hi
      cases hi
      constructor
      · rw [hin, length_stored, ← hind.replies]
      · rw [hin, hnewe, length_stored, ← hind.latest]
    rw [getElem?_set_ne heq] at hi
    have hi : (s.posts ++ _)[i]? = some post := hi
    rcases lt_or_ge i s.posts.length with hlt' | hge
    · rw [getElem?_append_left hlt'] at hi
      refine (h.replies post (mem_of_getElem? hi)).append ?_
      rw [Bool.eq_false_iff]
      intro hre
      exact heq (h.byId_unique ht hi (hid.trans (of_decide_eq_true hre).1))
    rw [getElem?_append_right hge] at hi
    obtain rfl := mem_singleton.mp (mem_of_getElem? hi)
    exact hnew

def Keeps (posts posts' : List (Post Uuid Time)) : Prop :=
  ∀ (i : Nat) (post : Post Uuid Time), posts[i]? = some post → ∃ post', posts'[i]? = some post' ∧
    post'.metadata = post.metadata ∧ post'.request = post.request ∧ post'.behavior = post.behavior

omit h in
lemma exists_pushPost_iff {i : Nat} {Q : Post Uuid Time → Prop} :
    (∃ post, (s.pushPost caller request behavior metadata).posts[i]? = some post ∧ Q post) ↔
      (∃ post, s.posts[i]? = some post ∧ Q post) ∨ (i = s.posts.length ∧
        Q { metadata := metadata, request := request, behavior := behavior }) := by
  show (∃ post, (s.posts ++ _)[i]? = some post ∧ Q post) ↔ _
  rcases Nat.lt_trichotomy i s.posts.length with hlt | rfl | hgt
  · rw [getElem?_append_left hlt]
    simp [Nat.ne_of_lt hlt]
  · simp
  · rw [getElem?_eq_none (by simp; omega), getElem?_eq_none (Nat.le_of_lt hgt)]
    simp [Nat.ne_of_gt hgt]

lemma Indexed.requests_push (hf : s.Fits caller request metadata) (other : ThreadId) (requestId : Text) (i : Nat) :
    (s.requests.insert (caller, request.requestId) s.posts.length).get (other, requestId) = some i ↔
      ∃ post, (s.pushPost caller request behavior metadata).posts[i]? = some post ∧
        (callers ++ [caller])[i]? = some other ∧ post.request.requestId = requestId := by
  rw [exists_pushPost_iff, get_insert]
  have hol : (∃ post, s.posts[i]? = some post ∧ (callers ++ [caller])[i]? = some other ∧
      post.request.requestId = requestId) ↔ s.requests.get (other, requestId) = some i := by
    rw [h.requests]
    refine exists_congr fun post => and_congr_right fun hpos => ?_
    rw [getElem?_append_left (by rw [h.length]; exact (List.getElem?_eq_some_iff.mp hpos).1)]
  rw [hol]
  by_cases hk : (other, requestId) = (caller, request.requestId)
  · cases hk
    rw [if_pos rfl, hf.unused]
    constructor
    · intro heq
      cases heq
      exact .inr ⟨rfl, by rw [← h.length, getElem?_concat_length], rfl⟩
    rintro (hn | ⟨rfl, -⟩)
    · cases hn
    · rfl
  rw [if_neg (show ¬ id _ = id _ from hk)]
  refine ⟨.inl, fun hor => hor.resolve_right ?_⟩
  rintro ⟨rfl, ho, rfl⟩
  rw [← h.length, getElem?_concat_length] at ho
  exact hk (by rw [some.inj ho])

lemma Indexed.byId_push (hf : s.Fits caller request metadata) (messageId : Uuid) (i : Nat) :
    (s.byId.insert metadata.messageId s.posts.length).get messageId = some i ↔
      ∃ post, (s.pushPost caller request behavior metadata).posts[i]? = some post ∧
        post.metadata.messageId = messageId := by
  rw [exists_pushPost_iff, ← h.byId, get_insert]
  by_cases hid : messageId = metadata.messageId
  · subst hid
    rw [if_pos rfl, hf.fresh]
    simp [eq_comm]
  · rw [if_neg (show ¬ id _ = id _ from hid)]
    exact ⟨.inl, fun hor => hor.resolve_right fun hnew => hid hnew.2.symm⟩

lemma Indexed.store (hf : s.Fits caller request metadata) :
    ∃ indexed stored, (s.pushPost caller request behavior metadata).indexChannel micros metadata s.posts.length =
        some indexed ∧ indexed.indexReply micros metadata s.posts.length = some stored ∧
      Indexed micros stored (callers ++ [caller]) ∧ stored.posts.length = s.posts.length + 1 ∧
      Keeps s.posts stored.posts ∧ ∃ post, stored.posts[s.posts.length]? = some post ∧ post.metadata = metadata ∧
        post.request = request ∧
        post.behavior = behavior := by
  obtain ⟨channel, hc, hi⟩ := @indexChannel_spec _ _ _ _ _ micros _ _ _ _ behavior _ h hf
  obtain ⟨posts, hre, hs, hpo, hr⟩ := @indexReply_spec _ _ _ _ _ micros _ _ _ _ behavior _ h hf
    (s.channels.insert metadata.channelName channel)
  have hl : posts.length = s.posts.length + 1 := by
    have := congrArg List.length hs
    rw [length_map, length_append, length_stored] at this
    exact this
  refine ⟨_, _, hi, hre, ⟨?_, ?_, ?_, ?_, ?_, ?_, ?_⟩, hl, ?_, ?_⟩
  · rw [length_append, h.length, hl]
    rfl
  · intro other requestId i
    exact (h.requests_push hf other requestId i).trans (hpo i fun _ asked _ =>
      (callers ++ [caller])[i]? = some other ∧ asked.requestId = requestId).symm
  · intro messageId i
    exact (h.byId_push hf messageId i).trans (hpo i fun found _ _ => found.messageId = messageId).symm
  · intro found hm
    have hm : found ∈ posts.map (·.metadata) := hm
    rw [get_insert]
    split
    · rfl
    rename_i hne
    rw [hs] at hm
    rcases mem_append.mp hm with hm | hm
    · exact h.channelOf found hm
    · rw [mem_singleton.mp hm] at hne
      cases hne rfl
  · intro found hm
    have hm : found ∈ posts.map (·.metadata) := hm
    show ((s.byId.insert metadata.messageId s.posts.length).get found.threadId).isSome
    rw [get_insert]
    split
    · rfl
    rename_i hne
    rw [hs] at hm
    rcases mem_append.mp hm with hm | hm
    · exact h.rootOf found hm
    · rw [mem_singleton.mp hm] at hne ⊢
      exact hf.thread hne
  · intro name found hg
    show ChannelIndexed micros (posts.map (·.metadata)) name found
    rw [hs]
    rw [get_insert] at hg
    split at hg
    · rename_i heq
      cases hg
      rw [show name = metadata.channelName from heq]
      exact hc
    · rename_i hne
      exact (h.channels name found hg).append (fun heq => hne heq.symm)
  · show ∀ post ∈ posts, RepliesIndexed micros (posts.map (·.metadata)) post
    rw [hs]
    exact hr
  · intro i post hpos
    exact (hpo i fun found asked behaved =>
      found = post.metadata ∧ asked = post.request ∧ behaved = post.behavior).mpr
        (exists_pushPost_iff.mpr (.inl ⟨post, hpos, rfl, rfl, rfl⟩))
  · obtain ⟨post, hpos, hsa⟩ := (hpo s.posts.length fun found asked behaved =>
      found = metadata ∧ asked = request ∧ behaved = behavior).mpr
        (exists_pushPost_iff.mpr (.inr ⟨rfl, rfl, rfl, rfl⟩))
    exact ⟨post, hpos, hsa⟩

lemma Indexed.existingPost_spec :
    (s.requests.get (caller, request.requestId) = none ∧ s.existingPost caller request behavior = some (.ok none)) ∨
      ∃ (i : Nat) (post : Post Uuid Time), s.posts[i]? = some post ∧ callers[i]? = some caller ∧
        post.request.requestId = request.requestId ∧
        ((post.request = request ∧ post.behavior = behavior ∧
            s.existingPost caller request behavior = some (.ok (some post.metadata))) ∨
          ∃ message, s.existingPost caller request behavior = some (.error message)) := by
  unfold existingPost
  rcases hg : s.requests.get (caller, request.requestId) with _ | i
  · exact .inl ⟨rfl, rfl⟩
  obtain ⟨post, hp, hc, hid⟩ := (h.requests _ _ _).mp hg
  refine .inr ⟨i, post, hp, hc, hid, ?_⟩
  simp only [hp, map_some]
  by_cases hs : post.request ≠ request ∨ post.behavior ≠ behavior
  · exact .inr ⟨_, by rw [if_pos hs]⟩
  · obtain ⟨hr, hb⟩ := not_or.mp hs
    exact .inl ⟨not_not.mp hr, not_not.mp hb, by rw [if_neg hs]⟩

lemma Indexed.resolveDestination_spec {author : AgentPath} {now : Time} {id : Uuid}
    (hf : s.byId.get id = none) (hu : s.requests.get (caller, request.requestId) = none) :
    (∃ message, s.resolveDestination caller request behavior author now id = some (.error message)) ∨
      ∃ destination, s.resolveDestination caller request behavior author now id = some (.ok destination) ∧
        destination.state.posts = s.posts ∧ Indexed micros destination.state callers ∧
        destination.state.Fits caller request ⟨id, destination.channelName, author, destination.root, now⟩ := by
  unfold resolveDestination
  cases request.destination with
  | channel name =>
    by_cases hc : s.channels.contains name
    · simp only [hc]
      exact .inr ⟨_, rfl, rfl, h, hf, hu, hc, fun hne => absurd rfl hne⟩
    · exact .inl ⟨_, if_neg hc⟩
  | newChannel name => ?_
  | thread root =>
    rcases hg : s.byId.get root with _ | index
    · simp only [threadIndex, hg]
      exact .inl ⟨_, rfl⟩
    obtain ⟨post, hp, -⟩ := (h.byId _ _).mp hg
    by_cases ht : post.metadata.threadId ≠ root
    · simp only [threadIndex, hg, hp, map_some, if_pos ht]
      exact .inl ⟨_, rfl⟩
    simp only [threadIndex, hg, hp, map_some, if_neg ht]
    have hm : post.metadata ∈ s.stored := mem_map.mpr ⟨post, mem_of_getElem? hp, rfl⟩
    refine .inr ⟨_, rfl, rfl, h, hf, hu, h.channelOf post.metadata hm, fun _ => ?_⟩
    rw [hg]
    rfl
  rcases hi : s.insertChannel name none author now with message | inserted
  · simp only [hi]
    exact .inl ⟨message, rfl⟩
  simp only [hi]
  have hind := h.insertChannel hi
  obtain ⟨-, rfl⟩ := insertChannel_eq_ok hi
  refine .inr ⟨_, rfl, ?_, ?_, ?_⟩
  · split <;> rfl
  · split
    · exact hind.subscribe _ _
    · exact hind
  · have hch : ((s.channels.insert name ⟨⟨name, none, now, author, 0, none⟩, [], []⟩).get name).isSome := by
      rw [get_insert, if_pos rfl]
      rfl
    split <;> exact ⟨hf, hu, hch, fun hne => absurd rfl hne⟩

/-- The section that writes answers with the post that is there, refuses, or stores one post. -/
lemma Indexed.write_spec {author : AgentPath} {named : List ThreadId} {now : Time}
    {id : Uuid} (hf : s.byId.get id = none) :
    (∃ message, s.write micros caller request behavior author named now id = some (s, .error message)) ∨
      (∃ (i : Nat) (post : Post Uuid Time), s.posts[i]? = some post ∧ callers[i]? = some caller ∧ post.request =
        request ∧
        post.behavior = behavior ∧
        s.write micros caller request behavior author named now id = some (s, .ok (post.metadata, []))) ∨
      ∃ (stored : State ThreadId Uuid Time) (post : Post Uuid Time) (notified : List ThreadId),
        stored.posts.length = s.posts.length + 1 ∧ Keeps s.posts stored.posts ∧
        stored.posts[s.posts.length]? = some post ∧
        post.request = request ∧ post.behavior = behavior ∧ Indexed micros stored (callers ++ [caller]) ∧
        s.write micros caller request behavior author named now id = some (stored, .ok (post.metadata, notified)) := by
  unfold write
  rcases @Indexed.existingPost_spec _ _ _ _ _ micros _ _ caller request behavior h with
    ⟨hu, hn⟩ | ⟨i, post, hp, hc, -, ⟨hr, hb, hso⟩ | ⟨message, he⟩⟩
  · simp only [hn]
    rcases @Indexed.resolveDestination_spec _ _ _ _ _ micros _ _ _ _ behavior h author now _ hf hu with
      ⟨message, he⟩ | ⟨destination, hre, hpo, hd, hfi⟩
    · exact .inl ⟨message, by rw [he]⟩
    simp only [hre]
    obtain ⟨_, stored, hi, hs, hinv, hl, hk, post, hp, hm, hr, hb⟩ :=
      @Indexed.store _ _ _ _ _ micros _ _ _ _ behavior _ hd hfi
    rw [hpo] at hi hs hl hk hp
    simp only [hpo, hi, bind_some, hs, map_some]
    refine .inr (.inr ⟨_, post, _, ?_, ?_, ?_, hr, hb, ?_, by rw [hm]⟩)
    · split <;> exact hl
    · split <;> exact hk
    · split <;> exact hp
    · split
      · exact hinv.subscribe _ _
      · exact hinv
  · simp only [hso]
    exact .inr (.inl ⟨i, post, hp, hc, hr, hb, rfl⟩)
  · exact .inl ⟨message, by rw [he]⟩

end Indexing

end State

end Codex.Board
