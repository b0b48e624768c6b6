import Codex.Board.Indexes

/-! # Retried posts: in whatever order the sections of many calls come, one request is stored once -/

namespace Codex.Board

open Codex Codex.Agents Codex.HashMap State List Option

variable {ThreadId Uuid Time : Type} [DecidableEq ThreadId] [DecidableEq Uuid] {micros : Time → Int}

namespace System

/-- A reply is the metadata of a post that was stored for that caller and that request. -/
def Answered (s : System ThreadId Uuid Time) : Prop :=
  ∀ reply ∈ s.replies, ∀ metadata, reply.result = .ok metadata → ∃ (i : Nat) (post : Post Uuid Time),
    s.state.posts[i]? = some post ∧ s.callers[i]? = some reply.caller ∧ post.request = reply.request ∧
      post.behavior = reply.behavior ∧ post.metadata = metadata

structure Sound (micros : Time → Int) (s : System ThreadId Uuid Time) : Prop where
  indexed : Indexed micros s.state s.callers
  answered : s.Answered

omit [DecidableEq ThreadId] [DecidableEq Uuid] in
lemma posts_insertChannel {s s' : State ThreadId Uuid Time} {name : Text} {description : Option Text}
    {author : AgentPath} {now : Time} (h : s.insertChannel name description author now = .ok s') :
    s'.posts = s.posts := by
  obtain ⟨-, rfl⟩ := insertChannel_eq_ok h
  rfl

lemma posts_createChannel {s s' : State ThreadId Uuid Time}
    (h : s.createChannel caller request author now = .ok s') :
    s'.posts = s.posts := by
  unfold State.createChannel at h
  split at h
  · cases h
  rename_i hi
  rw [← posts_insertChannel hi, ← Except.ok.inj h]
  split <;> rfl

omit [DecidableEq ThreadId] [DecidableEq Uuid] in
lemma posts_describe {s s' : State ThreadId Uuid Time} {request : UpsertChannelRequest}
    (h : s.describe request = some s') : s'.posts = s.posts := by
  obtain ⟨_, -, rfl⟩ := map_eq_some_iff.mp h
  rfl

variable {s s' : System ThreadId Uuid Time} {caller : ThreadId} {request : PostRequest Uuid} {behavior : PostBehavior}
  {author : AgentPath} {named : List ThreadId} {now : Time} {id : Uuid}

omit [DecidableEq ThreadId] [DecidableEq Uuid] in
lemma Answered.concat (h : s.Answered) {result : Except Text (PostMetadata Uuid Time)}
    (hr : ∀ metadata, result = .ok metadata → ∃ (i : Nat) (post : Post Uuid Time),
      s.state.posts[i]? = some post ∧ s.callers[i]? = some caller ∧ post.request = request ∧
        post.behavior = behavior ∧ post.metadata = metadata) :
    (s.answer caller request behavior result).Answered := by
  intro reply hm metadata hok
  rcases mem_append.mp hm with hm | hm
  · exact h reply hm metadata hok
  · obtain rfl := mem_singleton.mp hm
    exact hr metadata hok

omit [DecidableEq ThreadId] [DecidableEq Uuid] in
lemma keeps_of_eq {posts pos : List (Post Uuid Time)} (h : pos = posts) : Keeps posts pos :=
  fun _ post hp => ⟨post, h ▸ hp, rfl, rfl, rfl⟩

lemma Sound.of_posts (h : s.Sound micros) {state : State ThreadId Uuid Time} {calls : List (Call ThreadId Uuid)}
    (hi : Indexed micros state s.callers) (hp : state.posts = s.state.posts) :
    Sound micros ⟨state, calls, s.callers, s.replies⟩ ∧ Keeps s.state.posts state.posts := by
  refine ⟨⟨hi, ?_⟩, keeps_of_eq hp⟩
  unfold Answered
  rw [hp]
  exact h.answered

lemma Sound.checkPost (h : s.Sound micros) : ∃ s', s.checkPost caller request behavior author = some s' ∧
    s'.Sound micros ∧ s'.state.posts = s.state.posts := by
  unfold System.checkPost
  by_cases hl : withinLimits request
  · rw [if_pos hl]
    rcases @Indexed.existingPost_spec _ _ _ _ _ micros _ _ caller request behavior h.indexed with
      ⟨-, hn⟩ | ⟨i, post, hp, hc, -, ⟨hr, hb, hs⟩ | ⟨message, he⟩⟩
    · rw [hn]
      exact ⟨_, rfl, ⟨h.indexed, h.answered⟩, rfl⟩
    · rw [hs]
      refine ⟨_, rfl, ⟨h.indexed, h.answered.concat fun metadata hok => ?_⟩, rfl⟩
      exact ⟨i, post, hp, hc, hr, hb, Except.ok.inj hok⟩
    rw [he]
    refine ⟨_, rfl, ⟨h.indexed, h.answered.concat fun metadata hok => ?_⟩, rfl⟩
    cases hok
  rw [if_neg hl]
  refine ⟨_, rfl, ⟨h.indexed, h.answered.concat fun metadata hok => ?_⟩, rfl⟩
  cases hok

lemma Sound.writePost (h : s.Sound micros) (hf : s.state.byId.get id = none) :
    ∃ s', s.writePost micros caller request behavior author named now id = some s' ∧ s'.Sound micros ∧
      Keeps s.state.posts s'.state.posts := by
  unfold System.writePost
  rcases @Indexed.write_spec _ _ _ _ _ micros _ _ caller request behavior h.indexed author named now id hf with
    ⟨message, he⟩ | ⟨i, post, hp, hc, hr, hb, hs⟩ |
    ⟨stored, post, notified, hl, hk, hp, hr, hb, hi, hst⟩
  · simp only [he, map_some]
    refine ⟨_, rfl, ⟨h.indexed, ?_⟩, keeps_of_eq rfl⟩
    exact h.answered.concat fun metadata hok => by cases hok
  · simp only [hs, map_some]
    refine ⟨_, rfl, ⟨h.indexed, ?_⟩, keeps_of_eq rfl⟩
    exact h.answered.concat fun metadata hok =>
      ⟨i, post, hp, hc, hr, hb, Except.ok.inj hok⟩
  have hne : ¬ stored.posts.length = s.state.posts.length := by omega
  simp only [hst, map_some, if_neg hne]
  refine ⟨_, rfl, ⟨hi, ?_⟩, hk⟩
  intro reply hme metadata hok
  rcases mem_append.mp hme with hme | hme
  · obtain ⟨i, old, ho, hc, ha, hbe, hm⟩ := h.answered reply hme metadata hok
    obtain ⟨new, hn, hs, hsr, hsb⟩ := hk i old ho
    have hlt : i < s.callers.length := (List.getElem?_eq_some_iff.mp hc).1
    exact ⟨i, new, hn, by rw [getElem?_append_left hlt, hc], hsr.trans ha, hsb.trans hbe, hs.trans hm⟩
  obtain rfl := mem_singleton.mp hme
  exact ⟨s.state.posts.length, post, hp, by rw [← h.indexed.length, getElem?_concat_length], hr, hb, Except.ok.inj hok⟩

lemma Sound.step {event : Event ThreadId Uuid Time} (h : s.Sound micros) (hs : s.step micros event = some s') :
    s'.Sound micros ∧ Keeps s.state.posts s'.state.posts := by
  cases event with
  | checkPost caller request behavior author =>
    obtain ⟨_, hn, hso, hp⟩ := @Sound.checkPost _ _ _ _ _ micros _ caller request behavior author h
    obtain rfl := some.inj (hn.symm.trans hs)
    exact ⟨hso, keeps_of_eq hp⟩
  | writePost caller request behavior author named now id =>
    simp only [System.step] at hs
    split at hs
    · rename_i he
      obtain ⟨next, hn, hso⟩ :=
        @Sound.writePost _ _ _ _ _ micros _ caller request behavior author named now id h he.2
      exact some.inj (hn.symm.trans hs) ▸ hso
    · cases hs
  | createChannel caller request author now =>
    cases hs
    cases hc : s.state.createChannel caller request author now with
    | error _ => exact h.of_posts h.indexed rfl
    | ok state => exact h.of_posts (h.indexed.createChannel hc) (posts_createChannel hc)
  | checkUpsert request author =>
    simp only [System.step] at hs
    split at hs
    · cases hs
      exact h.of_posts h.indexed rfl
    split at hs
    · rename_i hd
      cases hs
      exact h.of_posts (h.indexed.describe hd) (posts_describe hd)
    · cases hs
      exact h.of_posts h.indexed rfl
  | writeUpsert request author now => ?_
  | hostFails call =>
    simp only [System.step] at hs
    split at hs
    · cases hs
      exact h.of_posts h.indexed rfl
    · cases hs
  simp only [System.step] at hs
  split at hs
  · split at hs
    · rename_i hd
      cases hs
      exact h.of_posts (h.indexed.describe hd) (posts_describe hd)
    split at hs
    · cases hs
      exact h.of_posts h.indexed rfl
    rename_i hi
    cases hs
    exact h.of_posts (h.indexed.insertChannel hi) (posts_insertChannel hi)
  · cases hs

lemma Sound.run (events : List (Event ThreadId Uuid Time)) (hr : Run.run (System.step micros) {} events = some s) :
    s.Sound micros := by
  have hi : Sound micros ({} : System ThreadId Uuid Time) := by
    refine ⟨Indexed.initial, ?_⟩
    intro reply hm
    cases hm
  exact Run.invariant (fun _ s => s.Sound micros) hi (fun _ _ _ _ _ ho hs => (ho.step hs).1) hr

lemma Sound.unique (h : s.Sound micros) {i j : Nat} (hi : s.state.posts[i]? = some post)
    (hj : s.state.posts[j]? = some other) (hc : s.callers[i]? = some caller)
    (hc' : s.callers[j]? = some caller) (hid : post.request.requestId = other.request.requestId) : i = j :=
  some.inj (((h.indexed.requests _ _ i).mpr ⟨post, hi, hc, hid⟩).symm.trans
    ((h.indexed.requests _ _ j).mpr ⟨other, hj, hc', rfl⟩))

/-- In every run one request is stored once and answered alike, every index equals what the posts give, and no call
that waits panics. -/
theorem stored_once_and_indexed (micros : Time → Int) (events : List (Event ThreadId Uuid Time))
    (s : System ThreadId Uuid Time) (hrun : Run.run (System.step micros) {} events = some s) :
    (∀ (i j : Nat) (post other : Post Uuid Time) (caller : ThreadId), s.state.posts[i]? = some post →
      s.state.posts[j]? = some other → s.callers[i]? = some caller → s.callers[j]? = some caller →
      post.request.requestId = other.request.requestId → i = j) ∧
    (∀ reply ∈ s.replies, ∀ again ∈ s.replies, reply.caller = again.caller →
      reply.request.requestId = again.request.requestId → ∀ metadata metadata', reply.result = .ok metadata →
      again.result = .ok metadata' →
      reply.request = again.request ∧ reply.behavior = again.behavior ∧ metadata = metadata') ∧
    s.callers.length = s.state.posts.length ∧
    (∀ name channel, s.state.channels.get name = some channel → ChannelIndexed micros s.state.stored name channel) ∧
    (∀ post ∈ s.state.posts, RepliesIndexed micros s.state.stored post) ∧
    ∀ caller request behavior author named now id, .post caller request behavior author ∈ s.calls →
      s.state.byId.get id = none →
      (s.step micros (.writePost caller request behavior author named now id)).isSome := by
  have hs := Sound.run events hrun
  refine ⟨fun i j post other caller hi hj hc hc' hid => hs.unique hi hj hc hc' hid, ?_,
    hs.indexed.length, hs.indexed.channels, hs.indexed.replies, ?_⟩
  · intro reply hm again hm' hc hid metadata metadata' hok hok'
    obtain ⟨i, post, hp, hwh, hr, hb, rfl⟩ := hs.answered reply hm metadata hok
    obtain ⟨j, other, ho, hwh', hr', hb', rfl⟩ := hs.answered again hm' metadata' hok'
    rw [← hr, ← hr'] at hid
    obtain rfl := hs.unique hp ho hwh (by rw [hc]; exact hwh') hid
    obtain rfl := some.inj (hp.symm.trans ho)
    exact ⟨hr.symm.trans hr', hb.symm.trans hb', rfl⟩
  intro caller request behavior author named now id hw hf
  obtain ⟨_, hn, -⟩ :=
    @Sound.writePost _ _ _ _ _ micros _ caller request behavior author named now id hs hf
  simp only [System.step]
  rw [if_pos ⟨hw, hf⟩, hn]
  rfl

def hello : PostRequest Nat := ⟨"request".toList, .newChannel "general".toList, "hello".toList, []⟩

def retried : List (Event Nat Nat Int) :=
  [.checkPost 1 hello .discussion AgentPath.root, .checkPost 1 hello .discussion AgentPath.root,
    .writePost 1 hello .discussion AgentPath.root [] 5 0, .writePost 1 hello .discussion AgentPath.root [] 4 1]

theorem retried_stored_once : ∃ s : System Nat Nat Int, Run.run (System.step fun time => time) {} retried = some s ∧
    s.replies.length = 2 ∧ s.state.posts.length = 1 ∧ s.callers.length = s.state.posts.length := by
  have hru : ∃ s : System Nat Nat Int, Run.run (System.step fun time => time) {} retried = some s ∧
      s.replies.length = 2 ∧ s.state.posts.length = 1 := ⟨_, rfl, rfl, rfl⟩
  obtain ⟨s, hru, hr, hp⟩ := hru
  exact ⟨s, hru, hr, hp, (stored_once_and_indexed _ retried s hru).2.2.1⟩

end System

end Codex.Board
