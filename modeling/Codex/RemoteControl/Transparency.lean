import Codex.HashMap.Laws
import Codex.RemoteControl.Successor

/-!
# Segments instead of a message

A message sent in segments has the effect of the message sent whole, when both routes have seen its number, or when
the client has no other message under way, there is room for one more assembly, and the number is above that of the
last segmented message of the stream.
-/

namespace Codex.RemoteControl

open Codex.Text Codex.Run Assemblies List Option Reader HashMap

variable {M : Type} {crates : MessageCrates M} {message : M}

structure Address where
  clientId : Text
  streamId : Text
  seqId : Nat
  cursor : Option Text

def Address.key (a : Address) : Text × Option Text := (a.clientId, some a.streamId)

def Address.envelope (a : Address) (event : ClientEvent M) : ClientEnvelope M :=
  ⟨event, a.clientId, some a.streamId, some a.seqId, a.cursor⟩

structure Segmentation (crates : MessageCrates M) (message : M) where
  parts : List (Text × List UInt8)
  decoded : ∀ part ∈ parts, crates.decode part.1 = some part.2 ∧ part.1 ≠ []
  count : parts ≠ [] ∧ parts.length ≤ segmentCountMax
  size : 0 < (parts.map (·.2)).flatten.length ∧ (parts.map (·.2)).flatten.length ≤ reassembledMaxBytes
  message : crates.fromSlice (parts.map (·.2)).flatten = some message

namespace Segmentation

section

variable (g : Segmentation crates message)

def raw : List UInt8 := (g.parts.map (·.2)).flatten

def metadata (a : Address) : ClientSegmentMetadata :=
  ⟨a.seqId, g.parts.length, g.raw.length⟩

def chunk (i : Nat) : Text := ((g.parts[i]?).map (·.1)).getD []

def segment (a : Address) (i : Nat) : ClientEnvelope M :=
  a.envelope (.clientMessageChunk i g.parts.length g.raw.length (g.chunk i))

def assembly (a : Address) (arrived now : Nat) : ClientSegmentAssembly where
  streamId := a.streamId
  metadata := g.metadata a
  raw := ((g.parts.take arrived).map (·.2)).flatten
  nextSegmentId := arrived
  lastChunkSeenAt := now

end

end Segmentation

structure Arrival where
  segmentId : Nat
  wireSizeBytes : Nat
  now : Nat
  fresh : Text
  delivery : Delivery

/-- Segments arrive in order, some of them again. -/
inductive Progress : Nat → List Arrival → Nat → Prop
  | done (arrived : Nat) : Progress arrived [] arrived
  | again {arrived goal : Nat} {x : Arrival} {rest : List Arrival} (h : x.segmentId < arrived)
      (hrest : Progress arrived rest goal) : Progress arrived (x :: rest) goal
  | next {arrived goal : Nat} {x : Arrival} {rest : List Arrival} (h : x.segmentId = arrived)
      (hrest : Progress (arrived + 1) rest goal) : Progress arrived (x :: rest) goal

lemma Progress.le (h : Progress arrived arrivals goal) :
    arrived ≤ goal := by
  induction h with
  | done arrived => exact le_refl _
  | again _ _ ih => exact ih
  | next _ _ ih => omega

def receiveSegments (crates : MessageCrates M) (g : Segmentation crates message) (a : Address) :
    Reader → List Arrival → Reader × List (TransportEvent M)
  | r, [] => (r, [])
  | r, x :: rest =>
    let first := r.receive crates (g.segment a x.segmentId) x.wireSizeBytes x.now x.fresh x.delivery
    let more := receiveSegments crates g a first.1 rest
    (more.1, first.2.events ++ more.2)

/-! ## One segment -/

section

variable {g : Segmentation crates message} {a : Address} {r : Reader} {i now : Nat}

/-- The client has no message under way, there is room for one, and the number is new. -/
structure Free (r : Reader) (a : Address) : Prop where
  idle : r.assemblies.get a.clientId = none
  room : r.assemblies.entries.length < segmentAssemblyMaxCount
  fresh : ∀ n, r.completed.get a.key = some n → n < a.seqId

/-- The reader after some of the segments. -/
def Holding (g : Segmentation crates message) (a : Address) (r : Reader) (arrived : Nat) (held : Reader) : Prop :=
  arrived = 0 ∧ held = r ∨
    0 < arrived ∧ ∃ now, held = { r with assemblies := r.assemblies.insert a.clientId (g.assembly a arrived now) }

lemma clientMessageKey_segment : clientMessageKey (g.segment a i) = some (a.key, a.seqId) := rfl

variable {held : Reader} {arrived wireSizeBytes : Nat}

lemma Holding.completed (h : Holding g a r arrived held) :
    held.completed = r.completed ∧ held.tracker = r.tracker ∧ held.subscribeCursor = r.subscribeCursor := by
  rcases h with ⟨-, rfl⟩ | ⟨-, now, rfl⟩ <;> exact ⟨rfl, rfl, rfl⟩

lemma isCompleted_segment (h : ∀ n, r.completed.get a.key = some n → n < a.seqId) :
    r.isCompleted (g.segment a i) = false := by
  unfold Reader.isCompleted
  rw [clientMessageKey_segment]
  rcases hg : r.completed.get a.key with _ | n
  · simp [hg]
  have := h n hg
  simp [hg]
  omega

lemma receive_again (hh : Holding g a r arrived held) (hi : i < arrived)
    (wireSizeBytes now : Nat) (fresh : Text) (delivery : Delivery) :
    held.receive crates (g.segment a i) wireSizeBytes now fresh delivery = (held, {}) := by
  rcases hh with ⟨rfl, -⟩ | ⟨-, seen, rfl⟩
  · omega
  have hig : isIgnored { r with
      assemblies := r.assemblies.insert a.clientId (g.assembly a arrived seen) } (g.segment a i) := by
    have hg : (r.assemblies.insert a.clientId (g.assembly a arrived seen)).get a.clientId =
        some (g.assembly a arrived seen) := by
      rw [HashMap.get_insert, if_pos rfl]
    simp only [isIgnored, Segmentation.segment, Address.envelope, Assemblies.shouldIgnoreChunk, hg]
    simp [Segmentation.assembly, Segmentation.metadata, hi]
  simp [Reader.receive, observeClientMessage, hig]

lemma receive_completed (hg : r.completed.get a.key = some n) (hn : a.seqId ≤ n)
    (wireSizeBytes now : Nat) (fresh : Text) (delivery : Delivery) :
    r.receive crates (g.segment a i) wireSizeBytes now fresh delivery = (r, {}) := by
  have hc : r.isCompleted (g.segment a i) := by
    unfold Reader.isCompleted
    rw [clientMessageKey_segment]
    simp [hg, hn]
  simp [Reader.receive, observeClientMessage, hc]

lemma isValidChunk_segment (hi : i < g.parts.length) : isValidChunk i (g.metadata a) (g.chunk i) := by
  have hch : g.chunk i ≠ [] := by
    unfold Segmentation.chunk
    rw [getElem?_eq_getElem hi, map_some, getD_some]
    exact (g.decoded _ (getElem_mem hi)).2
  have he : (g.chunk i).isEmpty = false := by
    cases hc : g.chunk i with
    | nil => exact absurd hc hch
    | cons => rfl
  have hs := g.size
  have hco := g.count.2
  unfold isValidChunk
  simp only [Segmentation.metadata, Segmentation.raw, he, Bool.and_eq_true, bne_iff_ne, Bool.not_false, and_true]
  exact ⟨⟨⟨⟨by omega, decide_eq_true hco⟩, decide_eq_true hi⟩, by omega⟩, decide_eq_true hs.2⟩

lemma prepare_holding (hfree : Free r a) (hh : Holding g a r arrived held) (order : Order) (now : Nat) :
    ∃ seen, held.assemblies.prepare a.clientId a.streamId order (g.metadata a) now =
      r.assemblies.insert a.clientId (g.assembly a arrived seen) := by
  rcases hh with ⟨rfl, rfl⟩ | ⟨-, seen, rfl⟩
  · refine ⟨now, ?_⟩
    have hr := hfree.room
    have he : held.assemblies.evictAssembliesIfFull order = held.assemblies := by
      unfold evictAssembliesIfFull
      rw [if_neg (by omega)]
    simp only [prepare, hfree.idle, he]
    rfl
  refine ⟨seen, ?_⟩
  have hg : (r.assemblies.insert a.clientId (g.assembly a arrived seen)).get a.clientId =
      some (g.assembly a arrived seen) := by
    rw [HashMap.get_insert, if_pos rfl]
  simp only [prepare, hg]
  rw [if_neg (by simp [Segmentation.assembly])]

lemma take_succ_flatten (hi : i < g.parts.length) : ((g.parts.take (i + 1)).map (·.2)).flatten =
    ((g.parts.take i).map (·.2)).flatten ++ (g.parts[i]).2 := by
  rw [take_succ_eq_append_getElem hi, map_append, flatten_append]
  simp

lemma length_take_le (k : Nat) : ((g.parts.take k).map (·.2)).flatten.length ≤ g.raw.length := by
  unfold Segmentation.raw
  rw [← take_append_drop k g.parts, map_append, flatten_append, length_append]
  simp only [take_append_drop]
  omega

lemma update_next (hi : i < g.parts.length) (seen now : Nat) :
    update crates (g.assembly a i seen) (g.metadata a) i (g.chunk i) now =
      (g.assembly a (i + 1) now, if i + 1 < g.parts.length then .pending else .complete message) := by
  have hd : crates.decode (g.chunk i) = some (g.parts[i]).2 := by
    unfold Segmentation.chunk
    rw [getElem?_eq_getElem hi, map_some, getD_some]
    exact (g.decoded _ (getElem_mem hi)).1
  have hf : ¬ g.raw.length < ((g.parts.take i).map (·.2)).flatten.length + (g.parts[i]).2.length := by
    have hle := @length_take_le M crates message g (i + 1)
    rw [take_succ_flatten hi, length_append] at hle
    omega
  have hn : ({ g.assembly a i seen with
      raw := (g.assembly a i seen).raw ++ (g.parts[i]).2
      nextSegmentId := (g.assembly a i seen).nextSegmentId + 1
      lastChunkSeenAt := now } : ClientSegmentAssembly) = g.assembly a (i + 1) now := by
    unfold Segmentation.assembly
    rw [take_succ_flatten hi]
  have hu : update crates (g.assembly a i seen) (g.metadata a) i (g.chunk i) now =
      addChunk crates (g.assembly a i seen) g.parts.length g.raw.length (g.chunk i) now := by
    unfold update
    simp [Segmentation.assembly, Segmentation.metadata]
  rw [hu]
  unfold addChunk
  simp only [hd]
  rw [if_neg (show ¬ g.raw.length < (g.assembly a i seen).raw.length + (g.parts[i]).2.length from hf), hn]
  by_cases hl : i + 1 < g.parts.length
  · rw [if_pos (show (g.assembly a i seen).nextSegmentId + 1 < g.parts.length from hl), if_pos hl]
  have hr : (g.assembly a i seen).raw ++ (g.parts[i]).2 = g.raw := by
    show ((g.parts.take i).map (·.2)).flatten ++ (g.parts[i]).2 = _
    rw [← take_succ_flatten hi, take_of_length_le (by omega)]
    rfl
  have hm : crates.fromSlice g.raw = some message := g.message
  rw [if_neg (show ¬ (g.assembly a i seen).nextSegmentId + 1 < g.parts.length from hl), if_neg hl, hr, if_neg (by simp)]
  simp [hm]

lemma shouldIgnoreChunk_next (hfree : Free r a) (hh : Holding g a r i held) :
    held.assemblies.shouldIgnoreChunk a.clientId a.streamId a.seqId i = false := by
  unfold shouldIgnoreChunk
  rcases hh with ⟨-, rfl⟩ | ⟨-, _, rfl⟩
  · rw [hfree.idle]
    rfl
  · rw [HashMap.get_insert, if_pos rfl, any_some]
    simp [Segmentation.assembly, Segmentation.metadata]

section Next

variable (hfree : Free r a) (hh : Holding g a r i held) (hwire : wireSizeBytes ≤ segmentMaxBytes)

include hfree hh hwire

lemma observe_next (hi : i < g.parts.length) (now : Nat) :
    held.observeClientMessage crates (g.segment a i) wireSizeBytes now =
      if i + 1 < g.parts.length then (r.assemblies.insert a.clientId (g.assembly a (i + 1) now), .pending)
      else (r.assemblies, .forward (a.envelope (.clientMessage message))) := by
  obtain ⟨hc, -, -⟩ := hh.completed
  have hn : held.isCompleted (g.segment a i) = false := isCompleted_segment (hc ▸ hfree.fresh)
  have hig := shouldIgnoreChunk_next hfree hh
  have hign : held.isIgnored (g.segment a i) = false := hig
  have hs : ((clientMessageKey (g.segment a i)).isSome && segmentMaxBytes < wireSizeBytes) = false := by
    rw [Bool.and_eq_false_iff]
    right
    exact decide_eq_false (by omega)
  obtain ⟨_, hp⟩ := prepare_holding hfree hh (crates.order now) now
  have hg : ∀ assembly, (r.assemblies.insert a.clientId assembly).get a.clientId = some assembly := by
    intro assembly
    rw [HashMap.get_insert, if_pos rfl]
  have ho : held.assemblies.observe crates (g.segment a i) now =
      observeChunk crates held.assemblies (g.segment a i) a.streamId (g.metadata a) i (g.chunk i) now := rfl
  unfold observeClientMessage
  rw [hn, hign, hs, ho]
  simp only [Bool.false_eq_true, if_false]
  have hcl : (g.segment a i).clientId = a.clientId := rfl
  unfold observeChunk
  rw [hcl, if_neg (by rw [show (g.metadata a).seqId = a.seqId from rfl, hig]; decide), isValidChunk_segment hi]
  simp only [hp, hg, update_next hi, insert_insert]
  by_cases hl : i + 1 < g.parts.length
  · simp [if_pos hl]
  have hr : removeAssembly (r.assemblies.insert a.clientId (g.assembly a (i + 1) now)) a.clientId a.streamId =
      r.assemblies := by
    unfold removeAssembly
    rw [hg, any_some, if_pos (by simp [Segmentation.assembly])]
    exact remove_insert _ hfree.idle
  simp only [if_neg hl, hr]
  rfl

lemma receive_next (hi : i + 1 < g.parts.length) (now : Nat) (fresh : Text) (delivery : Delivery) :
    ∃ held', held.receive crates (g.segment a i) wireSizeBytes now fresh delivery = (held', {}) ∧
      Holding g a r (i + 1) held' := by
  refine ⟨{ r with assemblies := r.assemblies.insert a.clientId (g.assembly a (i + 1) now) }, ?_,
    .inr ⟨by omega, now, rfl⟩⟩
  have ho := observe_next hfree hh hwire (by omega) now
  rw [if_pos hi] at ho
  simp only [Reader.receive, ho]
  obtain ⟨hc, ht, hcu⟩ := hh.completed
  rw [hc, ht, hcu]

lemma receive_last (hi : i + 1 = g.parts.length) (now : Nat) (fresh : Text) (delivery : Delivery) :
    held.receive crates (g.segment a i) wireSizeBytes now fresh delivery =
      r.deliver crates (a.envelope (.clientMessage message)) (some (a.key, a.seqId)) now fresh delivery := by
  have ho := observe_next hfree hh hwire (by omega) now
  rw [if_neg (by omega)] at ho
  obtain ⟨hc, ht, hcu⟩ := hh.completed
  simp only [Reader.receive, ho, clientMessageKey_segment]
  rw [hc, ht, hcu]

end Next

lemma receive_plain (wireSizeBytes now : Nat) (fresh : Text) (delivery : Delivery) :
    r.receive crates (a.envelope (.clientMessage message)) wireSizeBytes now fresh delivery =
      r.deliver crates (a.envelope (.clientMessage message)) none now fresh delivery := rfl

lemma receive_progress (hfree : Free r a) (hh : Holding g a r arrived held) (hp : Progress arrived arrivals goal)
    (hg : goal < g.parts.length) (hwire : ∀ x ∈ arrivals, x.wireSizeBytes ≤ segmentMaxBytes) :
    ∃ held', receiveSegments crates g a held arrivals = (held', []) ∧ Holding g a r goal held' := by
  induction hp generalizing held with
  | done arrived => exact ⟨held, rfl, hh⟩
  | again h hr ih =>
    obtain ⟨held', hm, hg'⟩ := ih hh hg fun x hx => hwire x (mem_cons_of_mem _ hx)
    refine ⟨held', ?_, hg'⟩
    simp [receiveSegments, receive_again hh h, hm]
  | @next arrived goal x rest h hr ih => ?_
  have hle := hr.le
  obtain ⟨_, hf, hmi⟩ := receive_next hfree hh (hwire x (by simp))
    (show arrived + 1 < g.parts.length by omega) x.now x.fresh x.delivery
  obtain ⟨held', hm, hg'⟩ := ih hmi hg fun x hx => hwire x (mem_cons_of_mem _ hx)
  refine ⟨held', ?_, hg'⟩
  simp [receiveSegments, h, hf, hm]

lemma receive_repeats (hg : r.completed.get a.key = some n) (hn : a.seqId ≤ n) (arrivals : List Arrival) :
    receiveSegments crates g a r arrivals = (r, []) := by
  induction arrivals with
  | nil => rfl
  | cons x rest ih => simp [receiveSegments, receive_completed hg hn, ih]

lemma receiveSegments_append (r : Reader) (arrivals more : List Arrival) :
    receiveSegments crates g a r (arrivals ++ more) =
      ((receiveSegments crates g a (receiveSegments crates g a r arrivals).1 more).1,
        (receiveSegments crates g a r arrivals).2 ++
          (receiveSegments crates g a (receiveSegments crates g a r arrivals).1 more).2) := by
  induction arrivals generalizing r with
  | nil => rfl
  | cons x rest ih =>
    simp [receiveSegments, ih]

end

/-! ## States that only segments of an earlier number can tell apart -/

/-- Two tables of numbers that agree but for the key, where one has `old` and the other a later number. -/
def AgreeAt (key : Text × Option Text) (old : Option Nat) (n : Nat)
    (m m' : HashMap (id : Text × Option Text → Text × Option Text) Nat) : Prop :=
  (∀ other, other ≠ key → m.get other = m'.get other) ∧
    (m.get key = m'.get key ∨ m.get key = old ∧ m'.get key = some n ∧ ∀ k ∈ old, k < n)

/-- Readers that differ at most in the number recorded for the stream, and in the cursor, which no output shows. -/
structure Agree (a : Address) (old : Option Nat) (r r' : Reader) : Prop where
  tracker : r.tracker = r'.tracker
  assemblies : r.assemblies = r'.assemblies
  completed : AgreeAt a.key old a.seqId r.completed r'.completed

/-- While the number of the message is recorded, a segment of the stream with a number up to it that is above the one
recorded before. -/
def Overtaken (a : Address) (old : Option Nat) (r : Reader) : ReaderEvent M → Prop
  | .envelope envelope .. => r.completed.get a.key = some a.seqId ∧
      ∃ n, clientMessageKey envelope = some (a.key, n) ∧ n ≤ a.seqId ∧ ∀ k ∈ old, k < n
  | _ => False

section

variable {a : Address} {r r' : Reader} {n : Nat} {key : Text × Option Text} {old : Option Nat}
  {m m' : HashMap (id : Text × Option Text → Text × Option Text) Nat}

lemma AgreeAt.insert (h : AgreeAt key old n m m') (other : Text × Option Text) (k : Nat) :
    AgreeAt key old n (m.insert other k) (m'.insert other k) := by
  refine ⟨fun another hne => ?_, ?_⟩
  · rw [HashMap.get_insert, HashMap.get_insert, h.1 another hne]
  rw [HashMap.get_insert, HashMap.get_insert]
  split
  · exact .inl rfl
  · exact h.2

lemma AgreeAt.remove (h : AgreeAt key old n m m') (other : Text × Option Text) :
    AgreeAt key old n (m.remove other) (m'.remove other) := by
  refine ⟨fun another hne => ?_, ?_⟩
  · rw [HashMap.get_remove, HashMap.get_remove, h.1 another hne]
  rw [HashMap.get_remove, HashMap.get_remove]
  split
  · exact .inl rfl
  · exact h.2

lemma AgreeAt.filterKeys (h : AgreeAt key old n m m') (p : Text × Option Text → Bool) :
    AgreeAt key old n (m.filterKeys p) (m'.filterKeys p) := by
  have hp : ∀ k k' : Text × Option Text, id k = id k' → p k = p k' := fun _ _ hk => congrArg p hk
  refine ⟨fun another hne => ?_, ?_⟩
  · rw [get_filterKeys hp, get_filterKeys hp, h.1 another hne]
  rw [get_filterKeys hp, get_filterKeys hp]
  split
  · exact h.2
  · exact .inl rfl

section Agreeing

variable (h : Agree a old r r')

include h

lemma Agree.invalidateStream (key : StreamKey) :
    Agree a old (r.invalidateStream key) (r'.invalidateStream key) := by
  refine ⟨h.tracker, ?_, h.completed.remove _⟩
  show r.assemblies.removeAssembly key.1 key.2 = r'.assemblies.removeAssembly key.1 key.2
  rw [h.assemblies]

lemma Agree.invalidateClient (client : Text) :
    Agree a old (r.invalidateClient client) (r'.invalidateClient client) := by
  refine ⟨h.tracker, ?_, h.completed.filterKeys fun k => decide (k.1 ≠ client)⟩
  show r.assemblies.remove client = r'.assemblies.remove client
  rw [h.assemblies]

lemma Agree.invalidateStreams (keys : List StreamKey) :
    Agree a old (keys.foldl Reader.invalidateStream r) (keys.foldl Reader.invalidateStream r') := by
  induction keys generalizing r r' with
  | nil => exact h
  | cons key keys ih => exact ih (h.invalidateStream key)

lemma Agree.withTracker (tracker : ClientTracker) :
    Agree a old { r with tracker } { r' with tracker } := ⟨rfl, h.assemblies, h.completed⟩

lemma Agree.forgetClosed (envelope : ClientEnvelope M) :
    Agree a old (r.forgetClosed envelope) (r'.forgetClosed envelope) := by
  unfold Reader.forgetClosed
  split
  · split
    · exact h.invalidateStream _
    · exact h.invalidateClient _
  · exact h

section

variable (envelope : ClientEnvelope M) (key : Option ((Text × Option Text) × Nat))

lemma Agree.record :
    Agree a old (r.recordClientMessageDelivery envelope key) (r'.recordClientMessageDelivery envelope key) := by
  refine ⟨h.tracker, h.assemblies, ?_⟩
  cases key with
  | none => exact h.completed
  | some key => exact h.completed.insert key.1 key.2

lemma Agree.deliver (now : Nat) (fresh : Text) (delivery : Delivery) :
    (r.deliver crates envelope key now fresh delivery).2 = (r'.deliver crates envelope key now fresh delivery).2 ∧
      Agree a old (r.deliver crates envelope key now fresh delivery).1
        (r'.deliver crates envelope key now fresh delivery).1 := by
  simp only [Reader.deliver]
  rw [h.tracker]
  split
  · exact ⟨rfl, ((h.withTracker _).record envelope key).forgetClosed envelope⟩
  · exact ⟨rfl, h.withTracker _⟩

end

lemma Agree.isCompleted {envelope : ClientEnvelope M}
    (hl : r'.completed.get a.key = some a.seqId →
      ∀ n, clientMessageKey envelope = some (a.key, n) → n ≤ a.seqId → ∃ k ∈ old, n ≤ k) :
    r.isCompleted envelope = r'.isCompleted envelope := by
  unfold Reader.isCompleted
  rcases hk : clientMessageKey envelope with _ | found
  · rfl
  obtain ⟨key, n⟩ := found
  rw [any_some, any_some]
  by_cases hs : key = a.key
  · subst hs
    rcases h.completed.2 with heq | ⟨hold, hnew, hles⟩
    · rw [heq]
    rw [hold, hnew, any_some]
    by_cases hn : n ≤ a.seqId
    · obtain ⟨k, rfl, hnk⟩ := hl hnew n hk hn
      simp [hn, hnk]
    rw [decide_eq_false hn]
    rcases old with _ | k
    · rfl
    have := hles k rfl
    exact decide_eq_false (by omega)
  · rw [h.completed.1 key hs]

lemma Agree.receive {envelope : ClientEnvelope M}
    (hl : r'.completed.get a.key = some a.seqId →
      ∀ n, clientMessageKey envelope = some (a.key, n) → n ≤ a.seqId → ∃ k ∈ old, n ≤ k) (wireSizeBytes now : Nat)
        (fresh : Text)
    (delivery : Delivery) :
    (r.receive crates envelope wireSizeBytes now fresh delivery).2 =
        (r'.receive crates envelope wireSizeBytes now fresh delivery).2 ∧
      Agree a old (r.receive crates envelope wireSizeBytes now fresh delivery).1
        (r'.receive crates envelope wireSizeBytes now fresh delivery).1 := by
  have ho : r.observeClientMessage crates envelope wireSizeBytes now =
      r'.observeClientMessage crates envelope wireSizeBytes now := by
    unfold observeClientMessage isIgnored
    rw [h.isCompleted hl, h.assemblies]
  simp only [Reader.receive]
  rw [ho]
  have ha : ∀ assemblies, Agree a old { r with assemblies } { r' with assemblies } := fun assemblies =>
    ⟨h.tracker, rfl, h.completed⟩
  split
  · exact (ha _).deliver _ _ _ _ _
  all_goals exact ⟨rfl, ha _⟩

lemma Agree.bookkeep (key : StreamKey) (closed : Nat → Bool) :
    (r.bookkeep key closed : Reader × ReaderOutput M).2 = (r'.bookkeep key closed).2 ∧
      Agree a old (r.bookkeep key closed : Reader × ReaderOutput M).1
        (r'.bookkeep key closed : Reader × ReaderOutput M).1 := by
  simp only [Reader.bookkeep, h.tracker, true_and]
  split
  · exact (h.withTracker _).invalidateStream key
  · exact h.withTracker _

lemma Agree.step {event : ReaderEvent M} (hl : ¬ Overtaken a old r' event) :
    readerStep crates r event = none ∧ readerStep crates r' event = none ∨
      ∃ next next' output, readerStep crates r event = some (next, output) ∧
        readerStep crates r' event = some (next', output) ∧ Agree a old next next' := by
  have hj : ∀ key connectionId, Agree a old (r.joined key connectionId) (r'.joined key connectionId) := by
    intro key connectionId
    refine ⟨?_, h.assemblies, h.completed⟩
    unfold joined
    rw [h.tracker]
  cases event with
  | envelope envelope wireSizeBytes now fresh delivery => ?_
  | taskEnded key connectionId closed =>
    simp only [readerStep]
    rw [← h.tracker]
    split
    · obtain ⟨ho, ha⟩ := @Agree.bookkeep M _ _ _ _ (hj key connectionId) key closed
      refine .inr ⟨_, _, ((r.joined key connectionId).bookkeep key closed).2, rfl, ?_, ha⟩
      rw [ho]
    · exact .inl ⟨rfl, rfl⟩
  | taskFailed key connectionId =>
    simp only [readerStep]
    rw [← h.tracker]
    split
    · exact .inr ⟨_, _, _, rfl, rfl, hj key connectionId⟩
    · exact .inl ⟨rfl, rfl⟩
  | sweep order now closed =>
    right
    refine ⟨(r.sweep (M := M) order now closed).1, (r'.sweep (M := M) order now closed).1, _, rfl, ?_, ?_⟩
    · simp [readerStep, Reader.sweep, h.tracker]
    simp only [Reader.sweep, h.tracker]
    split
    · exact (h.withTracker _).invalidateStreams _
    · exact h.withTracker _
  | shutdown order closed =>
    refine .inr ⟨_, _, _, rfl, ?_, h.withTracker (r.tracker.shutdown (M := M) order closed).tracker⟩
    simp only [readerStep]
    rw [h.tracker]
  have hn : r'.completed.get a.key = some a.seqId →
      ∀ n, clientMessageKey envelope = some (a.key, n) → n ≤ a.seqId → ∃ k ∈ old, n ≤ k := by
    intro hnew n hk hle
    by_contra hno
    refine hl ⟨hnew, n, hk, hle, fun k hk => ?_⟩
    by_contra hge
    exact hno ⟨k, hk, by omega⟩
  obtain ⟨ho, ha⟩ := @Agree.receive M crates a r r' old h envelope hn wireSizeBytes now fresh delivery
  refine .inr ⟨_, _, (r.receive crates envelope wireSizeBytes now fresh delivery).2, rfl, ?_, ha⟩
  rw [ho]
  rfl

end Agreeing

def readerOutputs (crates : MessageCrates M) : Reader → List (ReaderEvent M) → Option (List (ReaderOutput M))
  | _, [] => some []
  | r, event :: events =>
    (readerStep crates r event).bind fun next => (readerOutputs crates next.1 events).map (next.2 :: ·)

lemma Agree.outputs (h : Agree a old r r') (hl : Avoids (readerNext crates) (Overtaken a old) r' later) :
    readerOutputs crates r later = readerOutputs crates r' later := by
  induction later generalizing r r' with
  | nil => rfl
  | cons event later ih => ?_
  obtain ⟨hn, hrest⟩ := hl.cons
  unfold readerOutputs
  rcases @Agree.step M crates a r r' old h event hn with ⟨hn, hn'⟩ | ⟨next, next', output, hs, hs', ha⟩
  · rw [hn, hn']
  · rw [hs, hs', bind_some, bind_some, ih ha (hrest next' (by rw [readerNext, hs']; rfl))]

end

section

variable {a : Address} {r : Reader} {now : Nat} {fresh : Text} {delivery : Delivery}

/-- Both routes have seen the number: segments with it are dropped, and the tracker has nothing to do for the message. -/
def Seen (crates : MessageCrates M) (r : Reader) (a : Address) (message : M) : Prop :=
  (∃ n, r.completed.get a.key = some n ∧ a.seqId ≤ n) ∧
    (a.streamId = [] ∨ crates.startsConnection message = false ∧
      ∀ client, r.tracker.clients.get (a.clientId, a.streamId) = some client →
        ClientTracker.isDuplicate client (some a.seqId) = true)

lemma Seen.handleMessage (h : Seen crates r a message) :
    r.tracker.handleMessage crates (a.envelope (.clientMessage message)) now fresh delivery =
      { tracker := r.tracker } := by
  have hl : r.tracker.takeLegacy crates (a.envelope (.clientMessage message)) = r.tracker := by
    simp [ClientTracker.takeLegacy, Address.envelope]
  have hs : r.tracker.streamOf crates (a.envelope (.clientMessage message)) fresh = a.streamId := rfl
  simp only [ClientTracker.handleMessage, hl, hs]
  rcases h.2 with hn | ⟨hi, hc⟩
  · simp [hn]
  split
  · rfl
  simp only [Address.envelope, hi, Bool.false_eq_true, if_false]
  split
  · rfl
  · rename_i client hg
    exact if_pos (hc client hg)

lemma agree_deliver (hf : ∀ n, r.completed.get a.key = some n → n < a.seqId)
    (hok : (r.tracker.handleMessage crates (a.envelope (.clientMessage message)) now fresh delivery).ok) :
    (r.deliver crates (a.envelope (.clientMessage message)) none now fresh delivery).2.events =
        (r.deliver crates (a.envelope (.clientMessage message)) (some (a.key, a.seqId)) now fresh delivery).2.events ∧
      Agree a (r.completed.get a.key) (r.deliver crates (a.envelope (.clientMessage message)) none now fresh delivery).1
        (r.deliver crates (a.envelope (.clientMessage message)) (some (a.key, a.seqId)) now fresh delivery).1 ∧
      (r.deliver crates (a.envelope (.clientMessage message)) (some (a.key, a.seqId)) now fresh
        delivery).1.completed.get
        a.key = some a.seqId := by
  have hin : (r.completed.insert a.key a.seqId).get a.key = some a.seqId := by
    rw [HashMap.get_insert, if_pos rfl]
  simp only [Reader.deliver, hok, if_true]
  refine ⟨trivial, ⟨rfl, rfl, fun other hne => ?_, .inr ⟨rfl, hin, hf⟩⟩, hin⟩
  show r.completed.get other = (r.completed.insert a.key a.seqId).get other
  rw [HashMap.get_insert, if_neg (by simpa using hne)]

/-- A segment other than the first starts nothing. -/
lemma receive_stray {g : Segmentation crates message} (hfree : Free r a) (hi : i ≠ 0) (wireSizeBytes now : Nat)
    (fresh : Text) (delivery : Delivery) :
    r.receive crates (g.segment a i) wireSizeBytes now fresh delivery = (r, {}) := by
  have hrm : ∀ assembly : ClientSegmentAssembly, assembly.streamId = a.streamId →
      removeAssembly (r.assemblies.insert a.clientId assembly) a.clientId a.streamId = r.assemblies := by
    intro assembly hs
    unfold removeAssembly
    rw [HashMap.get_insert, if_pos rfl, any_some, if_pos (by simp [hs])]
    exact remove_insert _ hfree.idle
  have hnone : removeAssembly r.assemblies a.clientId a.streamId = r.assemblies := by
    simp [removeAssembly, hfree.idle]
  have hig : r.assemblies.shouldIgnoreChunk a.clientId a.streamId a.seqId i = false := by
    simp [shouldIgnoreChunk, hfree.idle]
  obtain ⟨seen, hp⟩ := prepare_holding (g := g) hfree (.inl ⟨rfl, rfl⟩) (crates.order now) now
  have hu : update crates (g.assembly a 0 seen) (g.metadata a) i (g.chunk i) now = (g.assembly a 0 seen, .drop) := by
    unfold update
    simp [Segmentation.assembly, hi]
  have ho : r.observeClientMessage crates (g.segment a i) wireSizeBytes now = (r.assemblies, .dropped) := by
    unfold observeClientMessage
    rw [isCompleted_segment hfree.fresh, show r.isIgnored (g.segment a i) = false from hig]
    simp only [Bool.false_eq_true, if_false]
    split
    · exact Prod.ext hnone rfl
    show observeChunk crates r.assemblies (g.segment a i) a.streamId (g.metadata a) i (g.chunk i) now = _
    have hcl : (g.segment a i).clientId = a.clientId := rfl
    unfold observeChunk
    rw [hcl, if_neg (by rw [show (g.metadata a).seqId = a.seqId from rfl, hig]; decide)]
    split
    · rw [hnone]
    simp only [hp, HashMap.get_insert, if_true, hu, insert_insert]
    rw [hrm _ rfl]
  simp [Reader.receive, ho]

lemma receive_strays {g : Segmentation crates message} (hfree : Free r a) {arrivals : List Arrival}
    (h : ∀ x ∈ arrivals, x.segmentId ≠ 0) : receiveSegments crates g a r arrivals = (r, []) := by
  induction arrivals with
  | nil => rfl
  | cons x rest ih =>
    simp [receiveSegments, receive_stray hfree (h x mem_cons_self), ih fun y hy => h y (mem_cons_of_mem _ hy)]

end

/-! ## Messages under way, and streams initialised again -/

def twoLetters : Segmentation textMessages "hi" where
  parts := [("h", [104]), ("i", [105])]
  decoded := by decide
  count := by decide
  size := by decide
  message := by decide

def arrival (segmentId : Nat) : Arrival := ⟨segmentId, 100, 0, [], allDelivered⟩

def toStream (seqId : Nat) : Address := ⟨"c", "s", seqId, none⟩

def segmentEvent (seqId segmentId : Nat) : ReaderEvent Text :=
  .envelope (twoLetters.segment (toStream seqId) segmentId) 100 0 [] allDelivered

end Codex.RemoteControl
