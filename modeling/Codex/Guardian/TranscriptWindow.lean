import Codex.HeadTailBuffer

/-!
# The asynchronous transcript window

`TranscriptWindow` of `guardian-context/src/preparation/transcript/window.rs`. `none` stands for a panic: an index
out of range, a sum or a difference outside `usize`, or a branch that is marked unreachable.
-/

namespace Codex.Guardian

open List

def minRecentToolEntries : Nat := 5

inductive TranscriptEntryKind where
  | user
  | manualApproval
  | protectedMessage
  | message
  | tool
deriving DecidableEq

structure TranscriptEntry where
  kind : TranscriptEntryKind
  tokens : Nat

structure TranscriptRetentionConfig where
  maxToolTranscriptTokens : Nat
  maxRecentNonUserEntries : Nat

structure EntryPool where
  indices : List Nat := []
  tokens : Nat := 0

namespace EntryPool

def push (pool : EntryPool) (index tokens : Nat) : Option EntryPool :=
  if pool.tokens + tokens ≤ usizeMax then some ⟨pool.indices ++ [index], pool.tokens + tokens⟩ else none

def popOldest (pool : EntryPool) (entries : List TranscriptEntry) : Option EntryPool :=
  match pool.indices with
  | [] => some pool
  | index :: indices => do
    let entry ← entries[index]?
    if entry.tokens ≤ pool.tokens then some ⟨indices, pool.tokens - entry.tokens⟩ else none

end EntryPool

structure TranscriptWindow where
  entries : List TranscriptEntry
  messageTokenBudget : Nat
  toolTokenBudget : Nat
  maxEntries : Nat
  protectedMessages : EntryPool := {}
  ordinaryMessages : EntryPool := {}
  tools : EntryPool := {}

namespace TranscriptWindow

def new (entries : List TranscriptEntry) (config : TranscriptRetentionConfig) (messageTokenBudget : Nat) :
    TranscriptWindow where
  entries
  messageTokenBudget
  toolTokenBudget := config.maxToolTranscriptTokens
  maxEntries := config.maxRecentNonUserEntries

def pool (w : TranscriptWindow) : TranscriptEntryKind → Option EntryPool
  | .protectedMessage => some w.protectedMessages
  | .message => some w.ordinaryMessages
  | .tool => some w.tools
  | .user | .manualApproval => none

/-- What is stored through `pool_mut`. -/
def setPool (w : TranscriptWindow) (pool : EntryPool) : TranscriptEntryKind → Option TranscriptWindow
  | .protectedMessage => some { w with protectedMessages := pool }
  | .message => some { w with ordinaryMessages := pool }
  | .tool => some { w with tools := pool }
  | .user | .manualApproval => none

def popOldest (kind : TranscriptEntryKind) (w : TranscriptWindow) : Option TranscriptWindow := do
  w.setPool (← (← w.pool kind).popOldest w.entries) kind

def popTimes (kind : TranscriptEntryKind) : Nat → TranscriptWindow → Option TranscriptWindow
  | 0, w => some w
  | count + 1, w => do popTimes kind count (← w.popOldest kind)

def evictOldest (kind : TranscriptEntryKind) (count : Nat) (w : TranscriptWindow) : Option TranscriptWindow := do
  w.popTimes kind (min count (← w.pool kind).indices.length)

/-! ## Room for the tokens -/

def tokenBudget (w : TranscriptWindow) : TranscriptEntryKind → Option Nat
  | .protectedMessage | .message => some w.messageTokenBudget
  | .tool => some w.toolTokenBudget
  | .user | .manualApproval => none

def retainedTokens (w : TranscriptWindow) : TranscriptEntryKind → Option Nat
  | .protectedMessage | .message => some (saturatingAdd w.protectedMessages.tokens w.ordinaryMessages.tokens)
  | .tool => some w.tools.tokens
  | .user | .manualApproval => none

def evictionOrder : TranscriptEntryKind → Option (List TranscriptEntryKind)
  | .protectedMessage => some [.message, .protectedMessage]
  | .message => some [.message]
  | .tool => some [.tool]
  | .user | .manualApproval => none

section

variable (kind : TranscriptEntryKind) (tokens budget : Nat)

def hasTokenCapacity (w : TranscriptWindow) : Option Bool := do
  return saturatingAdd (← w.retainedTokens kind) tokens ≤ budget

/-- The condition on which the `while` loop stops. -/
def stopsPopping (evictionKind : TranscriptEntryKind) (w : TranscriptWindow) : Option Bool := do
  return (← w.hasTokenCapacity kind tokens budget) || (← w.pool evictionKind).indices.isEmpty

/-- The `while` loop, which can take no more turns than there are entries. -/
def popForCapacity (evictionKind : TranscriptEntryKind) : Nat → TranscriptWindow → Option TranscriptWindow
  | 0, w => do if ← w.stopsPopping kind tokens budget evictionKind then some w else none
  | fuel + 1, w => do
    if ← w.stopsPopping kind tokens budget evictionKind then some w
    else popForCapacity evictionKind fuel (← w.popOldest evictionKind)

def evictInOrder : List TranscriptEntryKind → TranscriptWindow → Option TranscriptWindow
  | [], w => some w
  | evictionKind :: order, w => do
    if ← w.hasTokenCapacity kind tokens budget then some w
    else
      let poolLen := (← w.pool evictionKind).indices.length
      if poolLen = 0 then evictInOrder order w
      else
        let w ← w.evictOldest evictionKind ((poolLen + 1) / 2)
        evictInOrder order (← w.popForCapacity kind tokens budget evictionKind poolLen)

end

def makeRoomForTokenBudget (kind : TranscriptEntryKind) (tokens : Nat) (w : TranscriptWindow) :
    Option (Bool × TranscriptWindow) := do
  let budget ← w.tokenBudget kind
  let protectedTokens := if kind = .message then w.protectedMessages.tokens else 0
  if budget < saturatingAdd protectedTokens tokens then some (false, w)
  else
    let w ← w.evictInOrder kind tokens budget (← evictionOrder kind)
    some (← w.hasTokenCapacity kind tokens budget, w)

/-! ## Room among the entries -/

def retainedCount (w : TranscriptWindow) : Nat :=
  w.protectedMessages.indices.length + w.ordinaryMessages.indices.length + w.tools.indices.length

def minimumExistingTools (kind : TranscriptEntryKind) (w : TranscriptWindow) : Nat :=
  min minRecentToolEntries (w.maxEntries - 1) - if kind = .tool then 1 else 0

def removableCount (kind : TranscriptEntryKind) (w : TranscriptWindow) : Nat :=
  w.ordinaryMessages.indices.length + (w.tools.indices.length - w.minimumExistingTools kind)

/-- The pool of the oldest entry that may go. -/
def oldestEvidence (reserved : Nat) (w : TranscriptWindow) : Option TranscriptEntryKind :=
  let oldestTool := if reserved < w.tools.indices.length then w.tools.indices.head? else none
  match w.ordinaryMessages.indices.head?, oldestTool with
  | some message, some tool => if message < tool then some .message else some .tool
  | none, some _ => some .tool
  | some _, none => some .message
  | none, none => none

def evictEvidence (reserved : Nat) : Nat → TranscriptWindow → Option TranscriptWindow
  | 0, w => some w
  | count + 1, w => do evictEvidence reserved count (← w.popOldest (← w.oldestEvidence reserved))

def makeRoomForEntryLimit (kind : TranscriptEntryKind) (w : TranscriptWindow) : Option (Bool × TranscriptWindow) :=
  if w.retainedCount < w.maxEntries then some (true, w)
  else if 0 < w.removableCount kind then do
    let evidenceCount := w.ordinaryMessages.indices.length + w.tools.indices.length
    some (true, ← w.evictEvidence (w.minimumExistingTools kind) (min ((evidenceCount + 1) / 2) (w.removableCount kind)))
  else if kind = .protectedMessage || kind = .tool then do
    some (true, ← w.evictOldest .protectedMessage ((w.protectedMessages.indices.length + 1) / 2))
  else some (false, w)

/-! ## Insertion -/

/-- Whether the entry was pushed, and what is left of the window either way. -/
def insert (index : Nat) (w : TranscriptWindow) : Option (Bool × TranscriptWindow) := do
  let entry ← w.entries[index]?
  if entry.kind = .user || entry.kind = .manualApproval || w.maxEntries = 0 then some (false, w)
  else
    let (hasTokens, w) ← w.makeRoomForTokenBudget entry.kind entry.tokens
    if !hasTokens then some (false, w)
    else
      let (hasPlace, w) ← w.makeRoomForEntryLimit entry.kind
      if !hasPlace then some (false, w)
      else some (true, ← w.setPool (← (← w.pool entry.kind).push index entry.tokens) entry.kind)

/-- The first entries inserted in order, with the indices that were accepted. -/
def insertAll (w : TranscriptWindow) : Nat → Option (List Nat × TranscriptWindow)
  | 0 => some ([], w)
  | n + 1 => do
    let (accepted, w) ← w.insertAll n
    let (ok, w) ← w.insert n
    some (if ok then accepted ++ [n] else accepted, w)

/-! ## Windows that count exactly -/

open Function (update update_self update_of_ne)

abbrev Pools := TranscriptEntryKind → List Nat

def tokensAt (entries : List TranscriptEntry) (indices : List Nat) : Nat :=
  (indices.map fun i => entries[i]?.elim 0 (·.tokens)).sum

/-- The window with these indices in its pools, counted exactly. -/
def holding (w : TranscriptWindow) (f : Pools) : TranscriptWindow :=
  { w with
    protectedMessages := ⟨f .protectedMessage, tokensAt w.entries (f .protectedMessage)⟩
    ordinaryMessages := ⟨f .message, tokensAt w.entries (f .message)⟩
    tools := ⟨f .tool, tokensAt w.entries (f .tool)⟩ }

def Pooled (kind : TranscriptEntryKind) : Prop := kind ≠ .user ∧ kind ≠ .manualApproval

lemma Pooled.cases (h : Pooled kind) : kind = .protectedMessage ∨ kind = .message ∨ kind = .tool := by
  cases kind <;> simp_all [Pooled]

def InRange (w : TranscriptWindow) (f : Pools) : Prop :=
  ∀ kind, ∀ i ∈ f kind, i < w.entries.length

def count (f : Pools) : Nat := (f .protectedMessage).length + (f .message).length + (f .tool).length

/-- Only the oldest entries of some pools are gone. -/
structure Shrinks (only : List TranscriptEntryKind) (f g : Pools) : Prop where
  suffix : ∀ kind, g kind <:+ f kind
  same : ∀ kind ∉ only, g kind = f kind

variable {w : TranscriptWindow} {f g : Pools} {kind e : TranscriptEntryKind}
  {only more : List TranscriptEntryKind} {tokens budget : Nat}

lemma Shrinks.refl : Shrinks only f f := ⟨fun _ => suffix_rfl, fun _ _ => rfl⟩

lemma Shrinks.mono (h : Shrinks only f g) (hs : only ⊆ more) : Shrinks more f g :=
  ⟨h.suffix, fun kind hn => h.same kind fun hin => hn (hs hin)⟩

lemma Shrinks.trans (h : Shrinks only f g) (h' : Shrinks only g k) : Shrinks only f k :=
  ⟨fun kind => (h'.suffix kind).trans (h.suffix kind), fun kind hn => (h'.same kind hn).trans (h.same kind hn)⟩

lemma Shrinks.update (h : l <:+ f kind) : Shrinks [kind] f (update f kind l) where
  suffix other := by
    by_cases heq : other = kind
    · subst heq
      rwa [update_self]
    · rw [update_of_ne heq]
  same other hn := update_of_ne (by simpa using hn) _ _

lemma Shrinks.inRange (h : Shrinks only f g) (hin : InRange w f) : InRange w g :=
  fun kind i hi => hin kind i ((h.suffix kind).mem hi)

lemma pool_holding (h : Pooled kind) : (w.holding f).pool kind = some ⟨f kind, tokensAt w.entries (f kind)⟩ := by
  obtain rfl | rfl | rfl := h.cases <;> rfl

lemma setPool_holding (h : Pooled kind) (l : List Nat) :
    (w.holding f).setPool ⟨l, tokensAt w.entries l⟩ kind = some (w.holding (update f kind l)) := by
  obtain rfl | rfl | rfl := h.cases <;> simp [setPool, holding, update]

lemma popOldest_holding (h : Pooled kind) (hin : InRange w f) :
    (w.holding f).popOldest kind = some (w.holding (update f kind (f kind).tail)) := by
  have hp : EntryPool.popOldest ⟨f kind, tokensAt w.entries (f kind)⟩ w.entries =
      some ⟨(f kind).tail, tokensAt w.entries (f kind).tail⟩ := by
    rcases hf : f kind with _ | ⟨i, l⟩
    · rfl
    have hlt : i < w.entries.length := hin kind i (hf ▸ mem_cons_self)
    simp [EntryPool.popOldest, tokensAt, getElem?_eq_getElem hlt]
  unfold popOldest
  rw [pool_holding h]
  show (EntryPool.popOldest _ w.entries).bind _ = _
  rw [hp]
  exact setPool_holding h _

lemma popTimes_holding (h : Pooled kind) (hin : InRange w f) (count : Nat) :
    (w.holding f).popTimes kind count = some (w.holding (update f kind ((f kind).drop count))) := by
  induction count generalizing f with
  | zero => simp [popTimes]
  | succ count ih =>
    unfold popTimes
    rw [popOldest_holding h hin]
    show popTimes kind count _ = _
    rw [ih ((Shrinks.update (tail_suffix _)).inRange hin)]
    simp

lemma evictOldest_holding (h : Pooled kind) (hin : InRange w f) (count : Nat) :
    (w.holding f).evictOldest kind count =
      some (w.holding (update f kind ((f kind).drop (min count (f kind).length)))) := by
  unfold evictOldest
  rw [pool_holding h]
  exact popTimes_holding h hin _

/-! ## Tokens -/

/-- The tokens that count against the budget of the kind. -/
def used (w : TranscriptWindow) (kind : TranscriptEntryKind) (f : Pools) : Nat :=
  if kind = .tool then tokensAt w.entries (f .tool)
  else tokensAt w.entries (f .protectedMessage) + tokensAt w.entries (f .message)

lemma saturatingAdd_le (h : budget < usizeMax) : saturatingAdd a b ≤ budget ↔ a + b ≤ budget := by
  unfold saturatingAdd
  omega

lemma hasTokenCapacity_holding (h : Pooled kind) (hb : budget < usizeMax) :
    (w.holding f).hasTokenCapacity kind tokens budget = some (decide (w.used kind f + tokens ≤ budget)) := by
  have hs : ∀ a b, saturatingAdd (saturatingAdd a b) tokens ≤ budget ↔ a + b + tokens ≤ budget := by
    intro a b
    rw [saturatingAdd_le hb]
    unfold saturatingAdd
    omega
  obtain rfl | rfl | rfl := h.cases
  · simp [hasTokenCapacity, retainedTokens, holding, used, hs]
  · simp [hasTokenCapacity, retainedTokens, holding, used, hs]
  · simp [hasTokenCapacity, retainedTokens, holding, used, saturatingAdd_le hb]

section

variable (h : Pooled kind) (hb : budget < usizeMax)

include h hb

lemma stopsPopping_holding (he : Pooled e) :
    (w.holding f).stopsPopping kind tokens budget e =
      some (decide (w.used kind f + tokens ≤ budget) || (f e).isEmpty) := by
  unfold stopsPopping
  rw [hasTokenCapacity_holding h hb, pool_holding he]
  rfl

lemma popForCapacity_holding (he : Pooled e) (hin : InRange w f) (hl : (f e).length ≤ fuel) :
    ∃ g, (w.holding f).popForCapacity kind tokens budget e fuel = some (w.holding g) ∧
      Shrinks [e] f g ∧ (w.used kind g + tokens ≤ budget ∨ g e = []) := by
  induction fuel generalizing f with
  | zero =>
    have hn := length_eq_zero_iff.mp (Nat.le_zero.mp hl)
    exact ⟨f, by simp [popForCapacity, stopsPopping_holding h hb he, hn], .refl, .inr hn⟩
  | succ fuel ih => ?_
  by_cases hs : w.used kind f + tokens ≤ budget ∨ f e = []
  · refine ⟨f, ?_, .refl, hs⟩
    have : (decide (w.used kind f + tokens ≤ budget) || (f e).isEmpty) = true := by simpa using hs
    simp [popForCapacity, stopsPopping_holding h hb he, this]
  have hgo : (decide (w.used kind f + tokens ≤ budget) || (f e).isEmpty) = false := by
    simpa [not_or] using hs
  have ht : Shrinks [e] f (update f e (f e).tail) := .update (tail_suffix _)
  obtain ⟨g, hg, hsh, hen⟩ := ih (ht.inRange hin) (by
    rw [update_self, length_tail]
    omega)
  refine ⟨g, ?_, ht.trans hsh, hen⟩
  rw [← hg]
  simp [popForCapacity, stopsPopping_holding h hb he, hgo, popOldest_holding he hin]

lemma evictInOrder_of_capacity (hc : w.used kind f + tokens ≤ budget) :
    (w.holding f).evictInOrder kind tokens budget order = some (w.holding f) := by
  cases order <;> simp [evictInOrder, hasTokenCapacity_holding h hb, hc]

/-- Each pool of the order is emptied, or there is room before. -/
lemma evictInOrder_holding (ho : ∀ e ∈ order, Pooled e) (hin : InRange w f) :
    ∃ g, (w.holding f).evictInOrder kind tokens budget order = some (w.holding g) ∧ Shrinks order f g ∧
      (w.used kind g + tokens ≤ budget ∨ ∀ e ∈ order, g e = []) := by
  induction order generalizing f with
  | nil => exact ⟨f, rfl, .refl, .inr (by simp)⟩
  | cons e order ih => ?_
  by_cases hc : w.used kind f + tokens ≤ budget
  · exact ⟨f, evictInOrder_of_capacity h hb hc, .refl, .inl hc⟩
  have he := ho e mem_cons_self
  have hr : ∀ other ∈ order, Pooled other := fun other ho' => ho other (mem_cons_of_mem _ ho')
  obtain ⟨k, hk, hfk, hen⟩ : ∃ k, (w.holding f).evictInOrder kind tokens budget (e :: order) =
      (w.holding k).evictInOrder kind tokens budget order ∧ Shrinks [e] f k ∧
      (w.used kind k + tokens ≤ budget ∨ k e = []) := by
    by_cases hn : f e = []
    · exact ⟨f, by simp [evictInOrder, hasTokenCapacity_holding h hb, hc, pool_holding he, hn], .refl, .inr hn⟩
    have hd : Shrinks [e] f (update f e ((f e).drop
        (min (((f e).length + 1) / 2) (f e).length))) := .update (drop_suffix _ _)
    obtain ⟨k, hk, hfk, hen⟩ := popForCapacity_holding h hb he (hd.inRange hin) (hd.suffix e).length_le
    refine ⟨k, ?_, hd.trans hfk, hen⟩
    simp only [evictInOrder, hasTokenCapacity_holding h hb, pool_holding he, evictOldest_holding he hin]
    simp [hc, hn, hk]
  rcases hen with hen | hen
  · exact ⟨k, hk.trans (evictInOrder_of_capacity h hb hen), hfk.mono (by simp), .inl hen⟩
  obtain ⟨g, hg, hkg, hou⟩ := ih hr (hfk.inRange hin)
  refine ⟨g, hk.trans hg, (hfk.mono (by simp)).trans (hkg.mono (by simp)), hou.imp_right fun ha => ?_⟩
  exact forall_mem_cons.mpr ⟨suffix_nil.mp (hen ▸ hkg.suffix e), ha⟩

omit hb in
/-- A refusal changes nothing: it comes before any eviction. -/
lemma makeRoomForTokenBudget_holding (hin : InRange w f) (hk : w.tokenBudget kind = some budget)
    (hb : budget < usizeMax) :
    ∃ ok g, (w.holding f).makeRoomForTokenBudget kind tokens = some (ok, w.holding g) ∧ (ok = false → g = f) ∧
      (ok → (∀ only, evictionOrder kind = some only → Shrinks only f g) ∧ w.used kind g + tokens ≤ budget) := by
  have hbu : (w.holding f).tokenBudget kind = some budget := hk
  unfold makeRoomForTokenBudget
  rw [hbu]
  simp only [Option.bind_eq_bind, Option.bind_some]
  by_cases hf : budget < saturatingAdd (if kind = .message then (w.holding f).protectedMessages.tokens else 0) tokens
  · exact ⟨false, f, if_pos hf, fun _ => rfl, by simp⟩
  rw [if_neg hf]
  rw [not_lt, saturatingAdd_le hb] at hf
  obtain ⟨only, ho, hp, hl⟩ : ∃ only, evictionOrder kind = some only ∧ (∀ k ∈ only, Pooled k) ∧
      ∀ g, Shrinks only f g → (∀ k ∈ only, g k = []) → w.used kind g + tokens ≤ budget := by
    obtain rfl | rfl | rfl := h.cases
    · exact ⟨_, rfl, by simp [Pooled], fun g _ hn => by simpa [used, hn, tokensAt] using hf⟩
    · refine ⟨_, rfl, by simp [Pooled], fun g hg hn => ?_⟩
      simpa [used, hn, tokensAt, hg.same .protectedMessage, holding] using hf
    · exact ⟨_, rfl, by simp [Pooled], fun g _ hn => by simpa [used, hn, tokensAt] using hf⟩
  obtain ⟨g, hg, hs, he⟩ := evictInOrder_holding h hb hp hin
  have hc : w.used kind g + tokens ≤ budget := he.elim id (hl g hs)
  refine ⟨true, g, ?_, by simp, fun _ => ⟨fun other hoth => ?_, hc⟩⟩
  · simp [ho, hg, hasTokenCapacity_holding h hb, hc]
  · rw [ho] at hoth
    cases hoth
    exact hs

end

/-! ## Entries -/

lemma Shrinks.count_le (h : Shrinks only f g) : count g ≤ count f :=
  Nat.add_le_add (Nat.add_le_add (h.suffix _).length_le (h.suffix _).length_le) (h.suffix _).length_le

/-- It is an ordinary message, or a tool that is not reserved. -/
lemma oldestEvidence_holding (h : 0 < (f .message).length + ((f .tool).length - reserved)) :
    ∃ kind, (w.holding f).oldestEvidence reserved = some kind ∧
      (kind = .message ∧ 0 < (f .message).length ∨ kind = .tool ∧ reserved < (f .tool).length) := by
  unfold oldestEvidence holding
  by_cases ht : reserved < (f .tool).length
  · obtain ⟨tool, tools, hto⟩ := exists_cons_of_length_pos (Nat.zero_lt_of_lt ht)
    simp only [if_pos ht]
    rcases hm : f .message with _ | ⟨message, messages⟩
    · exact ⟨.tool, by simp [hto], .inr ⟨rfl, ht⟩⟩
    by_cases hlt : message < tool
    · exact ⟨.message, by simp [hto, hlt], .inl ⟨rfl, by simp⟩⟩
    · exact ⟨.tool, by simp [hto, hlt], .inr ⟨rfl, ht⟩⟩
  · obtain ⟨message, messages, hm⟩ := exists_cons_of_length_pos (show 0 < (f .message).length by omega)
    exact ⟨.message, by simp [ht, hm], .inl ⟨rfl, by simp [hm]⟩⟩

lemma evictEvidence_holding (hin : InRange w f) (hn : n ≤ (f .message).length + ((f .tool).length - reserved)) :
    ∃ g, (w.holding f).evictEvidence reserved n = some (w.holding g) ∧ Shrinks [.message, .tool] f g ∧
      count g + n = count f ∧
      min (f .tool).length reserved ≤ (g .tool).length := by
  induction n generalizing f with
  | zero => exact ⟨f, rfl, .refl, rfl, min_le_left _ _⟩
  | succ n ih => ?_
  obtain ⟨kind, ho, hk⟩ := @oldestEvidence_holding w f reserved (by omega)
  have hp : Pooled kind := by
    rcases hk with ⟨rfl, -⟩ | ⟨rfl, -⟩ <;> simp [Pooled]
  have hs : Shrinks [kind] f (update f kind (f kind).tail) := .update (tail_suffix _)
  have hon : count (update f kind (f kind).tail) + 1 = count f ∧
      n ≤ (update f kind (f kind).tail .message).length +
        ((update f kind (f kind).tail .tool).length - reserved) ∧
      min (f .tool).length reserved ≤ (update f kind (f kind).tail .tool).length := by
    rcases hk with ⟨rfl, hpo⟩ | ⟨rfl, hlt⟩ <;> simp [count, update] <;> omega
  obtain ⟨g, hg, hsg, hc, ht⟩ := ih (hs.inRange hin) hon.2.1
  refine ⟨g, ?_, (hs.mono ?_).trans hsg, by omega, by omega⟩
  · simp [evictEvidence, ho, popOldest_holding hp hin, hg]
  · rcases hk with ⟨rfl, -⟩ | ⟨rfl, -⟩ <;> simp

/-- Only an ordinary message can be refused, by a window that is full. -/
lemma makeRoomForEntryLimit_holding (hm : w.maxEntries ≠ 0) (hin : InRange w f)
    (hc : count f ≤ w.maxEntries) :
    ∃ ok g, (w.holding f).makeRoomForEntryLimit kind = some (ok, w.holding g) ∧ (∀ other, g other <:+ f other) ∧
      (ok = false → g = f ∧ count f = w.maxEntries) ∧
      (ok → count g < w.maxEntries) ∧
      (kind = .message → g .protectedMessage = f .protectedMessage) ∧
      (kind ≠ .tool → min (f .tool).length (min minRecentToolEntries (w.maxEntries - 1)) ≤ (g .tool).length) := by
  unfold makeRoomForEntryLimit
  by_cases hr : (w.holding f).retainedCount < (w.holding f).maxEntries
  · exact ⟨true, f, if_pos hr, fun _ => suffix_rfl, by simp, fun _ => hr, fun _ => rfl, fun _ => min_le_left _ _⟩
  have hf : count f = w.maxEntries := le_antisymm hc (not_lt.mp hr)
  rw [if_neg hr]
  by_cases hp : 0 < (w.holding f).removableCount kind
  · rw [if_pos hp]
    obtain ⟨g, hg, hs, hn, ht⟩ := @evictEvidence_holding w f
      (min (((f .message).length + (f .tool).length + 1) / 2) ((w.holding f).removableCount kind))
      ((w.holding f).minimumExistingTools kind) hin (min_le_right _ _)
    refine ⟨true, g, congrArg (Option.bind · _) hg, hs.suffix, by simp, fun _ => ?_, fun _ => hs.same _ (by simp),
      fun hne => ?_⟩
    · have : 0 < (f .message).length + (f .tool).length := by
        unfold removableCount at hp
        exact hp.trans_le (Nat.add_le_add_left (Nat.sub_le _ _) _)
      omega
    · rwa [minimumExistingTools, if_neg hne] at ht
  rw [if_neg hp]
  by_cases hk : kind = .protectedMessage ∨ kind = .tool
  · rw [if_pos (by simpa using hk), evictOldest_holding (by simp [Pooled]) hin]
    refine ⟨true, _, rfl, (Shrinks.update (drop_suffix _ _)).suffix, by simp, fun _ => ?_, ?_, fun _ => ?_⟩
    · -- What is reserved leaves a place, so there is a protected message to evict.
      have hle : (w.holding f).minimumExistingTools kind ≤ w.maxEntries - 1 := (Nat.sub_le _ _).trans (min_le_right _ _)
      have hp : ¬ 0 < (f .message).length + ((f .tool).length - (w.holding f).minimumExistingTools kind) := hp
      unfold count at hf ⊢
      simp only [update, reduceCtorEq, eq_rec_constant, dite_eq_ite, if_true, if_false, length_drop]
      show (f .protectedMessage).length - min (((f .protectedMessage).length + 1) / 2) _ + _ + _ < _
      omega
    · rintro rfl
      simp at hk
    · exact min_le_left _ _
  · rw [if_neg (by simpa using hk)]
    exact ⟨false, f, rfl, fun _ => suffix_rfl, fun _ => ⟨rfl, hf⟩, by simp, fun _ => rfl, fun _ => min_le_left _ _⟩

/-! ## One insertion -/

variable {entry : TranscriptEntry}

lemma tokensAt_concat (h : w.entries[n]? = some entry) (l : List Nat) :
    tokensAt w.entries (l ++ [n]) = tokensAt w.entries l + entry.tokens := by
  simp [tokensAt, h]

lemma tokensAt_le_of_suffix (h : l <:+ l') : tokensAt w.entries l ≤ tokensAt w.entries l' := by
  obtain ⟨before, rfl⟩ := h
  simp [tokensAt]

lemma used_le_of_suffix (h : ∀ other, g other <:+ f other) : w.used kind g ≤ w.used kind f := by
  unfold used
  split
  · exact tokensAt_le_of_suffix (h _)
  · exact Nat.add_le_add (tokensAt_le_of_suffix (h _)) (tokensAt_le_of_suffix (h _))

lemma used_push (hk : Pooled entry.kind) (he : w.entries[n]? = some entry) :
    w.used entry.kind (update f entry.kind (f entry.kind ++ [n])) =
      w.used entry.kind f + entry.tokens := by
  unfold used
  rcases hk.cases with hki | hki | hki
  · simp [hki, update, tokensAt_concat he]
    omega
  · simp [hki, update, tokensAt_concat he, Nat.add_assoc]
  · simp [hki, tokensAt_concat he]

lemma count_push (h : Pooled kind) :
    count (update f kind (f kind ++ [n])) = count f + 1 := by
  obtain rfl | rfl | rfl := h.cases <;> simp [count, update] <;> omega

lemma evictionOrder_eq_some (h : Pooled kind) : ∃ only, evictionOrder kind = some only ∧ (∀ k ∈ only, Pooled k) ∧
    (kind ≠ .tool → .tool ∉ only) ∧ (kind = .message → .protectedMessage ∉ only) := by
  obtain rfl | rfl | rfl := h.cases <;> exact ⟨_, rfl, by simp [Pooled]⟩

lemma Shrinks.eq_of_count (h : Shrinks only f g) (hp : ∀ k ∈ only, Pooled k)
    (hc : count f ≤ count g) : g = f := by
  unfold count at hc
  have hl := fun kind => (h.suffix kind).length_le
  have hp' := hl .protectedMessage
  have hm := hl .message
  have ht := hl .tool
  funext kind
  cases kind with
  | user => exact h.same _ fun hin => (hp _ hin).1 rfl
  | manualApproval => exact h.same _ fun hin => (hp _ hin).2 rfl
  | protectedMessage | message | tool => exact (h.suffix _).eq_of_length (by omega)

lemma tokensAt_le_used (h : Pooled kind) : tokensAt w.entries (f kind) ≤ w.used kind f := by
  obtain rfl | rfl | rfl := h.cases <;> simp [used]

/-- The entry is pushed after others made room for it. -/
structure Accepts (w : TranscriptWindow) (n : Nat) (entry : TranscriptEntry) (f g : Pools) :
    Prop where
  pooled : Pooled entry.kind
  other : ∀ kind ≠ entry.kind, g kind <:+ f kind
  pushed : ∃ l, l <:+ f entry.kind ∧ g entry.kind = l ++ [n]
  tokens : ∀ budget ∈ w.tokenBudget entry.kind, w.used entry.kind g ≤ budget
  limit : count g ≤ w.maxEntries

lemma insert_holding (hin : InRange w f) (hc : count f ≤ w.maxEntries)
    (hb : ∀ kind, ∀ budget ∈ w.tokenBudget kind, budget < usizeMax) (he : w.entries[n]? = some entry) :
    ∃ ok g, (w.holding f).insert n = some (ok, w.holding g) ∧ (ok = false → g = f) ∧ (ok → Accepts w n entry f g) ∧
      (entry.kind = .message → g .protectedMessage = f .protectedMessage) ∧
      (entry.kind ≠ .tool → g .tool <:+ f .tool ∧
        min (f .tool).length (min minRecentToolEntries (w.maxEntries - 1)) ≤ (g .tool).length) := by
  have he' : (w.holding f).entries[n]? = some entry := he
  unfold insert
  rw [he']
  simp only [Option.bind_eq_bind, Option.bind_some]
  by_cases hsk : entry.kind = .user ∨ entry.kind = .manualApproval ∨ (w.holding f).maxEntries = 0
  · refine ⟨false, f, if_pos ?_, by simp, by simp, fun _ => rfl, fun _ => ⟨suffix_rfl, min_le_left _ _⟩⟩
    simpa [or_assoc] using hsk
  rw [if_neg (by simpa [or_assoc] using hsk)]
  simp only [not_or] at hsk
  have hk : Pooled entry.kind := ⟨hsk.1, hsk.2.1⟩
  obtain ⟨only, ho, hpo, hto, hp⟩ := evictionOrder_eq_some hk
  obtain ⟨budget, hbu⟩ : ∃ budget, w.tokenBudget entry.kind = some budget := by
    rcases hk.cases with hki | hki | hki <;> simp [tokenBudget, hki]
  obtain ⟨ok, g, hg, hsa, hok⟩ := makeRoomForTokenBudget_holding hk hin hbu (hb _ _ hbu)
  rw [hg]
  cases ok with
  | false =>
    obtain rfl := hsa rfl
    exact ⟨false, g, rfl, by simp, by simp, fun _ => rfl, fun _ => ⟨suffix_rfl, min_le_left _ _⟩⟩
  | true => ?_
  obtain ⟨hs, ht⟩ := hok rfl
  have hs := hs only ho
  obtain ⟨ok, k, hk', hsu, hf, hro, hme, hr⟩ :=
    @makeRoomForEntryLimit_holding w g entry.kind hsk.2.2 (hs.inRange hin) (hs.count_le.trans hc)
  simp only [Option.bind_some, Bool.not_true, Bool.false_eq_true, if_false, hk']
  cases ok with
  | false =>
    -- A full window was full before, so no tokens had to make room.
    obtain ⟨rfl, hf⟩ := hf rfl
    obtain rfl := hs.eq_of_count hpo (hc.trans_eq hf.symm)
    exact ⟨false, k, rfl, by simp, by simp, fun _ => rfl, fun _ => ⟨suffix_rfl, min_le_left _ _⟩⟩
  | true => ?_
  have hle : w.used entry.kind k + entry.tokens ≤ budget :=
    (Nat.add_le_add_right (used_le_of_suffix hsu) _).trans ht
  have hpu : EntryPool.push ⟨k entry.kind, tokensAt w.entries (k entry.kind)⟩ n entry.tokens =
      some ⟨k entry.kind ++ [n], tokensAt w.entries (k entry.kind ++ [n])⟩ := by
    have := @tokensAt_le_used w k _ hk
    have := hb _ _ hbu
    rw [tokensAt_concat he]
    exact if_pos (by
      show tokensAt w.entries (k entry.kind) + entry.tokens ≤ usizeMax
      omega)
  refine ⟨true, update k entry.kind (k entry.kind ++ [n]), ?_, by simp, fun _ => ⟨hk, ?_, ?_, ?_, ?_⟩, ?_, ?_⟩
  · simp [pool_holding hk, hpu, setPool_holding hk]
  · intro kind hne
    rw [update_of_ne hne]
    exact (hsu kind).trans (hs.suffix kind)
  · exact ⟨k entry.kind, (hsu _).trans (hs.suffix _), update_self _ _ _⟩
  · intro other hoth
    rw [hbu] at hoth
    cases hoth
    rwa [used_push hk he]
  · have := hro rfl
    rw [count_push hk]
    omega
  · intro hm
    rw [update_of_ne (by simp [hm]), hme hm, hs.same _ (hp hm)]
  · intro hne
    rw [update_of_ne (Ne.symm hne), ← hs.same _ (hto hne)]
    exact ⟨hsu _, hr hne⟩

/-! ## All insertions -/

def ofKind (entries : List TranscriptEntry) (kind : TranscriptEntryKind) (i : Nat) : Bool :=
  entries[i]?.any (·.kind = kind)

structure Kept (w : TranscriptWindow) (n : Nat) (accepted : List Nat) (f : Pools) : Prop where
  order : accepted <+ range n
  suffix : ∀ kind, f kind <:+ accepted.filter (ofKind w.entries kind)
  messages : tokensAt w.entries (f .protectedMessage) + tokensAt w.entries (f .message) ≤ w.messageTokenBudget
  tools : tokensAt w.entries (f .tool) ≤ w.toolTokenBudget
  limit : count f ≤ w.maxEntries

variable {accepted : List Nat}

lemma Kept.inRange (h : Kept w n accepted f) (hn : n ≤ w.entries.length) : InRange w f := by
  intro kind i hi
  have := mem_range.mp (h.order.mem (mem_filter.mp ((h.suffix kind).mem hi)).1)
  omega

lemma Kept.refuse (h : Kept w n accepted f) : Kept w (n + 1) accepted f :=
  { h with order := h.order.trans (range_sublist.mpr (Nat.le_succ n)) }

lemma Kept.accept (h : Kept w n accepted f) (he : w.entries[n]? = some entry) (ha : Accepts w n entry f g) :
    Kept w (n + 1) (accepted ++ [n]) g where
  order := by
    rw [range_succ]
    exact h.order.append_right [n]
  suffix kind := by
    rw [filter_append]
    by_cases hk : kind = entry.kind
    · subst hk
      obtain ⟨l, hl, heq⟩ := ha.pushed
      obtain ⟨before, hbe⟩ := hl.trans (h.suffix entry.kind)
      rw [heq, ← hbe, filter_cons_of_pos (by simp [ofKind, he]), filter_nil, append_assoc]
      exact suffix_append _ _
    · rw [filter_cons_of_neg (by simp [ofKind, he, Ne.symm hk]), filter_nil, append_nil]
      exact (ha.other kind hk).trans (h.suffix kind)
  messages := by
    have hle := ha.tokens
    rcases ha.pooled.cases with hk | hk | hk
    · simpa [hk, used, tokenBudget] using hle
    · simpa [hk, used, tokenBudget] using hle
    · exact (Nat.add_le_add (tokensAt_le_of_suffix (ha.other _ (by simp [hk])))
        (tokensAt_le_of_suffix (ha.other _ (by simp [hk])))).trans h.messages
  tools := by
    by_cases hk : entry.kind = .tool
    · simpa [hk, used, tokenBudget] using ha.tokens
    · exact (tokensAt_le_of_suffix (ha.other _ (Ne.symm hk))).trans h.tools
  limit := ha.limit

lemma insertAll_holding (hb : ∀ kind, ∀ budget ∈ w.tokenBudget kind, budget < usizeMax)
    (hs : w.holding (fun _ => []) = w) (hn : n ≤ w.entries.length) :
    ∃ accepted f, w.insertAll n = some (accepted, w.holding f) ∧ Kept w n accepted f := by
  induction n with
  | zero =>
    refine ⟨[], fun _ => [], ?_, nil_sublist _, fun _ => nil_suffix, ?_, ?_, ?_⟩
    · rw [hs]
      rfl
    all_goals exact Nat.zero_le _
  | succ n ih =>
    obtain ⟨accepted, f, hr, hk⟩ := ih (by omega)
    obtain ⟨ok, g, hg, hsa, hok, -⟩ := insert_holding (hk.inRange (by omega)) hk.limit hb
      (getElem?_eq_getElem (show n < w.entries.length by omega))
    refine ⟨if ok then accepted ++ [n] else accepted, g, by simp [insertAll, hr, hg], ?_⟩
    cases ok with
    | false =>
      rw [hsa rfl]
      exact hk.refuse
    | true => exact hk.accept (getElem?_eq_getElem (by omega)) (hok rfl)

/-- With budgets below the greatest number the pools are counted exactly and keep to the bounds, and the next
insertion goes through and keeps what is protected. -/
theorem window_keeps_bounds (entries : List TranscriptEntry) (config : TranscriptRetentionConfig)
    (messageTokenBudget n : Nat) (hm : messageTokenBudget < usizeMax) (ht : config.maxToolTranscriptTokens < usizeMax)
    (hn : n ≤ entries.length) :
    ∃ accepted w, (new entries config messageTokenBudget).insertAll n = some (accepted, w) ∧
      (∀ kind pool, w.pool kind = some pool → pool.indices.Pairwise (· < ·) ∧
        pool.indices <:+ accepted.filter (ofKind entries kind) ∧ pool.tokens = tokensAt entries pool.indices) ∧
      w.protectedMessages.tokens + w.ordinaryMessages.tokens ≤ messageTokenBudget ∧
      w.tools.tokens ≤ config.maxToolTranscriptTokens ∧
      w.protectedMessages.indices.length + w.ordinaryMessages.indices.length + w.tools.indices.length ≤
        config.maxRecentNonUserEntries ∧
      ∀ entry, entries[n]? = some entry → ∃ ok w', w.insert n = some (ok, w') ∧ (ok = false → w' = w) ∧
        (entry.kind = .message → ∀ i ∈ w.protectedMessages.indices, i ∈ w'.protectedMessages.indices) ∧
        (entry.kind ≠ .tool → ∀ i ∈ w.tools.indices.drop (w.tools.indices.length -
          min minRecentToolEntries (config.maxRecentNonUserEntries - 1)), i ∈ w'.tools.indices) := by
  have hb : ∀ kind, ∀ budget ∈ (new entries config messageTokenBudget).tokenBudget kind, budget < usizeMax := by
    intro kind budget hbu
    cases kind <;> simp [tokenBudget, new] at hbu <;> omega
  obtain ⟨accepted, f, hr, hke⟩ := insertAll_holding hb rfl hn
  refine ⟨accepted, _, hr, ?_, hke.messages, hke.tools, hke.limit, ?_⟩
  · intro kind pool hp
    have hpo : Pooled kind := by
      constructor <;> rintro rfl <;> cases hp
    rw [pool_holding hpo] at hp
    cases hp
    refine ⟨?_, hke.suffix kind, rfl⟩
    exact pairwise_lt_range.sublist (((hke.suffix kind).sublist.trans filter_sublist).trans hke.order)
  intro entry he
  obtain ⟨ok, g, hg, hs, -, hme, hto⟩ := insert_holding (hke.inRange hn) hke.limit hb he
  refine ⟨ok, _, hg, fun hf => by rw [hs hf], fun hk i hi => ?_, fun hk i hi => ?_⟩
  · show i ∈ g .protectedMessage
    rw [hme hk]
    exact hi
  · obtain ⟨⟨before, hbe⟩, hl⟩ := hto hk
    show i ∈ g .tool
    change i ∈ (f .tool).drop ((f .tool).length - min minRecentToolEntries (config.maxRecentNonUserEntries - 1)) at hi
    change min _ (min minRecentToolEntries (config.maxRecentNonUserEntries - 1)) ≤ _ at hl
    rw [← hbe, length_append] at hi hl
    rw [drop_append, drop_eq_nil_of_le (by omega), nil_append] at hi
    exact mem_of_mem_drop hi

theorem next_message_keeps_tool : ∃ accepted w, (new [⟨.tool, 2⟩, ⟨.message, 3⟩, ⟨.message, 3⟩] ⟨4, 2⟩ 4).insertAll 2 =
    some (accepted, w) ∧ ∃ ok w', w.insert 2 = some (ok, w') ∧
      ∀ i ∈ w.tools.indices.drop (w.tools.indices.length - 1), i ∈ w'.tools.indices := by
  obtain ⟨accepted, w, hr, -, -, -, -, hn⟩ := window_keeps_bounds
    [⟨.tool, 2⟩, ⟨.message, 3⟩, ⟨.message, 3⟩] ⟨4, 2⟩ 4 2 (by decide) (by decide) (by decide)
  obtain ⟨ok, w', hi, -, -, ht⟩ := hn ⟨.message, 3⟩ rfl
  exact ⟨accepted, w, hr, ok, w', hi, ht (by decide)⟩

/-- Under the greatest budget the saturated sum still fits, and the count of the pool overflows. -/
theorem greatest_budget_overflows :
    (new [⟨.message, usizeMax⟩, ⟨.message, 1⟩] ⟨0, 2⟩ usizeMax).insertAll 2 = none := rfl

end TranscriptWindow

end Codex.Guardian
