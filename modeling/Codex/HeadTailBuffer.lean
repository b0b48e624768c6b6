import Mathlib

/-!
# A capped buffer that keeps a head and a tail

Half of the budget `m` holds the first bytes, the other half the newest ones. A buffer built from
chunks and from other buffers is the summary of all their bytes in order.
-/

namespace Codex

def usizeMax : Nat := 2 ^ 64 - 1

def saturatingAdd (a b : Nat) : Nat := min (a + b) usizeMax

structure HeadTailBuffer where
  head : List UInt8 := []
  tail : List UInt8 := []
  omittedBytes : Nat := 0

namespace HeadTailBuffer

open List

variable (m : Nat)

def headBudget : Nat := m / 2

def tailBudget : Nat := m - headBudget m

def retainedBytes (b : HeadTailBuffer) : Nat := saturatingAdd b.head.length b.tail.length

def totalBytes (b : HeadTailBuffer) : Nat := saturatingAdd b.retainedBytes b.omittedBytes

def toBytes (b : HeadTailBuffer) : List UInt8 := b.head ++ b.tail

def fillHead (b : HeadTailBuffer) (chunk : List UInt8) : HeadTailBuffer × List UInt8 :=
  let remainingHead := headBudget m - b.head.length
  ({ b with head := b.head ++ chunk.take remainingHead }, chunk.drop remainingHead)

def pushTail (b : HeadTailBuffer) (chunk : List UInt8) : HeadTailBuffer :=
  let remainingTail := tailBudget m - b.tail.length
  let excessTail := chunk.length - remainingTail
  { b with
    -- old tail bytes are discarded first, then the excess of the chunk is skipped
    tail := if excessTail < b.tail.length then b.tail.drop excessTail ++ chunk
      else chunk.drop (excessTail - b.tail.length)
    omittedBytes := saturatingAdd b.omittedBytes excessTail }

def pushChunk (b : HeadTailBuffer) (chunk : List UInt8) : HeadTailBuffer :=
  let (b, chunk) := b.fillHead m chunk
  b.pushTail m chunk

/-- `wrap` is where the source's ring wraps: its tail is read as the two slices before and after. -/
def pushBuffer (b buffer : HeadTailBuffer) (wrap : Nat) : HeadTailBuffer :=
  let b := { b with omittedBytes := saturatingAdd b.omittedBytes buffer.omittedBytes }
  let (b, overflow) := if b.head.isEmpty then ({ b with head := buffer.head }, [])
    else b.fillHead m buffer.head
  if buffer.tail.length = tailBudget m then
    { b with
      omittedBytes := saturatingAdd (saturatingAdd b.omittedBytes b.tail.length) overflow.length
      tail := buffer.tail }
  else
    let b := b.pushTail m overflow
    if b.tail.isEmpty then { b with tail := buffer.tail }
    else (b.pushTail m (buffer.tail.take wrap)).pushTail m (buffer.tail.drop wrap)

/-- How a buffer comes to be: chunks and buffers that were themselves built, in some order. -/
inductive Build where
  | new
  | chunk (before : Build) (bytes : List UInt8)
  | buffer (before source : Build) (wrap : Nat)

def Build.bytes : Build → List UInt8
  | new => []
  | chunk before bytes => before.bytes ++ bytes
  | buffer before source _ => before.bytes ++ source.bytes

def Build.run : Build → HeadTailBuffer
  | new => {}
  | chunk before bytes => before.run.pushChunk m bytes
  | buffer before source wrap => before.run.pushBuffer m source.run wrap

/-- What a buffer is for: the first bytes, the last of the others, and how many are missing between. -/
def summary (bytes : List UInt8) : HeadTailBuffer :=
  let rest := bytes.drop (headBudget m)
  ⟨bytes.take (headBudget m), rest.rtake (tailBudget m), min (rest.length - tailBudget m) usizeMax⟩

variable {m} {b other : HeadTailBuffer} {l c bytes : List UInt8} {n : Nat}

lemma length_rtake : (l.rtake n).length = min n l.length := by
  unfold rtake
  rw [length_drop]
  omega

lemma length_rtake_le : (l.rtake n).length ≤ n := by
  rw [length_rtake]
  omega

lemma rtake_of_length_le (h : l.length ≤ n) : l.rtake n = l := by
  unfold rtake
  rw [Nat.sub_eq_zero_of_le h, drop_zero]

lemma rtake_append_of_le (h : n ≤ c.length) : (l ++ c).rtake n = c.rtake n := by
  unfold rtake
  rw [length_append, Nat.add_sub_assoc h, drop_append]
  simp

lemma append_rtake : (l ++ c.rtake n).rtake n = (l ++ c).rtake n := by
  by_cases h : n ≤ c.length
  · have hl : n ≤ (c.rtake n).length := by
      rw [length_rtake]
      omega
    rw [rtake_append_of_le h, rtake_append_of_le hl, rtake_of_length_le length_rtake_le]
  · rw [rtake_of_length_le (not_le.mp h).le]

lemma rtake_rtake_append : (l.rtake n ++ c).rtake n = (l ++ c).rtake n := by
  have hl : (l.rtake n ++ c).length - n = (l ++ c).length - n - (l.length - n) := by
    simp only [length_append, length_rtake]
    omega
  have hs : l.length - n ≤ (l ++ c).length - n := by
    simp only [length_append]
    omega
  unfold rtake at hl ⊢
  rw [hl, ← drop_append_of_le_length (Nat.sub_le ..), drop_drop, Nat.add_sub_cancel' hs]

lemma pushTail_eq (h : b.tail.length ≤ tailBudget m) : b.pushTail m c =
    ⟨b.head, (b.tail ++ c).rtake (tailBudget m),
      saturatingAdd b.omittedBytes ((b.tail ++ c).length - tailBudget m)⟩ := by
  have he : c.length - (tailBudget m - b.tail.length) = (b.tail ++ c).length - tailBudget m := by
    rw [length_append]
    omega
  unfold pushTail rtake
  simp only [he, drop_append]
  split
  · rename_i hlt
    rw [Nat.sub_eq_zero_of_le hlt.le, drop_zero]
  · rename_i hge
    rw [drop_eq_nil_of_le (not_lt.mp hge), nil_append]

lemma pushTail_le (h : b.tail.length ≤ tailBudget m) : (b.pushTail m c).tail.length ≤ tailBudget m := by
  rw [pushTail_eq h]
  exact length_rtake_le

/-- Two pushes after each other are one push of both chunks. -/
lemma pushTail_pushTail (h : b.tail.length ≤ tailBudget m) (first second : List UInt8) :
    (b.pushTail m first).pushTail m second = b.pushTail m (first ++ second) := by
  rw [pushTail_eq (pushTail_le h), pushTail_eq h, pushTail_eq h]
  simp only [rtake_rtake_append, append_assoc, mk.injEq, true_and, length_append, length_rtake, saturatingAdd]
  omega

/-- Taking over the source's head is what filling an empty head with it does. -/
lemma fillHead_of_isEmpty (hb : b.head.isEmpty) (hl : l.length ≤ headBudget m) :
    b.fillHead m l = ({ b with head := l }, []) := by
  simp [fillHead, isEmpty_iff.mp hb, take_of_length_le hl, hl]

/-- Fills the head and gives the tail what is left, then `more`. -/
def fillAndPush (b : HeadTailBuffer) (chunk more : List UInt8) : HeadTailBuffer :=
  (b.fillHead m chunk).1.pushTail m ((b.fillHead m chunk).2 ++ more)

/-- Each shortcut of `pushBuffer` ends where filling the head and pushing the rest ends. -/
lemma pushBuffer_eq (wrap : Nat) (hb : b.tail.length ≤ tailBudget m)
    (hh : other.head.length ≤ headBudget m) (ht : other.tail.length ≤ tailBudget m) :
    b.pushBuffer m other wrap = fillAndPush (m := m)
      { b with omittedBytes := saturatingAdd b.omittedBytes other.omittedBytes }
      other.head other.tail := by
  unfold pushBuffer fillAndPush
  generalize hs : { b with omittedBytes := saturatingAdd b.omittedBytes other.omittedBytes } = start
  have hif : (if start.head.isEmpty then ({ start with head := other.head }, [])
      else start.fillHead m other.head) = start.fillHead m other.head := by
    split
    · rename_i he
      exact (fillHead_of_isEmpty he hh).symm
    · rfl
  have hf : (start.fillHead m other.head).1.tail.length ≤ tailBudget m := by
    rw [← hs]
    exact hb
  simp only [hif]
  generalize start.fillHead m other.head = filled at hf
  split
  · rename_i hfu
    rw [pushTail_eq hf, ← append_assoc, rtake_append_of_le hfu.ge, rtake_of_length_le hfu.le]
    simp only [length_append, saturatingAdd, mk.injEq, true_and]
    omega
  rw [← pushTail_pushTail hf]
  have hp := pushTail_le (c := filled.2) hf
  have hsa : saturatingAdd (filled.1.pushTail m filled.2).omittedBytes 0 =
      (filled.1.pushTail m filled.2).omittedBytes := by
    simp only [pushTail, saturatingAdd]
    omega
  generalize filled.1.pushTail m filled.2 = pushed at hp hsa
  split
  · rename_i he
    rw [pushTail_eq hp, isEmpty_iff.mp he, nil_append, rtake_of_length_le ht, Nat.sub_eq_zero_of_le ht, hsa]
  · rw [pushTail_pushTail hp, take_append_drop]

/-- A chunk that is whole, or at least fills the head, carries on a summary. -/
lemma fillAndPush_summary (bytes c : List UInt8) (h : more = [] ∨ c.length = headBudget m) :
    fillAndPush (m := m) { summary m bytes with
      omittedBytes := saturatingAdd (summary m bytes).omittedBytes (min (more.length - tailBudget m) usizeMax) }
      c (more.rtake (tailBudget m)) = summary m (bytes ++ (c ++ more)) := by
  have hr : headBudget m - min (headBudget m) bytes.length = headBudget m - bytes.length := by
    omega
  have hh : (c ++ more).take (headBudget m - bytes.length) = c.take (headBudget m - bytes.length) := by
    obtain rfl | hc := h
    · rw [append_nil]
    · exact take_append_of_le_length (by omega)
  have hre : bytes.drop (headBudget m) ++ (c.drop (headBudget m - bytes.length) ++ more) =
      (bytes ++ (c ++ more)).drop (headBudget m) := by
    rw [drop_append]
    obtain rfl | hc := h
    · simp
    · rw [← @drop_append_of_le_length _ c _ _ (by omega)]
  have hl := congrArg length hre
  simp only [fillAndPush, fillHead, summary, length_take, hr]
  rw [pushTail_eq length_rtake_le, ← append_assoc, append_rtake, append_assoc, rtake_rtake_append, hre, take_append, hh]
  simp only [mk.injEq, true_and, length_append, length_rtake, saturatingAdd] at hl ⊢
  omega

lemma Build.run_eq (t : Build) : t.run m = summary m t.bytes := by
  induction t with
  | new => simp [run, summary, Build.bytes]
  | chunk pre c ih => ?_
  | buffer pre source wrap ih ihs =>
    rw [run, ih, ihs, Build.bytes, pushBuffer_eq wrap length_rtake_le (length_take_le ..) length_rtake_le]
    refine (fillAndPush_summary _ _ ?_).trans
      (congrArg (fun rest => summary m (pre.bytes ++ rest)) (take_append_drop ..))
    by_cases h : source.bytes.length ≤ headBudget m
    · exact .inl (drop_eq_nil_of_le h)
    · exact .inr (length_take_of_le (not_le.mp h).le)
  have hs := fillAndPush_summary (m := m) pre.bytes c (.inl rfl)
  have ho : saturatingAdd (summary m pre.bytes).omittedBytes 0 =
      (summary m pre.bytes).omittedBytes := by
    simp only [summary, saturatingAdd]
    omega
  simp only [length_nil, Nat.zero_sub, Nat.zero_min, ho, append_nil] at hs
  rw [run, ih, Build.bytes, ← hs, fillAndPush, rtake_nil, append_nil, pushChunk]

theorem Build.run_summarises (t : Build) (h : t.bytes.length < usizeMax) :
    t.run m = pushChunk m {} t.bytes ∧
    (t.run m).head = t.bytes.take (m / 2) ∧
    (t.run m).tail = (t.bytes.drop (m / 2)).rtake (m - m / 2) ∧
    (t.run m).omittedBytes = t.bytes.length - (t.run m).toBytes.length ∧
    (t.run m).retainedBytes ≤ m ∧ (t.run m).totalBytes = t.bytes.length := by
  have ho : pushChunk m {} t.bytes = summary m t.bytes := run_eq (chunk new t.bytes)
  rw [run_eq, ho]
  refine ⟨rfl, rfl, rfl, ?_⟩
  simp only [summary, toBytes, retainedBytes, totalBytes, saturatingAdd, length_append, length_take,
    length_rtake, length_drop, headBudget, tailBudget]
  omega

theorem Build.run_summarises_of_merge :
    ((buffer (.chunk new [1, 2, 3, 4]) (.chunk new [5]) 0).run 3).tail =
      (drop (3 / 2) [1, 2, 3, 4, 5]).rtake (3 - 3 / 2) :=
  (run_summarises (m := 3) (buffer (.chunk new [1, 2, 3, 4]) (.chunk new [5]) 0) (by decide)).2.2.1

end HeadTailBuffer
end Codex
