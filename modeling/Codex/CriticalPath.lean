import Mathlib

/-!
# The critical path of a turn

A path is a chain of recorded segments. Its durations split an interval between the categories of the
segments, and what no segment covers is overhead.
-/

namespace Codex.CriticalPath

open List

inductive WorkKind where
  | inference | autoReview | userWait | tools | overhead | unknown
deriving DecidableEq

structure Node where
  kind : WorkKind
  start : Nat
  endAt : Nat
  origin : Nat
  depth : Nat

/-- The newest segment first: the tail of the list is the segment's `previous`. -/
abbrev Path := List Node

/-- One total for each kind of work. -/
abbrev PathDurations := WorkKind → Nat

def PathDurations.record (d : PathDurations) (kind : WorkKind) (duration : Nat) : PathDurations :=
  fun k => if k = kind then d k + duration else d k

def PathDurations.total (d : PathDurations) : Nat :=
  d .inference + d .autoReview + d .userWait + d .tools + d .overhead + d .unknown

def maxPathDepth : Nat := 16384

def endOf (path : Path) : Option Nat := path.head?.map (·.endAt)

/-- The empty path ends before every other. -/
def latest (self other : Path) : Path :=
  if (endOf other).any fun ended => (endOf self).all (ended > ·) then other else self

def workWith (collapsed : Nat → Path) (path : Path) (start endAt : Nat) (kind : WorkKind) : Path :=
  let start := (endOf path).elim start (max · start)
  if start ≥ endAt then path
  else
    let origin := path.head?.elim start (·.origin)
    let depth := path.head?.elim 0 (·.depth) + 1
    if depth > maxPathDepth then collapsed origin else ⟨kind, start, endAt, origin, depth⟩ :: path

/-- The call for a collapsed path starts from the empty one, whose depth is far below the limit. -/
def work (path : Path) (start endAt : Nat) (kind : WorkKind) : Path :=
  workWith (fun origin => workWith (fun _ => []) [] origin endAt .unknown) path start endAt kind

def join (self : Path) (start endAt : Nat) (dependency : Path) : Path :=
  let path := latest self dependency
  let resumedAt := max ((endOf path).getD start) start
  work path resumedAt endAt .tools

def afterLoop (start endAt : Nat) (totals : PathDurations) : PathDurations :=
  if start < endAt then totals.record .overhead (endAt - start) else totals

def walk (start : Nat) : Path → Nat → PathDurations → PathDurations
  | [], endAt, totals => afterLoop start endAt totals
  | node :: previous, endAt, totals =>
    if endAt ≤ start then afterLoop start endAt totals
    else
      let segmentEnd := min endAt node.endAt
      let segmentStart := max start node.start
      let totals := if endAt > node.endAt then totals.record .overhead (endAt - max start node.endAt)
        else totals
      let totals := if segmentStart < segmentEnd then totals.record node.kind (segmentEnd - segmentStart)
        else totals
      walk start previous (min endAt node.start) totals

def durations (path : Path) (start endAt : Nat) : PathDurations := walk start path endAt fun _ => 0

inductive Built : Path → Prop where
  | empty : Built []
  | work {path} (h : Built path) (start endAt : Nat) (kind : WorkKind) : Built (work path start endAt kind)
  | latest {self other} (h : Built self) (h' : Built other) : Built (latest self other)
  | join {self dependency} (h : Built self) (start endAt : Nat) (h' : Built dependency) :
    Built (join self start endAt dependency)

structure Ordered (path : Path) : Prop where
  disjoint : path.Pairwise fun newer older => older.endAt ≤ newer.start
  nonempty : ∀ node ∈ path, node.start < node.endAt
  depth : ∀ node ∈ path, node.depth ≤ maxPathDepth

variable {path self other : Path} {start endAt : Nat} {kind : WorkKind}

lemma Ordered.latest (h : Ordered self) (h' : Ordered other) : Ordered (latest self other) := by
  unfold CriticalPath.latest
  split
  · exact h'
  · exact h

/-- Work is clipped to start where every recorded segment has ended. -/
lemma Ordered.endAt_le (h : Ordered path) (hm : node ∈ path) :
    node.endAt ≤ (endOf path).elim start (max · start) := by
  obtain _ | ⟨newest, _⟩ := path
  · simp at hm
  have hn := h.nonempty newest mem_cons_self
  obtain rfl | hm := mem_cons.mp hm
  · simp [endOf]
  have hb := rel_of_pairwise_cons h.disjoint hm
  simp only [endOf, head?_cons, Option.map_some, Option.elim_some]
  omega

lemma Ordered.workWith (h : Ordered path) (hc : ∀ origin, Ordered (collapsed origin)) :
    Ordered (workWith collapsed path start endAt kind) := by
  unfold CriticalPath.workWith
  dsimp only
  split
  · exact h
  split
  · exact hc _
  rename_i hlt hd
  refine ⟨pairwise_cons.mpr ⟨fun older hm => ?_, h.disjoint⟩, ?_, ?_⟩
  · exact h.endAt_le hm
  · simp only [mem_cons, forall_eq_or_imp]
    exact ⟨Nat.not_le.mp hlt, h.nonempty⟩
  · simp only [mem_cons, forall_eq_or_imp]
    exact ⟨Nat.not_lt.mp hd, h.depth⟩

lemma ordered_nil : Ordered [] := ⟨.nil, by simp, by simp⟩

lemma Ordered.work (h : Ordered path) : Ordered (work path start endAt kind) :=
  h.workWith fun _ => ordered_nil.workWith fun _ => ordered_nil

lemma Built.ordered (h : Built path) : Ordered path := by
  induction h with
  | empty => exact ordered_nil
  | work _ start endAt kind ih => exact ih.work
  | latest _ _ ih ih' => exact ih.latest ih'
  | join _ start endAt _ ih ih' => exact (ih.latest ih').work

lemma record_ite (d : PathDurations) (n : Nat) (k : WorkKind) (c : Prop) [Decidable c] :
    (if c then d.record k n else d) kind = d kind + if kind = k then if c then n else 0 else 0 := by
  by_cases hc : c <;> by_cases hk : kind = k <;> simp [PathDurations.record, hc, hk]

/-- How much of the interval lies in the segment. -/
def overlap (start endAt : Nat) (node : Node) : Nat := min endAt node.endAt - max start node.start

/-- How much of the interval lies in the segments of some kinds. -/
def covered (start endAt : Nat) (kinds : WorkKind → Bool) (path : Path) : Nat :=
  (path.map fun node => if kinds node.kind then overlap start endAt node else 0).sum

variable {kinds : WorkKind → Bool} {node : Node}

lemma covered_cons : covered start endAt kinds (node :: path) =
    (if kinds node.kind then overlap start endAt node else 0) + covered start endAt kinds path := by
  simp [covered]

lemma covered_of_le (h : endAt ≤ start) : covered start endAt kinds path = 0 := by
  induction path with
  | nil => rfl
  | cons node path ih =>
    rw [covered_cons, ih, overlap]
    split <;> omega

/-- Before a segment only what lies before its start counts. -/
lemma covered_min (h : ∀ older ∈ path, older.endAt ≤ node.start) :
    covered start (min endAt node.start) kinds path = covered start endAt kinds path := by
  induction path with
  | nil => rfl
  | cons older path ih => ?_
  have hn := h older mem_cons_self
  rw [covered_cons, covered_cons, ih fun older hm => h older (mem_cons_of_mem _ hm), overlap, overlap]
  split <;> omega

/-- What one round of the loop attributes: the gap after the segment and the segment's part. -/
lemma interval_split (h : node.start < node.endAt) (hlt : start < endAt) :
    endAt - start = (if endAt > node.endAt then endAt - max start node.endAt else 0) +
      overlap start endAt node + (min endAt node.start - start) := by
  unfold overlap
  split <;> omega

lemma Ordered.tail (h : Ordered (node :: path)) : Ordered path :=
  ⟨h.disjoint.of_cons, fun _ hm => h.nonempty _ (mem_cons_of_mem _ hm), fun _ hm => h.depth _ (mem_cons_of_mem _ hm)⟩

lemma covered_le (h : Ordered path) (start endAt : Nat) :
    covered start endAt (fun _ => true) path ≤ endAt - start := by
  induction path generalizing endAt with
  | nil => exact Nat.zero_le _
  | cons node path ih => ?_
  by_cases hle : endAt ≤ start
  · rw [covered_of_le hle]
    exact Nat.zero_le _
  have hr := ih h.tail (min endAt node.start)
  rw [covered_min fun _ => rel_of_pairwise_cons h.disjoint] at hr
  rw [covered_cons, interval_split (h.nonempty _ mem_cons_self) (Nat.not_le.mp hle), if_pos rfl]
  omega

lemma walk_eq (h : Ordered path) (start endAt : Nat) (kind : WorkKind) (totals : PathDurations) :
    walk start path endAt totals kind = totals kind + covered start endAt (· = kind) path +
      if kind = .overhead then endAt - start - covered start endAt (fun _ => true) path else 0 := by
  induction path generalizing endAt totals with
  | nil =>
    rw [walk, afterLoop, record_ite, covered, covered, map_nil, map_nil, sum_nil]
    split
    · split <;> omega
    · rfl
  | cons node path ih => ?_
  unfold walk
  split
  · rename_i hle
    rw [afterLoop, if_neg (Nat.not_lt.mpr hle), covered_of_le hle, covered_of_le hle]
    split <;> omega
  rename_i hlt
  have hle := covered_le h.tail start (min endAt node.start)
  rw [covered_min fun _ => rel_of_pairwise_cons h.disjoint] at hle
  have hp : (if max start node.start < min endAt node.endAt then
      min endAt node.endAt - max start node.start else 0) = overlap start endAt node := by
    unfold overlap
    split <;> omega
  rw [ih h.tail, covered_min fun _ => rel_of_pairwise_cons h.disjoint,
    covered_min fun _ => rel_of_pairwise_cons h.disjoint, covered_cons, covered_cons, record_ite,
    record_ite, hp, interval_split (h.nonempty _ mem_cons_self) (Nat.not_le.mp hlt)]
  simp only [decide_eq_true_eq, eq_comm (a := node.kind), if_true]
  split <;> split <;> omega

/-- Every segment has one kind. -/
lemma covered_total (start endAt : Nat) (path : Path) :
    PathDurations.total (fun kind => covered start endAt (· = kind) path) =
      covered start endAt (fun _ => true) path := by
  induction path with
  | nil => rfl
  | cons node path ih =>
    simp only [PathDurations.total, covered_cons] at ih ⊢
    cases node.kind <;> simp <;> omega

theorem durations_partition (h : Built path) (start endAt : Nat) : (durations path start endAt).total = endAt - start ∧
    (∀ kind, durations path start endAt kind = covered start endAt (· = kind) path +
      if kind = .overhead then endAt - start - covered start endAt (fun _ => true) path else 0) ∧
    path.Pairwise (fun newer older => older.endAt ≤ newer.start) ∧
    (∀ node ∈ path, node.start < node.endAt) ∧ ∀ node ∈ path, node.depth ≤ maxPathDepth := by
  have hof := fun kind => walk_eq h.ordered start endAt kind fun _ => 0
  simp only [Nat.zero_add] at hof
  refine ⟨?_, hof, h.ordered.disjoint, h.ordered.nonempty, h.ordered.depth⟩
  have hc := covered_le h.ordered start endAt
  have hk := covered_total start endAt path
  simp only [PathDurations.total, durations, hof, reduceCtorEq, if_false, if_true] at hk ⊢
  omega

theorem durations_partition_of_overlap :
    (durations (join (work [] 2 6 .inference) 4 9 (work [] 2 8 .userWait)) 1 10).total = 9 :=
  (durations_partition ((Built.empty.work 2 6 .inference).join 4 9 (Built.empty.work 2 8 .userWait)) 1 10).1

end Codex.CriticalPath
