import Mathlib.Data.List.Induction
import Mathlib.Data.List.Nodup

/-!
# A plan, and the operations in order

Operations on a store are planned against the store they start from, and then run one after another.
-/

namespace Codex.Plan

open List Option Function

variable {K C : Type}

abbrev Store (K C : Type) := K → Option C

inductive Op (K C : Type) where
  | write (k : K) (c : C)
  | remove (k : K)
  | edit (k : K) (f : C → Option C)
  /-- Edit the contents at `k`, write them at `dest`, and remove `k`. -/
  | transfer (k : K) (f : C → Option C) (dest : K)

namespace Op

def source : Op K C → K
  | write k _ => k
  | remove k => k
  | edit k _ => k
  | transfer k _ _ => k

def dest : Op K C → Option K
  | transfer _ _ dest => some dest
  | _ => none

variable [DecidableEq K]

def run (s : Store K C) : Op K C → Option (Store K C)
  | write k c => some (Function.update s k (some c))
  | remove k => (s k).map fun _ => Function.update s k none
  | edit k f => ((s k).bind f).map fun c => Function.update s k (some c)
  | transfer k f dest => ((s k).bind f).map fun c =>
      Function.update (Function.update s dest (some c)) k none

def Plannable (s : Store K C) : Op K C → Prop
  | write _ _ => True
  | remove k => (s k).isSome
  | edit k f => ((s k).bind f).isSome
  | transfer k f _ => ((s k).bind f).isSome

def Wants (s : Store K C) (k : K) (o : Option C) : Op K C → Prop
  | write p c => p = k ∧ o = some c
  | remove p => p = k ∧ o = none
  | edit p f => p = k ∧ o = (s p).bind f
  | transfer p f dest => (dest = k ∧ o = (s p).bind f) ∨ (p = k ∧ p ≠ dest ∧ o = none)

end Op

open Op

/-- The store a plan asks for: what the operations want, and everything else as it was. -/
structure Meets (s : Store K C) (ops : List (Op K C)) (t : Store K C) : Prop where
  wanted : ∀ op ∈ ops, ∀ k o, op.Wants s k o → t k = o
  kept : ∀ k, (∀ op ∈ ops, op.source ≠ k ∧ op.dest ≠ some k) → t k = s k

def PutInto (s : Store K C) (ops : List (Op K C)) (k : K) (c : C) : Prop :=
  ∃ p f, transfer p f k ∈ ops ∧ (s p).bind f = some c

def Bears (s : Store K C) (pre post : List (Op K C)) : Op K C → Prop
  | .edit k f => ∀ c, PutInto s pre k c → ∃ c', f c = some c' ∧ ((¬ ∃ d, PutInto s post k d) → c' = c)
  | .transfer k f dest => k = dest → (∃ d, PutInto s post k d) ∧ ∀ c, PutInto s pre k c → (f c).isSome
  | _ => True

/-- No two operations want different contents of a key, and each bears what was transferred to its key. -/
structure Coherent (s : Store K C) (ops : List (Op K C)) : Prop where
  agree : ∀ op ∈ ops, ∀ op' ∈ ops, ∀ k o o', op.Wants s k o → op'.Wants s k o' → o = o'
  bears : ∀ pre op post, ops = pre ++ op :: post → Bears s pre post op

variable {k : K} {op : Op K C} {t t' : Store K C}

lemma source_ne_of_split (h : ((pre ++ op :: post).map Op.source).Nodup) :
    (∀ op' ∈ pre, op'.source ≠ op.source) ∧ ∀ op' ∈ post, op'.source ≠ op.source := by
  rw [map_append, map_cons, nodup_append, nodup_cons] at h
  refine ⟨fun op' h' heq => ?_, fun op' h' heq => ?_⟩
  · exact h.2.2 _ (mem_map_of_mem h') _ mem_cons_self heq
  · exact h.2.1.1 (heq ▸ mem_map_of_mem h')

lemma PutInto.wants {s : Store K C} (h : PutInto s ops k c) :
    ∃ op ∈ ops, op.Wants s k (some c) := by
  obtain ⟨p, f, hp, hc⟩ := h
  exact ⟨_, hp, .inl ⟨rfl, hc.symm⟩⟩

def Unchained (ops : List (Op K C)) : Prop :=
  ∀ p f dest, transfer p f dest ∈ ops → p ≠ dest → ∀ q g, transfer q g p ∉ ops

section

variable {s : Store K C} {ops : List (Op K C)}

variable {k : K} {o : Option C} {op : Op K C}

lemma Op.Wants.touches (h : op.Wants s k o) : op.source = k ∨ op.dest = some k := by
  cases op with
  | write | remove | edit => exact .inl h.1
  | transfer p f dest => ?_
  rcases h with ⟨rfl, -⟩ | ⟨rfl, -⟩
  · exact .inr rfl
  · exact .inl rfl

lemma unchained_of_agree (hpl : ∀ op ∈ ops, op.Plannable s)
    (ha : ∀ op ∈ ops, ∀ op' ∈ ops, ∀ k o o', op.Wants s k o → op'.Wants s k o' → o = o') :
    Unchained ops := by
  intro p f dest hp hne q g hq
  obtain ⟨c, hc⟩ := isSome_iff_exists.mp (hpl _ hq)
  have := ha _ hp _ hq p none (some c) (.inr ⟨rfl, hne, rfl⟩) (.inl ⟨rfl, hc.symm⟩)
  simp at this

lemma Op.Wants.unique (hs : op.dest ≠ some op.source) (h : op.Wants s k o)
    (h' : op.Wants s k o') : o = o' := by
  cases op with
  | transfer p f dest => ?_
  | _ => exact h.2.trans h'.2.symm
  have : dest ≠ p := fun heq => hs (by simp [Op.dest, Op.source, heq])
  rcases h with ⟨rfl, rfl⟩ | ⟨rfl, -, rfl⟩ <;> rcases h' with ⟨hk, rfl⟩ | ⟨hk, -, rfl⟩
  · rfl
  · exact absurd hk.symm this
  · exact absurd hk this
  · rfl

lemma coherent_of_apart (hs : (ops.map Op.source).Nodup)
    (hd : ∀ op ∈ ops, ∀ op' ∈ ops, ∀ k, op.dest = some k → op'.dest = some k → op = op')
    (ha : ∀ op ∈ ops, ∀ op' ∈ ops, op.dest ≠ some op'.source) : Coherent s ops := by
  refine ⟨fun op hop op' hop' k o o' ho ho' => ?_, ?_⟩
  · obtain rfl : op = op' := by
      rcases ho.touches with hk | hk <;> rcases ho'.touches with hk' | hk'
      · exact inj_on_of_nodup_map hs hop hop' (hk.trans hk'.symm)
      · exact absurd (hk ▸ hk') (ha op' hop' op hop)
      · exact absurd (hk' ▸ hk) (ha op hop op' hop')
      · exact hd op hop op' hop' k hk hk'
    exact ho.unique (ha op hop op hop) ho'
  rintro pre op _ rfl
  have hn : ∀ k c, op.source = k → ¬ PutInto s pre k c := fun k c hk ⟨p, f, hp, _⟩ =>
    ha _ (mem_append_left _ hp) op (by simp) (by simp [Op.dest, hk])
  cases op with
  | edit k f => exact fun c hc => absurd hc (hn k c rfl)
  | transfer k f dest =>
    have hse := ha (.transfer k f dest) (by simp) (.transfer k f dest) (by simp)
    exact fun heq => absurd (by simp [Op.dest, Op.source, heq]) hse
  | _ => trivial

def Right (s : Store K C) (ops : List (Op K C)) (k : K) (v : Option C) : Prop :=
  (∃ op ∈ ops, op.Wants s k v) ∨ (v = s k ∧ ∀ op ∈ ops, ∀ o, ¬ op.Wants s k o)

lemma meets_of_right (ha : ∀ op ∈ ops, ∀ op' ∈ ops, ∀ k o o', op.Wants s k o → op'.Wants s k o' → o = o')
    (h : ∀ k, Right s ops k (t k)) : Meets s ops t where
  wanted op hop k o ho := by
    obtain ⟨op', hop', ho'⟩ | ⟨-, hn⟩ := h k
    · exact ha op' hop' op hop k _ _ ho' ho
    · exact absurd ho (hn op hop o)
  kept k hk := by
    obtain ⟨op, hop, ho⟩ | ⟨heq, -⟩ := h k
    · exact absurd ho.touches (by simp [hk op hop])
    · exact heq

end

variable [DecidableEq K]

section

variable (s : Store K C)

def runAll (ops : List (Op K C)) : Option (Store K C) := ops.foldlM Op.run s

/-! ## One key at a time -/

def Op.stepAt (k : K) (v : Option C) : Op K C → Option (Option C)
  | write p c => if p = k then some (some c) else some v
  | remove p => if p = k then v.map fun _ => none else some v
  | edit p f => if p = k then (v.bind f).map some else some v
  | transfer p f dest =>
    if p = k then (v.bind f).map fun _ => none
    else if dest = k then some ((s p).bind f) else some v

def evalAt (k : K) (ops : List (Op K C)) (v : Option C) : Option (Option C) :=
  ops.foldlM (stepAt s k) v

def Undisturbed (s t : Store K C) : Op K C → Prop
  | .transfer p _ dest => p ≠ dest → t p = s p
  | _ => True

lemma map_update_eq_some_iff :
    a.map (Function.update t p) = some t' ↔
      ∀ k, (if p = k then a else some (t k)) = some (t' k) := by
  rw [map_eq_some_iff]
  constructor
  · rintro ⟨o, rfl, rfl⟩ k
    by_cases hk : p = k
    · subst hk
      simp
    · simp [hk, update_of_ne (Ne.symm hk)]
  intro h
  refine ⟨t' p, by simpa using h p, update_eq_iff.mpr ⟨rfl, fun k hk => ?_⟩⟩
  simpa [Ne.symm hk] using h k

lemma Op.run_eq_some_iff {s : Store K C} (h : Undisturbed s t op) :
    op.run t = some t' ↔ ∀ k, op.stepAt s k (t k) = some (t' k) := by
  -- Up to the destination of a transfer, an operation is a step at its source.
  have hs : ∀ (p : K) (g : Option C → Option (Option C)),
      (g (t p)).map (Function.update t p) = some t' ↔
        ∀ k, (if p = k then g (t k) else some (t k)) = some (t' k) := by
    intro p g
    rw [map_update_eq_some_iff]
    refine forall_congr' fun k => ?_
    by_cases hk : p = k
    · subst hk; rfl
    · simp [hk]
  cases op with
  | write p c => exact hs p fun _ => some (some c)
  | remove p =>
    simp only [stepAt]
    rw [← hs p fun v => v.map fun _ => none]
    simp [run]
  | edit p f =>
    simp only [stepAt]
    rw [← hs p fun v => (v.bind f).map some]
    simp [run, comp_def]
  | transfer p f dest => ?_
  by_cases hd : p = dest
  · -- What is written at the destination is removed at once.
    subst hd
    have hat : ∀ k, (transfer p f p).stepAt s k (t k) =
        if p = k then ((t k).bind f).map fun _ => none else some (t k) := by
      intro k
      by_cases hk : p = k <;> simp [stepAt, hk]
    simp only [hat, ← hs p fun v => (v.bind f).map fun _ => none]
    simp [run, comp_def]
  have hp : t p = s p := h hd
  simp only [run, hp]
  rcases hc : (s p).bind f with _ | c
  · simp only [map_none, reduceCtorEq, false_iff, not_forall]
    exact ⟨p, by simp [stepAt, hp, hc]⟩
  rw [map_some, Option.some.injEq, update_eq_iff]
  constructor
  · rintro ⟨hn, hr⟩ k
    by_cases hk : p = k
    · subst hk
      simp [stepAt, hp, hc, hn.symm]
    rw [← hr k (Ne.symm hk)]
    by_cases hkd : dest = k
    · subst hkd
      simp [stepAt, hk, hc]
    · simp [stepAt, hk, hkd, update_of_ne (Ne.symm hkd)]
  intro h'
  refine ⟨?_, fun k hk => ?_⟩
  · simpa [stepAt, hp, hc] using h' p
  have hk' := h' k
  by_cases hkd : dest = k
  · subst hkd
    simpa [stepAt, Ne.symm hk, hc] using hk'
  · simpa [stepAt, Ne.symm hk, hkd, update_of_ne (Ne.symm hkd)] using hk'

lemma evalAt_cons (k : K) (op : Op K C) (ops : List (Op K C)) (v : Option C) :
    evalAt s k (op :: ops) v = (op.stepAt s k v).bind (evalAt s k ops) :=
  foldlM_cons

lemma evalAt_append (k : K) (ops ops' : List (Op K C)) (v : Option C) :
    evalAt s k (ops ++ ops') v = (evalAt s k ops v).bind (evalAt s k ops') :=
  foldlM_append

lemma Op.stepAt_of_untouched {s : Store K C} (v : Option C) (h : op.source ≠ k ∧ op.dest ≠ some k) :
    op.stepAt s k v = some v := by
  cases op <;> simp_all [stepAt, source, dest]

lemma evalAt_of_untouched {s : Store K C} (v : Option C)
    (h : ∀ op ∈ ops, op.source ≠ k ∧ op.dest ≠ some k) : evalAt s k ops v = some v := by
  induction ops with
  | nil => rfl
  | cons op ops ih =>
    rw [evalAt_cons, stepAt_of_untouched v (h op (by simp))]
    exact ih fun op' h' => h op' (by simp [h'])

/-- **A run is one evaluation for each key**, when transfers are not chained. -/
lemma runAll_eq_some_iff {s : Store K C} (hs : (ops.map Op.source).Nodup)
    (hf : Unchained ops) : runAll s ops = some t ↔ ∀ k, evalAt s k ops (s k) = some (t k) := by
  induction ops using reverseRecOn generalizing t with
  | nil => simp [runAll, evalAt, funext_iff]
  | append_singleton done op ih => ?_
  have hdo : (done.map Op.source).Nodup := by
    rw [map_append] at hs
    exact hs.of_append_left
  have hf' : Unchained done := fun p f dest hp hne q g hq =>
    hf p f dest (by simp [hp]) hne q g (by simp [hq])
  have hl : ∀ u : Store K C, (∀ k, evalAt s k done (s k) = some (u k)) → Undisturbed s u op := by
    intro u hu
    cases op with
    | transfer p f dest => ?_
    | _ => trivial
    intro hne
    have hfr : ∀ op' ∈ done, op'.source ≠ p ∧ op'.dest ≠ some p := by
      intro op' hop'
      refine ⟨fun hso => ?_, fun hd => ?_⟩
      · simp only [map_append, nodup_append] at hs
        exact hs.2.2 _ (mem_map_of_mem hop') p (by simp [Op.source]) hso
      · obtain ⟨q, g, rfl⟩ : ∃ q g, op' = .transfer q g p := by cases op' <;> simp_all [Op.dest]
        exact hf p f dest (by simp) hne q g (by simp [hop'])
    have := evalAt_of_untouched (s := s) (s p) hfr
    exact (some.inj (this.symm.trans (hu p))).symm
  rw [runAll, foldlM_append]
  show (runAll s done).bind (fun u => [op].foldlM Op.run u) = some t ↔ _
  simp only [bind_eq_some_iff, evalAt_append]
  constructor
  · rintro ⟨u, hu, hr⟩ k
    have hu' := (ih hdo hf').mp hu
    refine ⟨u k, hu' k, ?_⟩
    have hop : op.run u = some t := by simpa using hr
    simpa [evalAt] using (run_eq_some_iff (hl u hu')).mp hop k
  intro h
  choose u hu hst using h
  refine ⟨u, (ih hdo hf').mpr hu, ?_⟩
  have hop : op.run u = some t :=
    (run_eq_some_iff (hl u hu)).mpr fun k => by simpa [evalAt] using hst k
  simpa using hop

/-! ## What arrives at a key -/

lemma evalAt_incoming {s : Store K C} (v : Option C)
    (hs : ∀ op ∈ ops, op.source ≠ k) (hpl : ∀ op ∈ ops, op.Plannable s) :
    ∃ w, evalAt s k ops v = some w ∧
      ((∃ c, PutInto s ops k c ∧ w = some c) ∨ ((¬ ∃ c, PutInto s ops k c) ∧ w = v)) := by
  induction ops generalizing v with
  | nil => exact ⟨v, rfl, .inr ⟨by simp [PutInto], rfl⟩⟩
  | cons op ops ih => ?_
  have hr := fun v => ih v (fun op' h => hs op' (by simp [h])) fun op' h => hpl op' (by simp [h])
  have hm : ∀ c, PutInto s ops k c → PutInto s (op :: ops) k c :=
    fun c ⟨p, f, hp, hc⟩ => ⟨p, f, by simp [hp], hc⟩
  by_cases hi : op.dest = some k
  · obtain ⟨p, f, rfl⟩ : ∃ p f, op = .transfer p f k := by cases op <;> simp_all [Op.dest]
    obtain ⟨c, hc⟩ := isSome_iff_exists.mp (hpl _ mem_cons_self)
    have hne : p ≠ k := hs _ mem_cons_self
    obtain ⟨w, hw, hpu⟩ := hr (some c)
    have he : evalAt s k (.transfer p f k :: ops) v = some w := by
      simpa [evalAt_cons, stepAt, hne, hc] using hw
    refine ⟨w, he, .inl ?_⟩
    obtain ⟨c', hc', rfl⟩ | ⟨-, rfl⟩ := hpu
    · exact ⟨c', hm c' hc', rfl⟩
    · exact ⟨c, ⟨p, f, by simp, hc⟩, rfl⟩
  obtain ⟨w, hw, hpu⟩ := hr v
  refine ⟨w, ?_, ?_⟩
  · rw [evalAt_cons, stepAt_of_untouched v ⟨hs op (by simp), hi⟩]
    exact hw
  obtain ⟨c, hc, rfl⟩ | ⟨hn, rfl⟩ := hpu
  · exact .inl ⟨c, hm c hc, rfl⟩
  refine .inr ⟨fun ⟨c, p, f, hp, hc⟩ => hn ⟨c, p, f, ?_, hc⟩, rfl⟩
  rcases mem_cons.mp hp with rfl | hp
  · cases hi rfl
  · exact hp

lemma evalAt_split (k : K) (pre : List (Op K C)) (op : Op K C) (post : List (Op K C))
    (v : Option C) : evalAt s k (pre ++ op :: post) v =
      ((evalAt s k pre v).bind fun w => op.stepAt s k w).bind (evalAt s k post) := by
  rw [evalAt_append, bind_assoc]
  rfl

end

/-! ## The plan and the run -/

section

variable {s : Store K C} {ops : List (Op K C)}

variable {pre post : List (Op K C)} {op : Op K C}

lemma right_after (hp : ∀ op' ∈ post, op'.source ≠ op.source) (hpl : ∀ op' ∈ post, op'.Plannable s)
    (hv : (¬ ∃ c, PutInto s post op.source c) → ∃ op' ∈ pre ++ op :: post, op'.Wants s op.source v) :
    ∃ w, evalAt s op.source post v = some w ∧ Right s (pre ++ op :: post) op.source w := by
  obtain ⟨w, hw, ⟨c, hc, rfl⟩ | ⟨hn, rfl⟩⟩ := evalAt_incoming v hp hpl
  · obtain ⟨op', hop', hwa⟩ := hc.wants
    exact ⟨_, hw, .inl ⟨op', by simp [hop'], hwa⟩⟩
  · exact ⟨_, hw, .inl (hv hn)⟩

lemma right_of_coherent (hsou : (ops.map Op.source).Nodup) (hp : ∀ op ∈ ops, op.Plannable s)
    (h : Coherent s ops) (k : K) : ∃ v, evalAt s k ops (s k) = some v ∧ Right s ops k v := by
  by_cases hk : ∃ op ∈ ops, op.source = k
  · obtain ⟨op, hop, rfl⟩ := hk
    obtain ⟨pre, post, rfl⟩ := append_of_mem hop
    obtain ⟨hpr, hpos⟩ := source_ne_of_split hsou
    have hpl : ∀ op' ∈ pre, op'.Plannable s := fun op' h' => hp op' (by simp [h'])
    have hpp : ∀ op' ∈ post, op'.Plannable s := fun op' h' => hp op' (by simp [h'])
    have hpo := hp op (by simp)
    have hb := h.bears pre op post rfl
    obtain ⟨w, hw, hin⟩ := evalAt_incoming (s op.source) hpr hpl
    have hs : ∀ o, op.Wants s op.source o → ∃ op' ∈ pre ++ op :: post, op'.Wants s op.source o :=
      fun o ho => ⟨op, by simp, ho⟩
    -- Where the plan removes the key, nothing is transferred to it.
    have hke : op.Wants s op.source none → w = s op.source := by
      intro hn
      obtain ⟨c, hc, -⟩ | ⟨-, rfl⟩ := hin
      · obtain ⟨op', hop', hwa⟩ := hc.wants
        have := h.agree op (by simp) op' (by simp [hop']) _ _ _ hn hwa
        simp at this
      · rfl
    suffices hst : ∃ v, op.stepAt s op.source w = some v ∧
        ((¬ ∃ c, PutInto s post op.source c) → ∃ op' ∈ pre ++ op :: post, op'.Wants s op.source v) by
      obtain ⟨v, hv, hr⟩ := hst
      obtain ⟨u, hu, hu'⟩ := right_after hpos hpp hr
      exact ⟨u, by simp [evalAt_split, hw, hv, hu], hu'⟩
    cases op with
    | write p c => exact ⟨some c, by simp [stepAt, Op.source], fun _ => hs _ ⟨rfl, rfl⟩⟩
    | remove p =>
      obtain ⟨c, hc⟩ := isSome_iff_exists.mp hpo
      refine ⟨none, ?_, fun _ => hs _ ⟨rfl, rfl⟩⟩
      rw [hke ⟨rfl, rfl⟩]
      simp [stepAt, Op.source, hc]
    | edit p f =>
      obtain ⟨c, hc, rfl⟩ | ⟨-, rfl⟩ := hin
      · obtain ⟨c', hc', hsa⟩ := hb c hc
        refine ⟨some c', by simp [stepAt, Op.source, hc'], fun hn => ?_⟩
        rw [hsa hn]
        obtain ⟨op', hop', hwa⟩ := hc.wants
        exact ⟨op', by simp [hop'], hwa⟩
      · obtain ⟨c, hc⟩ := isSome_iff_exists.mp hpo
        exact ⟨some c, by simp [stepAt, Op.source, hc], fun _ => hs _ ⟨rfl, hc.symm⟩⟩
    | transfer p f dest => ?_
    obtain ⟨c, hc⟩ := isSome_iff_exists.mp hpo
    by_cases hd : p = dest
    · obtain ⟨⟨d, hd'⟩, ha⟩ := hb hd
      refine ⟨none, ?_, fun hn => absurd ⟨d, hd'⟩ hn⟩
      obtain ⟨c', hc', rfl⟩ | ⟨-, rfl⟩ := hin
      · obtain ⟨_, hc''⟩ := isSome_iff_exists.mp (ha c' hc')
        simp [stepAt, Op.source, hc'']
      · simp [stepAt, Op.source, hc]
    refine ⟨none, ?_, fun _ => hs _ (.inr ⟨rfl, hd, rfl⟩)⟩
    rw [hke (.inr ⟨rfl, hd, rfl⟩)]
    simp [stepAt, Op.source, hc]
  have hso : ∀ op ∈ ops, op.source ≠ k := fun op hop heq => hk ⟨op, hop, heq⟩
  obtain ⟨w, hw, ⟨c, hc, rfl⟩ | ⟨hn, rfl⟩⟩ := evalAt_incoming (s k) hso hp
  · exact ⟨_, hw, .inl hc.wants⟩
  refine ⟨_, hw, .inr ⟨rfl, fun op hop o ho => hn ?_⟩⟩
  rcases ho.touches with heq | hd
  · exact absurd heq (hso op hop)
  obtain ⟨p, f, rfl⟩ : ∃ p f, op = .transfer p f k := by cases op <;> simp_all [Op.dest]
  obtain ⟨c, hc⟩ := isSome_iff_exists.mp (hp _ hop)
  exact ⟨c, p, f, hop, hc⟩

lemma bears_of_meets (hso : ((pre ++ op :: post).map Op.source).Nodup) (hp : ∀ op' ∈ pre ++ op :: post, op'.Plannable s)
    (he : evalAt s op.source (pre ++ op :: post) (s op.source) = some (t op.source))
    (hm : Meets s (pre ++ op :: post) t) : Bears s pre post op := by
  obtain ⟨hpr, hpo⟩ := source_ne_of_split hso
  obtain ⟨w, hw, hin⟩ := evalAt_incoming (s op.source) hpr fun op' h' => hp op' (by simp [h'])
  -- What was transferred to the key before is what the plan wants there.
  have ha : ∀ c, PutInto s pre op.source c → t op.source = some c := by
    intro c hc
    obtain ⟨op', hop', hwa⟩ := hc.wants
    exact hm.wanted op' (by simp [hop']) _ _ hwa
  have hf : ∀ c, PutInto s pre op.source c → w = some c := by
    intro c hc
    obtain ⟨c', hc', rfl⟩ | ⟨hn, -⟩ := hin
    · exact (ha c' hc').symm.trans (ha c hc)
    · exact absurd ⟨c, hc⟩ hn
  rw [evalAt_split, hw] at he
  obtain ⟨v, hv, hl⟩ := bind_eq_some_iff.mp he
  obtain ⟨u, hu, ho⟩ := evalAt_incoming v hpo fun op' h' => hp op' (by simp [h'])
  obtain rfl : u = t op.source := some.inj (hu.symm.trans hl)
  cases op with
  | write | remove => trivial
  | edit p f =>
    intro c hc
    have hw' : w = some c := hf c hc
    have hs : (f c).map some = some v := by simpa [stepAt, Op.source, hw'] using hv
    obtain ⟨c', hc', rfl⟩ := map_eq_some_iff.mp hs
    refine ⟨c', hc', fun hn => ?_⟩
    obtain ⟨d, hd, -⟩ | ⟨-, heq⟩ := ho
    · exact absurd ⟨d, hd⟩ hn
    · exact some.inj (heq.symm.trans (ha c hc))
  | transfer p f dest => ?_
  rintro rfl
  have hs : (w.bind f).map (fun _ => none) = some v := by simpa [stepAt, Op.source] using hv
  obtain ⟨c', hc', rfl⟩ := map_eq_some_iff.mp hs
  refine ⟨?_, fun c hc => ?_⟩
  · obtain ⟨d, hd, -⟩ | ⟨-, heq⟩ := ho
    · exact ⟨d, hd⟩
    -- Nothing came back, but the plan wants the edited contents here.
    have hwan := hm.wanted _ (mem_append_right pre mem_cons_self) p _ (.inl ⟨rfl, rfl⟩)
    have hsom := hp _ (mem_append_right pre mem_cons_self)
    rw [Op.Plannable, ← hwan, show t p = none from heq] at hsom
    simp at hsom
  · rw [hf c hc] at hc'
    exact isSome_iff_exists.mpr ⟨c', hc'⟩

/-- **The run does what was planned exactly when the plan is coherent.** -/
lemma runs_as_planned_iff (hs : (ops.map Op.source).Nodup) (hp : ∀ op ∈ ops, op.Plannable s) :
    (∃ t, runAll s ops = some t ∧ Meets s ops t) ↔ Coherent s ops := by
  constructor
  · rintro ⟨t, hru, hm⟩
    have ha : ∀ op ∈ ops, ∀ op' ∈ ops, ∀ k o o', op.Wants s k o → op'.Wants s k o' → o = o' :=
      fun op hop op' hop' k o o' ho ho' =>
        (hm.wanted op hop k o ho).symm.trans (hm.wanted op' hop' k o' ho')
    have he := (runAll_eq_some_iff hs (unchained_of_agree hp ha)).mp hru
    refine ⟨ha, ?_⟩
    rintro _ op _ rfl
    exact bears_of_meets hs hp (he op.source) hm
  intro h
  choose t he hr using right_of_coherent hs hp h
  exact ⟨t, (runAll_eq_some_iff hs (unchained_of_agree hp h.agree)).mpr he, meets_of_right h.agree hr⟩

end

end Codex.Plan
