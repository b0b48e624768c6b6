import Mathlib.Data.List.Infix

/-! # Taking complete messages off the front of a buffer, however the input was cut -/

namespace Codex.Framing

open List

variable {α β ε : Type} {encode : β → List α} {next : List α → Except ε (Option (β × List α))} {Good : β → Prop}

/-- Takes messages until one is incomplete, with what is left. An error drops the messages taken so far. -/
def drain (next : List α → Except ε (Option (β × List α))) : Nat → List α → List β → List α × Except ε (List β)
  | 0, buffer, taken => (buffer, .ok taken)
  | fuel + 1, buffer, taken =>
    match next buffer with
    | .error e => (buffer, .error e)
    | .ok none => (buffer, .ok taken)
    | .ok (some (message, rest)) => drain next fuel rest (taken ++ [message])

/-- `next` finds an encoded message once all of it is there. -/
structure Reads (next : List α → Except ε (Option (β × List α))) (encode : β → List α) (Good : β → Prop) : Prop where
  complete : ∀ m rest, Good m → next (encode m ++ rest) = .ok (some (m, rest))
  incomplete : ∀ m part, Good m → part <+: encode m → part ≠ encode m → next part = .ok none
  nil : next [] = .ok none
  ne_nil : ∀ m, encode m ≠ []

def Partial (encode : β → List α) : List β → List α → Prop
  | [], part => part = []
  | m :: _, part => part <+: encode m ∧ part ≠ encode m

structure Read (encode : β → List α) (messages : List β) (input : List α) (out : List β) (buffer : List α) : Prop where
  bytes : input = out.flatMap encode ++ buffer
  rest : ∃ later, messages = out ++ later ∧ Partial encode later buffer

variable {messages out : List β} {buffer : List α}

lemma drain_spec (h : Reads next encode Good) (hg : ∀ m ∈ messages, Good m)
    (hf : buffer.length ≤ fuel) (hb : buffer <+: messages.flatMap encode) (taken : List β) :
    ∃ out left, drain next fuel buffer taken = (left, .ok (taken ++ out)) ∧ Read encode messages buffer out left := by
  induction messages generalizing fuel buffer taken with
  | nil =>
    obtain rfl := prefix_nil.mp hb
    refine ⟨[], [], ?_, rfl, [], rfl, rfl⟩
    cases fuel with
    | zero => simp [drain]
    | succ fuel => simp [drain, h.nil]
  | cons m messages ih => ?_
  have hm := hg m (by simp)
  by_cases hc : encode m <+: buffer
  · obtain ⟨rest, rfl⟩ := hc
    have hlen : 0 < (encode m).length := length_pos_of_ne_nil (h.ne_nil m)
    rw [length_append] at hf
    obtain ⟨fuel, rfl⟩ : ∃ n, fuel = n + 1 := ⟨fuel - 1, by omega⟩
    have hl : rest.length ≤ fuel := by omega
    obtain ⟨out, left, hd, hr⟩ := ih (fun m' hm' => hg m' (by simp [hm'])) hl
      ((prefix_append_right_inj _).mp hb) (taken ++ [m])
    obtain ⟨later, rfl, hp⟩ := hr.rest
    refine ⟨m :: out, left, ?_, ?_, later, rfl, hp⟩
    · rw [drain, h.complete m rest hm]
      simpa using hd
    · rw [flatMap_cons, append_assoc, ← hr.bytes]
  have hp : buffer <+: encode m ∧ buffer ≠ encode m := by
    rcases prefix_or_prefix_of_prefix hb (prefix_append (encode m) _) with hl | hmo
    · exact ⟨hl, fun heq => hc (heq ▸ prefix_rfl)⟩
    · exact absurd hmo hc
  refine ⟨[], buffer, ?_, rfl, m :: messages, rfl, hp⟩
  cases fuel with
  | zero => simp [drain]
  | succ fuel => simp [drain, h.incomplete m buffer hm hp.1 hp.2]

lemma Read.more (h : Reads next encode Good) (hg : ∀ m ∈ messages, Good m) {input more : List α}
    (hr : Read encode messages input out buffer) (hmo : input ++ more <+: messages.flatMap encode) :
    ∃ out' left, drain next (buffer ++ more).length (buffer ++ more) [] = (left, .ok out') ∧
      Read encode messages (input ++ more) (out ++ out') left := by
  obtain ⟨_, rfl, _⟩ := hr.rest
  rw [hr.bytes, flatMap_append, append_assoc, prefix_append_right_inj] at hmo
  obtain ⟨out', left, hd, hr'⟩ :=
    drain_spec h (fun m hm => hg m (by simp [hm])) le_rfl hmo []
  obtain ⟨last, rfl, hp'⟩ := hr'.rest
  refine ⟨out', left, by simpa using hd, ?_, last, by simp, hp'⟩
  rw [hr.bytes, append_assoc, hr'.bytes, flatMap_append, append_assoc]

lemma Read.all (h : Read encode messages (messages.flatMap encode) out buffer) : out = messages := by
  obtain ⟨later, rfl, hp⟩ := h.rest
  have hb := h.bytes
  rw [flatMap_append, append_cancel_left_eq] at hb
  rcases later with _ | ⟨m, later⟩
  · simp
  -- The next message would be all of its own proper start.
  have hle := congrArg List.length hb
  rw [flatMap_cons, length_append] at hle
  have hs := hp.1.length_le
  exact absurd (hp.1.eq_of_length (by omega)) hp.2

end Codex.Framing
