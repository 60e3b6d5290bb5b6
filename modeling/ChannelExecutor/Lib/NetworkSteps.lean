import ChannelExecutor.Lib.NetworkRuns

set_option autoImplicit false

namespace ChannelExecutor.Lib.Net

variable {κ μ ε σ : Type}
variable {receive : σ → μ → Call κ μ ε σ} {cap : κ → ℕ} {n t : Net κ μ ε σ} {c : κ} {cs : List κ}

def handled (n : Net κ μ ε σ) (c : κ) : ℕ := 2 * (n.got c).length + (n.out c).length

def inCall (n : Net κ μ ε σ) (c : κ) : ℕ := if (n.call c).isSome then 1 else 0

theorem counted_at (hn : cs.Nodup) (hc : c ∈ cs) (hhandled : ∀ x, x ≠ c → t.handled x = n.handled x)
    (hcall : ∀ x, x ≠ c → t.inCall x = n.inCall x)
    (h : t.handled c + n.inCall c = n.handled c + t.inCall c + 1) :
    (cs.map t.handled).sum + (cs.map n.inCall).sum =
      (cs.map n.handled).sum + (cs.map t.inCall).sum + 1 := by
  have hsum := sum_map_change hhandled hn hc
  have hcalls := sum_map_change hcall hn hc
  omega

def Within (cap : κ → ℕ) (n : Net κ μ ε σ) : Prop := ∀ c, (n.queue c).length ≤ cap c

theorem within_start (init : κ → σ) : (start init : Net κ μ ε σ).Within cap := fun _ => Nat.zero_le _

variable [DecidableEq κ]

theorem counted_accept (hn : cs.Nodup) (hc : c ∈ cs) (h : n.accept receive c = some t) :
    (cs.map t.handled).sum + (cs.map n.inCall).sum =
      (cs.map n.handled).sum + (cs.map t.inCall).sum + 1 := by
  obtain ⟨msg, rest, hcall, -, rfl⟩ := accept_cases h
  apply counted_at hn hc
  · intro x hx
    simp [handled, pop, hx]
  · intro x hx
    simp [inCall, hx]
  · simp [handled, inCall, pop, hcall, Nat.mul_add]
    omega

theorem counted_advance (hn : cs.Nodup) (hc : c ∈ cs) (h : n.advance cap c = some t) :
    (cs.map t.handled).sum + (cs.map n.inCall).sum =
      (cs.map n.handled).sum + (cs.map t.inCall).sum + 1 := by
  obtain ⟨dst, msg, rest, hcall, -, rfl⟩ | ⟨b, hcall, rfl⟩ := advance_cases h
  · apply counted_at hn hc
    · intro x hx
      simp [handled, sent, push, hx]
    · intro x hx
      simp [inCall, sent, push, hx]
    · simp [handled, inCall, sent, push, hcall]
      omega
  · apply counted_at hn hc
    · intro x hx
      rfl
    · intro x hx
      simp [inCall, finished, hx]
    · simp [handled, inCall, finished, hcall]

theorem handled_take (hc : c ∉ cs) (h : n.take c = some t) :
    cs.map t.handled = cs.map n.handled := by
  obtain ⟨msg, rest, -, rfl⟩ := take_cases h
  apply List.map_congr_left
  intro x hx
  have hne : x ≠ c := fun he => hc (he ▸ hx)
  simp [handled, pop, hne]

section Within

theorem Within.push (h : n.Within cap) {msg : μ} (hroom : (n.queue c).length < cap c) :
    (n.push c msg).Within cap := by
  intro x
  by_cases hx : x = c
  · subst hx
    simp only [Net.push, Function.update_self, List.length_append, List.length_singleton]
    exact hroom
  · simpa [Net.push, hx] using h x

theorem Within.pop (h : n.Within cap) {msg : μ} {rest : List μ} (hq : n.queue c = msg :: rest) :
    (n.pop c msg rest).Within cap := by
  intro x
  have hx := h x
  by_cases hxc : x = c
  · subst hxc
    rw [hq, List.length_cons] at hx
    simp only [Net.pop, Function.update_self]
    omega
  · simpa [Net.pop, hxc] using hx

theorem Within.take (h : n.Within cap) (ht : n.take c = some t) : t.Within cap := by
  obtain ⟨msg, rest, hq, rfl⟩ := take_cases ht
  exact h.pop hq

theorem Within.accept (h : n.Within cap) (ht : n.accept receive c = some t) : t.Within cap := by
  obtain ⟨msg, rest, -, hq, rfl⟩ := accept_cases ht
  exact h.pop hq

theorem Within.advance (h : n.Within cap) (ht : n.advance cap c = some t) : t.Within cap := by
  obtain ⟨dst, msg, rest, -, hroom, rfl⟩ | ⟨b, -, rfl⟩ := advance_cases ht
  · exact h.push hroom
  · exact h

end Within

end ChannelExecutor.Lib.Net
