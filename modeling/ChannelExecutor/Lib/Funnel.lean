import Mathlib.Algebra.GroupWithZero.Nat
import Mathlib.Algebra.Order.BigOperators.Group.Finset
import Mathlib.Data.Nat.Notation

set_option autoImplicit false

namespace ChannelExecutor.Lib

structure Funnel (lanes positions per rounds : ℕ) (put given : ℕ → ℕ → ℕ) (sent : ℕ → ℕ)
    (arrived seen notes : ℕ) : Prop where
  lanes_pos : 0 < lanes
  positions_pos : 0 < positions
  per_pos : 0 < per
  given_le : ∀ l < lanes, ∀ i, 0 < i → i ≤ positions → given l i ≤ put l i
  passes : ∀ l < lanes, ∀ i, 0 < i → i < positions → put l (i + 1) ≤ given l i
  starts : ∀ l < lanes, put l 1 ≤ rounds * per
  counts : ∀ l < lanes, per * sent l ≤ given l positions
  merges : arrived = ((List.range lanes).map sent).sum
  seen_le : seen ≤ arrived
  notifies : lanes * notes ≤ seen

namespace Funnel

variable {lanes positions per rounds : ℕ} {put given : ℕ → ℕ → ℕ} {sent : ℕ → ℕ}
variable {arrived seen notes : ℕ}

theorem put_le (h : Funnel lanes positions per rounds put given sent arrived seen notes) {l : ℕ}
    (hl : l < lanes) {i : ℕ} (hi0 : 0 < i) (hip : i ≤ positions) : put l i ≤ rounds * per := by
  induction i with
  | zero => exact absurd hi0 (Nat.lt_irrefl 0)
  | succ i ih =>
    by_cases hhead : i = 0
    · subst hhead
      exact h.starts l hl
    · have hpos : 0 < i := Nat.pos_of_ne_zero hhead
      calc put l (i + 1) ≤ given l i := h.passes l hl i hpos hip
        _ ≤ put l i := h.given_le l hl i hpos (Nat.le_of_lt hip)
        _ ≤ rounds * per := ih hpos (Nat.le_of_lt hip)

theorem sent_le (h : Funnel lanes positions per rounds put given sent arrived seen notes) {l : ℕ}
    (hl : l < lanes) : sent l ≤ rounds := by
  apply Nat.le_of_mul_le_mul_left _ h.per_pos
  calc per * sent l ≤ given l positions := h.counts l hl
    _ ≤ put l positions := h.given_le l hl _ h.positions_pos (Nat.le_refl _)
    _ ≤ rounds * per := h.put_le hl h.positions_pos (Nat.le_refl _)
    _ = per * rounds := Nat.mul_comm _ _

theorem arrived_le (h : Funnel lanes positions per rounds put given sent arrived seen notes) :
    arrived ≤ lanes * rounds := by
  have hsum := Finset.sum_le_card_nsmul (Finset.range lanes) sent rounds
    fun l hl => h.sent_le (Finset.mem_range.mp hl)
  rw [Finset.card_range] at hsum
  rw [h.merges]
  exact hsum

theorem sent_eq (h : Funnel lanes positions per rounds put given sent arrived seen notes)
    (hall : lanes * rounds ≤ arrived) {l : ℕ} (hl : l < lanes) : sent l = rounds := by
  have hsum : ∑ l ∈ Finset.range lanes, sent l = ∑ _l ∈ Finset.range lanes, rounds := by
    apply Nat.le_antisymm
    · exact Finset.sum_le_sum fun l hl => h.sent_le (Finset.mem_range.mp hl)
    · rw [Finset.sum_const, Finset.card_range]
      rw [h.merges] at hall
      exact hall
  have heq := (Finset.sum_eq_sum_iff_of_le fun l hl => h.sent_le (Finset.mem_range.mp hl)).mp hsum
  exact heq l (Finset.mem_range.mpr hl)

theorem full (h : Funnel lanes positions per rounds put given sent arrived seen notes)
    (hnotes : rounds ≤ notes) :
    (∀ l < lanes, ∀ i, 0 < i → i ≤ positions → given l i = rounds * per ∧ put l i = rounds * per) ∧
      (∀ l < lanes, sent l = rounds) ∧ seen = lanes * rounds ∧ arrived = lanes * rounds := by
  have hseen : lanes * rounds ≤ seen := Nat.le_trans (Nat.mul_le_mul_left _ hnotes) h.notifies
  have harrived := Nat.le_trans hseen h.seen_le
  have hle := h.arrived_le
  have hsent : ∀ l < lanes, sent l = rounds := fun l hl => h.sent_eq harrived hl
  refine ⟨?_, hsent, Nat.le_antisymm (Nat.le_trans h.seen_le hle) hseen, Nat.le_antisymm hle harrived⟩
  intro l hl
  -- back from the end of the lane, each position was given what the next one got
  have hdown : ∀ j, j < positions → rounds * per ≤ given l (positions - j) := by
    intro j
    induction j with
    | zero =>
      intro _
      rw [Nat.mul_comm, ← hsent l hl]
      exact h.counts l hl
    | succ j ih =>
      intro hj
      have hnext := h.passes l hl (positions - (j + 1)) (by omega) (by omega)
      rw [show positions - (j + 1) + 1 = positions - j by omega] at hnext
      have hput := h.given_le l hl (positions - j) (by omega) (by omega)
      exact Nat.le_trans (ih (by omega)) (Nat.le_trans hput hnext)
  intro i hi0 hip
  have hgiven := hdown (positions - i) (by omega)
  rw [show positions - (positions - i) = i by omega] at hgiven
  have hput := h.given_le l hl i hi0 hip
  have hbound := h.put_le hl hi0 hip
  omega

end Funnel

end ChannelExecutor.Lib
