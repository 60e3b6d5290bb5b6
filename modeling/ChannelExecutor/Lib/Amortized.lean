import ChannelExecutor.Lib.TransitionSystem
import Mathlib.Algebra.BigOperators.Group.List.Basic
import Mathlib.Algebra.GroupWithZero.Nat
import Mathlib.Algebra.Order.BigOperators.Group.List

set_option autoImplicit false

namespace ChannelExecutor.Lib

theorem sum_map_set {α : Type} (f : α → ℕ) {l : List α} {j : ℕ} {x : α} (h : l[j]? = some x) (y : α) :
    ((l.set j y).map f).sum + f x = (l.map f).sum + f y := by
  obtain ⟨hj, rfl⟩ := List.getElem?_eq_some_iff.mp h
  have hset := ((List.set_perm_cons_eraseIdx hj y).map f).sum_nat
  have hget := ((List.getElem_cons_eraseIdx_perm hj).map f).sum_nat
  simp only [List.map_cons, List.sum_cons] at hset hget
  omega

theorem sum_map_le_change {β : Type} {f g : β → ℕ} {e : ℕ} {bs : List β} {b : β}
    (h : ∀ x, x ≠ b → g x ≤ f x + e) (hn : bs.Nodup) (hb : b ∈ bs) :
    (bs.map g).sum + f b ≤ (bs.map f).sum + g b + e * bs.length := by
  have hoff : ∀ {cs : List β}, b ∉ cs → (cs.map g).sum ≤ (cs.map f).sum + e * cs.length := by
    intro cs hcs
    induction cs with
    | nil => exact Nat.le_refl _
    | cons x cs ih =>
      obtain ⟨hx, hcs⟩ := not_or.mp (fun hor => hcs (List.mem_cons.mpr hor))
      have hone := h x (Ne.symm hx)
      have hrest := ih hcs
      simp only [List.map_cons, List.sum_cons, List.length_cons, Nat.mul_succ]
      omega
  induction bs with
  | nil => cases hb
  | cons x bs ih =>
    obtain ⟨hx, hn⟩ := List.nodup_cons.mp hn
    simp only [List.map_cons, List.sum_cons, List.length_cons, Nat.mul_succ]
    by_cases hxb : x = b
    · subst hxb
      have := hoff hx
      omega
    · have hone := h x hxb
      have hrest := ih hn ((List.mem_cons.mp hb).resolve_left (Ne.symm hxb))
      omega

namespace System

variable {σ α : Type} {S : System σ α}

def tally (S : System σ α) (q : σ → α → Bool) : σ → List α → ℕ
  | _, [] => 0
  | s, a :: as => (q s a).toNat + ((S.step s a).map fun t => S.tally q t as).getD 0

/-- The steps `p` cost one each and are paid out of `w`; the steps `q` pay `k` into it, and `c` tells
what else was paid in. -/
theorem exec_tally {ok : σ → α → Bool} {I : σ → Prop} {p : α → Bool} {q : σ → α → Bool} {k : ℕ}
    {w c : σ → ℕ} (hstep : ∀ s a t, I s → ok s a = true → S.step s a = some t → I t ∧
      (p a).toNat + w t + c s ≤ w s + k * (q s a).toNat + c t)
    {s t : σ} {as : List α} (hs : I s) (h : S.exec ok s as = some t) :
    as.countP p + w t + c s ≤ w s + k * S.tally q s as + c t := by
  induction as generalizing s with
  | nil =>
    obtain rfl : s = t := by simpa [exec] using h
    simp
  | cons a as ih =>
    simp only [exec] at h
    split at h
    next hok =>
      obtain ⟨u, hu, hrest⟩ := Option.bind_eq_some_iff.mp h
      obtain ⟨hI, hpay⟩ := hstep s a u hs hok hu
      have hrun := ih hI hrest
      have hp : (a :: as).countP p = as.countP p + (p a).toNat := by
        cases hpa : p a <;> simp [hpa]
      have hq : k * S.tally q s (a :: as) = k * (q s a).toNat + k * S.tally q u as := by
        rw [tally, hu, Option.map_some, Option.getD_some, Nat.mul_add]
      omega
    next => cases h

theorem tally_countP {ok : σ → α → Bool} {q : α → Bool} {s t : σ} {as : List α}
    (h : S.exec ok s as = some t) : S.tally (fun _ => q) s as = as.countP q := by
  induction as generalizing s with
  | nil => rfl
  | cons a as ih =>
    simp only [exec] at h
    split at h
    next =>
      obtain ⟨u, hu, hrest⟩ := Option.bind_eq_some_iff.mp h
      rw [tally, hu, Option.map_some, Option.getD_some, ih hrest]
      cases hqa : q a <;> simp [hqa, Nat.add_comm]
    next => cases h

theorem exec_exact {ok : σ → α → Bool} {I : σ → Prop} {paid owed : σ → ℕ}
    (hstep : ∀ s a t, I s → ok s a = true → S.step s a = some t →
      I t ∧ paid t + owed s = paid s + owed t + 1)
    {s t : σ} {as : List α} (hs : I s) (h : S.exec ok s as = some t) :
    I t ∧ paid t + owed s = paid s + owed t + as.length := by
  induction as generalizing s with
  | nil =>
    obtain rfl : s = t := by simpa [exec] using h
    exact ⟨hs, rfl⟩
  | cons a as ih =>
    simp only [exec] at h
    split at h
    next hok =>
      obtain ⟨u, hu, hrest⟩ := Option.bind_eq_some_iff.mp h
      obtain ⟨hI, hpay⟩ := hstep s a u hs hok hu
      obtain ⟨ht, hrun⟩ := ih hI hrest
      refine ⟨ht, ?_⟩
      rw [List.length_cons]
      omega
    next => cases h

theorem exec_append {ok : σ → α → Bool} {s t u : σ} {as bs : List α}
    (h : S.exec ok s as = some t) (h' : S.exec ok t bs = some u) : S.exec ok s (as ++ bs) = some u := by
  induction as generalizing s with
  | nil =>
    obtain rfl : s = t := by simpa [exec] using h
    exact h'
  | cons a as ih =>
    simp only [exec] at h
    split at h
    next hok =>
      obtain ⟨v, hv, hrest⟩ := Option.bind_eq_some_iff.mp h
      simp only [List.cons_append, exec, if_pos hok, hv, Option.bind_some]
      exact ih hrest
    next => cases h

theorem exec_mono {ok ok' : σ → α → Bool} (hok : ∀ s a, ok s a = true → ok' s a = true) {s t : σ}
    {as : List α} (h : S.exec ok s as = some t) : S.exec ok' s as = some t := by
  induction as generalizing s with
  | nil => exact h
  | cons a as ih =>
    simp only [exec] at h ⊢
    split at h
    next ha =>
      obtain ⟨u, hu, hrest⟩ := Option.bind_eq_some_iff.mp h
      rw [if_pos (hok s a ha), hu]
      exact ih hrest
    next => cases h

theorem exec_bounded {ok : σ → α → Bool} {I : σ → Prop} {w : σ → ℕ}
    (hstep : ∀ s a t, I s → ok s a = true → S.step s a = some t → I t ∧ w t < w s)
    {s t : σ} {as : List α} (hs : I s) (h : S.exec ok s as = some t) :
    I t ∧ as.length + w t ≤ w s := by
  induction as generalizing s with
  | nil =>
    obtain rfl : s = t := by simpa [exec] using h
    exact ⟨hs, by simp⟩
  | cons a as ih =>
    simp only [exec] at h
    split at h
    next hok =>
      obtain ⟨u, hu, hrest⟩ := Option.bind_eq_some_iff.mp h
      obtain ⟨hI, hlt⟩ := hstep s a u hs hok hu
      obtain ⟨ht, hle⟩ := ih hI hrest
      refine ⟨ht, ?_⟩
      rw [List.length_cons]
      omega
    next => cases h

theorem exec_completes {ok : σ → α → Bool} {I : σ → Prop} {w : σ → ℕ}
    (hstep : ∀ s a t, I s → ok s a = true → S.step s a = some t → I t ∧ w t < w s)
    {s : σ} (hs : I s) :
    ∃ as t, S.exec ok s as = some t ∧ I t ∧ ∀ a, ok t a = true → S.step t a = none := by
  induction hn : w s using Nat.strongRecOn generalizing s with
  | ind n ih =>
  by_cases hstuck : ∀ a, ok s a = true → S.step s a = none
  · exact ⟨[], s, rfl, hs, hstuck⟩
  · obtain ⟨a, ha, hne⟩ : ∃ a, ok s a = true ∧ S.step s a ≠ none := by simpa using hstuck
    obtain ⟨t, ht⟩ := Option.ne_none_iff_exists'.mp hne
    obtain ⟨hI, hlt⟩ := hstep s a t hs ha ht
    obtain ⟨as, u, hexec, hu⟩ := ih (w t) (hn ▸ hlt) hI rfl
    refine ⟨a :: as, u, ?_, hu⟩
    simp only [exec, if_pos ha, ht, Option.bind_some]
    exact hexec

end System

end ChannelExecutor.Lib
