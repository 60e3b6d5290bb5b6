import ChannelExecutor.Lib.WaitSet
import Mathlib.Data.Int.Notation

set_option autoImplicit false

namespace ChannelExecutor.Lib.WaitSet

def seeks (x : Waiter) : Bool :=
  x.stage = .trying || (x.stage = .start && x.key.isNone)

def seekers (w : WaitSet) : ℕ := w.waiters.countP seeks

def spent (w : WaitSet) : ℕ := w.slab.count Option.isNone

def armed (w : WaitSet) : ℕ := w.slab.count Option.isSome

def demand (w : WaitSet) : ℕ := w.seekers + w.spent

def Asleep (x : Waiter) : Prop := x.stage = .pending ∧ x.woken = false ∧ x.dropped = false

/-- What a move does to the tokens `T` and the owed notifies `D`. -/
def Settles : Move → ℤ → ℕ → ℤ → ℕ → Prop
  | .advance _ .notifying, T, D, T', D' => T = T' + 1 ∧ D' = D
  | .advance _ .inserting, T, D, T', D' => T = 0 ∧ T' = T ∧ D' = D
  | .advance _ .pending, T, D, T', D' => T = 0 ∧ T' = T ∧ D' = D
  | .notify, T, D, T', D' => T' = T ∧ D = D' + 1
  | _, T, D, T', D' => T' = T ∧ D' = D

def Covered (w : WaitSet) (T : ℤ) (D : ℕ) : Prop := T ≤ D + w.demand

def Balanced (w : WaitSet) (T : ℤ) (D : ℕ) : Prop :=
  (∃ (i : ℕ) (x : Waiter), w.waiters[i]? = some x ∧ Asleep x) → w.Covered T D

theorem countP_set_some {β : Type} {l : List β} {i : ℕ} {x : β} (h : l[i]? = some x) (p : β → Bool)
    (y : β) : (l.set i y).countP p + (if p x then 1 else 0) =
      l.countP p + (if p y then 1 else 0) := by
  obtain ⟨hl, rfl⟩ := List.getElem?_eq_some_iff.mp h
  have hpos : (if p l[i] then 1 else 0) ≤ l.countP p := by
    split
    next hp => exact List.countP_pos_iff.mpr ⟨_, List.getElem_mem hl, hp⟩
    next => exact Nat.zero_le _
  rw [List.countP_set hl]
  omega

theorem seekers_wake (ws : List Waiter) (t : Option Ticket) :
    (wake ws t).countP seeks = ws.countP seeks := by
  cases t with
  | none => rfl
  | some t =>
    simp only [wake, List.modify_eq_set_getElem?]
    cases hx : ws[t.waiter]? with
    | none => simp
    | some x =>
      have := countP_set_some hx seeks { x with woken := true }
      simpa [seeks] using this

theorem Step.covered {w w' : WaitSet} {m : Move} (hw : Step w m w') (ho : Owned w)
    {T T' : ℤ} {D D' : ℕ} (hs : Settles m T D T' D') (hn : m = .notify → 0 < w.armed)
    (h : w.Covered T D) : w'.Covered T' D' := by
  cases hw with
  | join =>
    obtain ⟨rfl, rfl⟩ := hs
    simpa [Covered, demand, seekers, spent, seeks, Waiter.fresh] using h
  | @poll i x hx hst hd =>
    obtain ⟨rfl, rfl⟩ := hs
    have hc := countP_set_some hx seeks
      { x with stage := .start, polls := x.polls + 1, woken := false }
    have hx0 : seeks x = false := by rcases hst with hst | hst <;> simp [seeks, hst]
    simp only [hx0] at hc
    simp only [Covered, demand, seekers, spent, update] at h ⊢
    simp at hc
    omega
  | @release i x k slab hx hst hk hr =>
    obtain ⟨rfl, rfl⟩ := hs
    obtain ⟨-, rfl⟩ := Slab.remove_eq_some.mp hr
    have hc := countP_set_some hx seeks { x with stage := .trying, key := none }
    have hx0 : seeks x = false := by simp [seeks, hst, hk]
    have hsl := Slab.count_put Option.isNone w.slab k none
    have hle : (if (w.slab.get k).any Option.isNone then 1 else 0) ≤ 1 := by split <;> omega
    have hx1 : seeks { x with stage := .trying, key := none } = true := rfl
    simp only [hx0, hx1, Bool.false_eq_true, if_true, if_false] at hc
    simp only [Option.any_none, Bool.false_eq_true, if_false] at hsl
    simp only [Covered, demand, seekers, spent] at h ⊢
    omega
  | @advance i x st hx ha =>
    have hc := countP_set_some hx seeks { x with stage := st }
    have hkeyed := ho.keyed i x hx
    generalize hst : x.stage = s at ha hs
    simp only [Covered, demand, seekers, spent, update] at h ⊢
    cases ha <;> simp_all [Settles, seeks, Keyed] <;> omega
  | @register i x k slab hx hst _ hr =>
    obtain ⟨rfl, rfl⟩ := hs
    obtain ⟨hv, rfl⟩ := Slab.insert_eq_some.mp hr
    have hc := countP_set_some hx seeks { x with stage := .checking, key := some k }
    have hsl := Slab.count_put Option.isNone w.slab k (some (some ⟨i, x.polls⟩))
    simp [hst, seeks] at hc
    simp [hv] at hsl
    simp only [Covered, demand, seekers, spent] at h ⊢
    omega
  | @drop i x hx hst =>
    obtain ⟨rfl, rfl⟩ := hs
    have hc := countP_set_some hx seeks { x with dropped := true }
    have hsame : seeks { x with dropped := true } = seeks x := rfl
    rw [hsame] at hc
    simp only [Covered, demand, seekers, spent, update] at h ⊢
    omega
  | notify =>
    obtain ⟨rfl, rfl⟩ := hs
    obtain ⟨-, hnone⟩ | ⟨k, t, hk, he⟩ := w.slab.takeFirst_cases
    · obtain ⟨k, e, hk, he⟩ := Slab.exists_of_count_pos (hn rfl)
      obtain ⟨t, rfl⟩ := Option.isSome_iff_exists.mp he
      exact absurd hk (hnone k t)
    have hsl := Slab.count_put Option.isNone w.slab k (some none)
    simp [hk] at hsl
    simp only [Covered, demand, seekers, spent] at h ⊢
    rw [he, seekers_wake]
    simp only
    omega

theorem Owned.armed_pos {w : WaitSet} (h : Owned w) {i : ℕ} {x : Waiter}
    (hx : w.waiters[i]? = some x) (ha : Asleep x) : 0 < w.armed := by
  have hk := h.keyed i x hx
  simp only [Keyed, ha.1] at hk
  obtain ⟨k, hk⟩ := Option.isSome_iff_exists.mp hk
  obtain ⟨e, he, hf⟩ := h.held i x k hx hk
  cases e with
  | none => simp [Fits, ha.1, ha.2.1] at hf
  | some t => exact Slab.count_pos he rfl

theorem Step.asleep {w w' : WaitSet} {m : Move} (hw : Step w m w') {i : ℕ} {x : Waiter}
    (hx : w'.waiters[i]? = some x) (ha : Asleep x) :
    m = .advance i .pending ∨ ∃ y, w.waiters[i]? = some y ∧ Asleep y := by
  have of_set : ∀ {j : ℕ} {y z : Waiter}, w.waiters[j]? = some y →
      (w.waiters.set j z)[i]? = some x → (Asleep z → Asleep y) →
      ∃ y, w.waiters[i]? = some y ∧ Asleep y := by
    intro j y z hy hz hzy
    rw [getElem?_set_some hy] at hz
    split at hz
    next hij => subst i; obtain rfl := Option.some.inj hz; exact ⟨y, hy, hzy ha⟩
    next => exact ⟨x, hz, ha⟩
  cases hw with
  | join =>
    rw [List.getElem?_append] at hx
    split at hx
    next => exact .inr ⟨x, hx, ha⟩
    next =>
      obtain rfl := List.mem_singleton.mp (List.mem_of_getElem? hx)
      simp [Asleep, Waiter.fresh] at ha
  | poll hy _ _ => exact .inr (of_set hy hx (fun hz => absurd hz.1 (by simp)))
  | release hy _ _ _ => exact .inr (of_set hy hx (fun hz => absurd hz.1 (by simp)))
  | register hy _ _ _ => exact .inr (of_set hy hx (fun hz => absurd hz.1 (by simp)))
  | drop hy _ => exact .inr (of_set hy hx (fun hz => absurd hz.2.2 (by simp)))
  | @advance j y st hy hadv =>
    by_cases hij : i = j
    · subst j
      simp only [update, getElem?_set_some hy, if_true, Option.some.injEq] at hx
      subst x
      have hst : st = .pending := ha.1
      subst st
      generalize hs : y.stage = s at hadv ⊢
      cases hadv
      exact .inl rfl
    · exact .inr ⟨x, by simpa [update, getElem?_set_some hy, hij] using hx, ha⟩
  | notify =>
    right
    cases ht : w.slab.takeFirst.2 with
    | none => simp only [ht, wake] at hx; exact ⟨x, hx, ha⟩
    | some t =>
      simp only [ht, wake_get] at hx
      split at hx
      next =>
        obtain ⟨y, hy, rfl⟩ := Option.map_eq_some_iff.mp hx
        simp [Asleep] at ha
      next => exact ⟨x, hx, ha⟩

theorem Step.balanced {w w' : WaitSet} {m : Move} (hw : Step w m w') (ho : Owned w)
    {T T' : ℤ} {D D' : ℕ} (hs : Settles m T D T' D') (h : w.Balanced T D) : w'.Balanced T' D' := by
  rintro ⟨i, x, hx, ha⟩
  rcases hw.asleep hx ha with rfl | ⟨y, hy, hay⟩
  · obtain ⟨rfl, rfl, rfl⟩ := hs
    simp only [Covered]
    omega
  · exact hw.covered ho hs (fun _ => ho.armed_pos hy hay) (h ⟨i, y, hy, hay⟩)

/-- What turns the account: a move of a waiter, a token that comes with a notify owed, tokens
taken by somebody who does not wait, or a token that nobody owes a notify for. -/
inductive Cause
  | move (m : Move)
  | supply
  | steal
  | gift

inductive Turn (w : WaitSet) (T : ℤ) (D : ℕ) : Cause → WaitSet → ℤ → ℕ → Prop
  | move {m w' T' D'} (hw : Step w m w') (hs : Settles m T D T' D') : Turn w T D (.move m) w' T' D'
  | supply {T' D'} (hT : T' = T + 1) (hD : D' = D + 1) : Turn w T D .supply w T' D'
  | steal {T' D'} (hT : T' ≤ T) (hD : D' = D) : Turn w T D .steal w T' D'
  | gift {T' D'} (hT : T' = T + 1) (hD : D' = D) : Turn w T D .gift w T' D'

section Turn

variable {w w' : WaitSet} {T T' : ℤ} {D D' : ℕ} {c : Cause}

theorem Turn.owned (ht : Turn w T D c w' T' D') (h : Owned w) : Owned w' := by
  cases ht with
  | move hw hs => exact hw.owned h
  | supply hT hD => exact h
  | steal hT hD => exact h
  | gift hT hD => exact h

theorem Turn.covered (ht : Turn w T D c w' T' D') (ho : Owned w)
    (hn : c = .move .notify → 0 < w.armed) (hg : c ≠ .gift) (h : w.Covered T D) :
    w'.Covered T' D' := by
  cases ht with
  | move hw hs => exact hw.covered ho hs (fun he => hn (he ▸ rfl)) h
  | supply hT hD => simp only [Covered] at h ⊢; omega
  | steal hT hD => simp only [Covered] at h ⊢; omega
  | gift hT hD => exact absurd rfl hg

theorem Turn.balanced (ht : Turn w T D c w' T' D') (ho : Owned w) (hg : c ≠ .gift)
    (h : w.Balanced T D) : w'.Balanced T' D' := by
  cases ht with
  | move hw hs => exact hw.balanced ho hs h
  | supply hT hD => exact fun hs => (Turn.supply hT hD).covered ho (by simp) hg (h hs)
  | steal hT hD => exact fun hs => (Turn.steal hT hD).covered ho (by simp) hg (h hs)
  | gift hT hD => exact absurd rfl hg

theorem Turn.balanced_of_gift (ht : Turn w T D c w' T' D') (ho : Owned w)
    (hg : c = .gift → ∀ (i : ℕ) (x : Waiter), w.waiters[i]? = some x → ¬ Asleep x)
    (h : w.Balanced T D) : w'.Balanced T' D' := by
  by_cases hc : c = .gift
  · subst hc
    cases ht
    rintro ⟨i, x, hx, hs⟩
    exact absurd hs (hg rfl i x hx)
  · exact ht.balanced ho hc h

end Turn

structure Quiet (w : WaitSet) : Prop where
  idle : ∀ (i : ℕ) (x : Waiter), w.waiters[i]? = some x → x.stage.inPoll = false
  polled : ∀ (i : ℕ) (x : Waiter), w.waiters[i]? = some x → x.stage = .pending →
    x.dropped = false → x.woken = false

def Clean (w : WaitSet) : Prop :=
  ∀ (i : ℕ) (x : Waiter), w.waiters[i]? = some x → x.dropped = true → x.key = none

theorem Step.clean {w w' : WaitSet} {m : Move} (hw : Step w m w')
    (hm : ∀ i x, m = .drop i → w.waiters[i]? = some x → x.key = none) (h : w.Clean) :
    w'.Clean := by
  have of_set : ∀ {j : ℕ} {y z : Waiter}, w.waiters[j]? = some y →
      (z.dropped = true → z.key = none) → ∀ (i : ℕ) (x : Waiter),
      (w.waiters.set j z)[i]? = some x → x.dropped = true → x.key = none := by
    intro j y z hy hzy i x hx hd
    rw [getElem?_set_some hy] at hx
    split at hx
    next => obtain rfl := Option.some.inj hx; exact hzy hd
    next => exact h i x hx hd
  cases hw with
  | join =>
    intro i x hx hd
    rw [List.getElem?_append] at hx
    split at hx
    next => exact h i x hx hd
    next => obtain rfl := List.mem_singleton.mp (List.mem_of_getElem? hx); rfl
  | @poll j y hy _ _ => exact of_set hy (fun hd => h j y hy hd)
  | release hy _ _ _ => exact of_set hy (fun _ => rfl)
  | @advance j y st hy _ => exact of_set hy (fun hd => h j y hy hd)
  | register hy _ hd _ => exact of_set hy (fun hz => absurd hz (by simp [hd]))
  | @drop j y hy _ => exact of_set hy (fun _ => hm j y rfl hy)
  | notify =>
    intro i x hx hd
    cases ht : w.slab.takeFirst.2 with
    | none => simp only [ht, wake] at hx; exact h i x hx hd
    | some t =>
      simp only [ht, wake_get] at hx
      split at hx
      next =>
        obtain ⟨y, hy, rfl⟩ := Option.map_eq_some_iff.mp hx
        exact h i y hy hd
      next => exact h i x hx hd

theorem Turn.clean {w w' : WaitSet} {T T' : ℤ} {D D' : ℕ} {c : Cause}
    (ht : Turn w T D c w' T' D')
    (hm : ∀ i x, c = .move (.drop i) → w.waiters[i]? = some x → x.key = none) (h : w.Clean) :
    w'.Clean := by
  cases ht with
  | move hw hs => exact hw.clean (fun i x he => hm i x (he ▸ rfl)) h
  | supply hT hD => exact h
  | steal hT hD => exact h
  | gift hT hD => exact h

theorem demand_quiet {w : WaitSet} (ho : Owned w) (hc : w.Clean) (hq : w.Quiet) : w.demand = 0 := by
  have hseek : w.seekers = 0 := by
    rw [seekers, List.countP_eq_zero]
    intro x hx
    obtain ⟨i, hi⟩ := List.getElem?_of_mem hx
    have := hq.idle i x hi
    cases hs : x.stage <;> simp_all [seeks, Stage.inPoll]
  have hspent : w.spent = 0 := by
    by_contra hpos
    obtain ⟨k, e, hk, he⟩ := Slab.exists_of_count_pos (Nat.pos_of_ne_zero hpos)
    obtain rfl := Option.isNone_iff_eq_none.mp he
    obtain ⟨i, x, hx, hxk⟩ := ho.owner k none hk
    obtain ⟨e, he', hf⟩ := ho.held i x k hx hxk
    obtain rfl := Option.some.inj (he'.symm.trans hk)
    have hidle := hq.idle i x hx
    have hkeyed := ho.keyed i x hx
    have hlive : x.dropped = false := by
      by_contra hd
      simp [hc i x hx (by simpa using hd)] at hxk
    have hpend : x.stage = .pending := by
      cases hs : x.stage <;> simp_all [Stage.inPoll, Keyed]
    have hwoken := hq.polled i x hx hpend hlive
    simp [Fits, hwoken, hpend] at hf
  simp [demand, hseek, hspent]

theorem Balanced.no_tokens {w : WaitSet} {T : ℤ} (h : w.Balanced T 0) (ho : Owned w)
    (hc : w.Clean) (hq : w.Quiet) {i : ℕ} {x : Waiter} (hx : w.waiters[i]? = some x)
    (hs : x.stage = .pending) (hd : x.dropped = false) : T ≤ 0 := by
  have := h ⟨i, x, hx, hs, hq.polled i x hx hs hd, hd⟩
  simpa [Covered, demand_quiet ho hc hq] using this

end ChannelExecutor.Lib.WaitSet
