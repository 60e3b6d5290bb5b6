import ChannelExecutor.LostWakeups

set_option autoImplicit false

namespace ChannelExecutor.ChannelSystem

open Lib Lib.WaitSet

variable {α : Type}

/-- Waiter `i` leaves `w` for `w'` without a trace: its key is vacant again, and a wake that it
did not use goes to another waiter. -/
structure LeavesCleanly (w w' : WaitSet) (i : ℕ) : Prop where
  vacated : ∀ (x : Waiter) (k : ℕ), w.waiters[i]? = some x → x.key = some k → w'.slab.get k = none
  handsOver : ∀ (x : Waiter) (k : ℕ), w.waiters[i]? = some x → x.key = some k →
    w.slab.get k = some none →
    (∃ (j : ℕ) (y : Waiter) (l : ℕ) (t : Ticket), j ≠ i ∧ w.waiters[j]? = some y ∧
      y.key = some l ∧ w.slab.get l = some (some t)) →
    ∃ (j : ℕ) (y z : Waiter), j ≠ i ∧ w.waiters[j]? = some y ∧ y.woken = false ∧
      w'.waiters[j]? = some z ∧ z.woken = true

def NotifyReaches (w : WaitSet) : Prop :=
  (∃ (i : ℕ) (x : Waiter) (k : ℕ) (t : Ticket), w.waiters[i]? = some x ∧ x.dropped = false ∧
    x.key = some k ∧ w.slab.get k = some (some t)) →
  ∃ (t : Ticket) (x : Waiter), w.slab.takeFirst.2 = some t ∧ w.waiters[t.waiter]? = some x ∧
    x.dropped = false

theorem leavesCleanly_iff {w w' : WaitSet} (ho : Owned w) (hs : w'.slab = w.slab) {i : ℕ}
    {x : Waiter} (hx : w.waiters[i]? = some x) : LeavesCleanly w w' i ↔ x.key = none := by
  constructor
  · intro h
    by_contra hk
    obtain ⟨k, hk⟩ := Option.ne_none_iff_exists'.mp hk
    obtain ⟨e, he, -⟩ := ho.held i x k hx hk
    simp [← hs, h.vacated x k hx hk] at he
  · intro h
    have hno : ∀ (y : Waiter) (k : ℕ), w.waiters[i]? = some y → y.key ≠ some k := by
      intro y k hy hk
      obtain rfl := Option.some.inj (hx.symm.trans hy)
      simp [h] at hk
    exact ⟨fun y k hy hk => absurd hk (hno y k hy), fun y k hy hk => absurd hk (hno y k hy)⟩

theorem notifyReaches_of_clean {w : WaitSet} (ho : Owned w) (hc : w.Clean) : NotifyReaches w := by
  rintro ⟨i, x, k, t, hx, -, hk, ht⟩
  obtain ⟨-, hnone⟩ | ⟨l, u, hl, hu⟩ := w.slab.takeFirst_cases
  · exact absurd ht (hnone k t)
  · obtain ⟨j, y, hy, hyl⟩ := ho.owner l _ hl
    obtain ⟨e, he, hf⟩ := ho.held j y l hy hyl
    obtain rfl := Option.some.inj (he.symm.trans hl)
    refine ⟨u, y, by rw [hu], hf.1 ▸ hy, ?_⟩
    by_contra hd
    simp [hc j y hy (by simpa using hd)] at hyl

def DropsCleanly (s t : State α) : Act α → Prop
  | .dropSend i => LeavesCleanly (sendSide s) (sendSide t) i
  | .dropRecv i => LeavesCleanly (recvSide s) (recvSide t) i
  | _ => True

theorem dropsCleanly_iff {s t : State α} {a : Act α} (hi : Inv s) (h : step s a = some t) :
    DropsCleanly s t a ↔ unregistered s a = true := by
  cases step_does hi.connected h with
  | @dropSend i d hd hl hp =>
    have hiff : DropsCleanly s (s.putSend i { d with dropped := true }) (.dropSend i) ↔ _ :=
      leavesCleanly_iff hi.sendOwned (by rfl) (sendSide_get hd)
    simp [hiff, unregistered, hd, sendWaiter]
  | @dropRecv i d hd hl hp =>
    have hiff : DropsCleanly s (s.putRecv i { d with dropped := true }) (.dropRecv i) ↔ _ :=
      leavesCleanly_iff hi.recvOwned (by rfl) (recvSide_get hd)
    simp [hiff, unregistered, hd, recvWaiter]
  | _ => simp [DropsCleanly, unregistered]

def dropsUnregistered (s : State α) (a : Act α) : Bool := unregistered s a && !a.isTrySend

/-- A drop leaves no trace exactly when the future is unregistered; while every drop is such a
one, each notify reaches a live future and no receiver is left asleep with a message queued. -/
theorem drops_clean_iff_unregistered (cap : Option ℕ) :
    (∀ (s t : State α) (a : Act α), (system cap).Reachable s → step s a = some t →
      (DropsCleanly s t a ↔ unregistered s a = true)) ∧
    (∀ s : State α, (system cap).ReachableBy (fun s a => unregistered s a = true) s →
      NotifyReaches (sendSide s) ∧ NotifyReaches (recvSide s)) ∧
    (∀ s : State α, (system cap).ReachableBy (fun s a => dropsUnregistered s a = true) s →
      Quiescent s → ∀ d ∈ s.recvs, d.fut.point = .pending → d.dropped = false →
      s.chan.inner.queue = []) := by
  refine ⟨fun s t a h hstep => dropsCleanly_iff (reaches_inv h).1 hstep, fun s h => ?_,
    fun s h hq d hd hp hl => ?_⟩
  · have hi := (reaches_inv h).1
    exact ⟨notifyReaches_of_clean hi.sendOwned (sendSide_clean h fun _ _ _ _ ha _ => ha),
      notifyReaches_of_clean hi.recvOwned (recvSide_clean h fun _ _ _ _ ha _ => ha)⟩
  · refine queue_empty_of_pending h (fun s a t _ ha _ => ?_) (fun s a ha => ?_) hq hd hp hl
    · exact (Bool.and_eq_true_iff.mp ha).1
    · simpa using (Bool.and_eq_true_iff.mp ha).2

theorem drops_clean_iff_unregistered_run : ∃ s t u : State ℕ, step s (.dropRecv 0) = some t ∧
    DropsCleanly s t (.dropRecv 0) ∧ (∃ d ∈ u.recvs, d.dropped = true) ∧
    (∃ d ∈ u.recvs, d.fut.point = .pending) ∧ u.chan.inner.queue = [] :=
  have h := System.exec_get (system (some 1)) dropsUnregistered (start (channel (some 1)))
    [.recv 0, .recv 0] rfl
  have h' := System.exec_get (system (some 1)) dropsUnregistered (start (channel (some 1)))
    [.recv 0, .recv 0, .dropRecv 0,
    .pollRecv 1, .stepRecv 1 0, .stepRecv 1 0, .stepRecv 1 0, .stepRecv 1 0] rfl
  have hd := List.mem_of_mem_tail (List.mem_singleton.mpr rfl)
  ⟨_, _, _, rfl, ((drops_clean_iff_unregistered _).1 _ _ _ (System.ReachableBy.reachable h) rfl).mpr rfl,
    ⟨_, List.mem_cons_self, rfl⟩, ⟨_, hd, rfl⟩, (drops_clean_iff_unregistered _).2.2 _ h'
    ⟨by decide, by decide, by decide, by decide⟩ _ hd rfl rfl⟩

theorem drop_swallows_wake : ∃ s t u : State ℕ, (system (some 1)).Reachable s ∧
    step s (.dropRecv 0) = some t ∧ ¬ DropsCleanly s t (.dropRecv 0) ∧
    (system (some 1)).Reaches (fun s a => keepsPending s a = true) t u ∧
    Quiescent u ∧ u.chan.inner.queue = [7] ∧
    ∃ d ∈ u.recvs, d.fut.point = .pending ∧ d.dropped = false := by
  have h := System.exec_get (system (α := ℕ) (some 1)) (fun _ _ => true) (start (channel (some 1)))
    [.recv 0, .recv 0,
    .pollRecv 0, .stepRecv 0 0, .stepRecv 0 0, .stepRecv 0 0, .stepRecv 0 0,
    .pollRecv 1, .stepRecv 1 0, .stepRecv 1 0, .stepRecv 1 1, .stepRecv 1 0] rfl
  refine ⟨_, _, _, System.ReachableBy.reachable h, rfl, ?_, System.exec_get _ _ _ [.send 0 7,
    .pollSend 0, .stepSend 0 0, .stepSend 0 0, .stepSend 0 0] rfl,
    ⟨by decide, by decide, by decide, by decide⟩, rfl, _, List.mem_of_mem_tail
    (List.mem_singleton.mpr rfl), rfl, rfl⟩
  intro hclean
  exact absurd (hclean.vacated _ 0 rfl rfl) (by decide)

end ChannelExecutor.ChannelSystem
