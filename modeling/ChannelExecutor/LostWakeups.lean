import ChannelExecutor.ChannelInvariant

set_option autoImplicit false

namespace ChannelExecutor.ChannelSystem

open Lib Lib.WaitSet

variable {α : Type}

/-- No future is in the middle of a poll, so no call is between its queue operation and its
notify, and every woken task was polled again. -/
structure Quiescent (s : State α) : Prop where
  sends : ∀ d ∈ s.sends, d.fut.point.stage.inPoll = false
  recvs : ∀ d ∈ s.recvs, d.fut.point.stage.inPoll = false
  sendsPolled : ∀ d ∈ s.sends, d.fut.point.stage = .pending → d.dropped = false → d.woken = false
  recvsPolled : ∀ d ∈ s.recvs, d.fut.point.stage = .pending → d.dropped = false → d.woken = false

theorem Quiescent.sendSide {s : State α} (h : Quiescent s) : (sendSide s).Quiet := by
  constructor
  · intro i x hx
    obtain ⟨d, hd, rfl⟩ := sendSide_some hx
    exact h.sends d (List.mem_of_getElem? hd)
  · intro i x hx
    obtain ⟨d, hd, rfl⟩ := sendSide_some hx
    exact h.sendsPolled d (List.mem_of_getElem? hd)

theorem Quiescent.recvSide {s : State α} (h : Quiescent s) : (recvSide s).Quiet := by
  constructor
  · intro i x hx
    obtain ⟨d, hd, rfl⟩ := recvSide_some hx
    exact h.recvs d (List.mem_of_getElem? hd)
  · intro i x hx
    obtain ⟨d, hd, rfl⟩ := recvSide_some hx
    exact h.recvsPolled d (List.mem_of_getElem? hd)

def unregistered (s : State α) : Act α → Bool
  | .dropSend i => s.sends[i]?.all (fun d => d.fut.optKey.isNone)
  | .dropRecv i => s.recvs[i]?.all (fun d => d.fut.optKey.isNone)
  | _ => true

def keepsPending (s : State α) : Act α → Bool
  | .dropSend i => s.sends[i]?.all (fun d => d.fut.point.stage ≠ .pending)
  | .dropRecv i => s.recvs[i]?.all (fun d => d.fut.point.stage ≠ .pending)
  | _ => true

def Act.isTrySend : Act α → Bool
  | .trySend _ _ => true
  | _ => false

def Act.isTryRecv : Act α → Bool
  | .tryRecv _ => true
  | _ => false

section Accounts

variable {cap : Option ℕ} {ok : State α → Act α → Prop} {s : State α}

theorem recvSide_clean (h : (system cap).ReachableBy ok s)
    (hok : ∀ s a t, Inv s → ok s a → step s a = some t → unregistered s a) : (recvSide s).Clean := by
  refine (h.invariant (I := fun s => Inv s ∧ (recvSide s).Clean) ⟨inv_start cap, ?_⟩ ?_).2
  · simp [Clean, recvSide, system, start]
  · rintro s a t ⟨hi, hc⟩ ha hstep
    obtain ⟨c, ht, -, hdrop, -⟩ := (step_does hi.connected hstep).recvTurn hi
    refine ⟨step_inv hi hstep, ht.clean ?_ hc⟩
    rintro i x rfl hx
    obtain rfl := hdrop i rfl
    obtain ⟨d, hd, rfl⟩ := recvSide_some hx
    simpa [unregistered, hd, recvWaiter, sendWaiter] using hok s _ t hi ha hstep

theorem sendSide_clean (h : (system cap).ReachableBy ok s)
    (hok : ∀ s a t, Inv s → ok s a → step s a = some t → unregistered s a) : (sendSide s).Clean := by
  refine (h.invariant (I := fun s => Inv s ∧ (sendSide s).Clean) ⟨inv_start cap, ?_⟩ ?_).2
  · simp [Clean, sendSide, system, start]
  · rintro s a t ⟨hi, hc⟩ ha hstep
    obtain ⟨c, ht, -, hdrop, -⟩ := (step_does hi.connected hstep).sendTurn hi
    refine ⟨step_inv hi hstep, ht.clean ?_ hc⟩
    rintro i x rfl hx
    obtain rfl := hdrop i rfl
    obtain ⟨d, hd, rfl⟩ := sendSide_some hx
    simpa [unregistered, hd, recvWaiter, sendWaiter] using hok s _ t hi ha hstep

theorem recvSide_balanced (h : (system cap).ReachableBy ok s)
    (hok : ∀ s a, ok s a → a.isTrySend = false) :
    (recvSide s).Balanced (messages s.chan.inner) (sendDebts s) := by
  refine (h.invariant (I := fun s => Inv s ∧
    (recvSide s).Balanced (messages s.chan.inner) (sendDebts s)) ⟨inv_start cap, ?_⟩ ?_).2
  · rintro ⟨i, x, hx, -⟩
    simp [recvSide, system, start] at hx
  · rintro s a t ⟨hi, hb⟩ ha hstep
    obtain ⟨c, ht, -, -, hgift⟩ := (step_does hi.connected hstep).recvTurn hi
    refine ⟨step_inv hi hstep, ht.balanced hi.recvOwned (fun hc => ?_) hb⟩
    obtain ⟨handle, msg, rfl⟩ := hgift hc
    simpa [Act.isTrySend] using hok s _ ha

theorem sendSide_balanced (h : (system cap).ReachableBy ok s)
    (hok : ∀ s a, ok s a → a.isTryRecv = false) :
    (sendSide s).Balanced (freeSlots s.chan.inner) (recvDebts s) := by
  refine (h.invariant (I := fun s => Inv s ∧
    (sendSide s).Balanced (freeSlots s.chan.inner) (recvDebts s)) ⟨inv_start cap, ?_⟩ ?_).2
  · rintro ⟨i, x, hx, -⟩
    simp [sendSide, system, start] at hx
  · rintro s a t ⟨hi, hb⟩ ha hstep
    obtain ⟨c, ht, -, -, hgift⟩ := (step_does hi.connected hstep).sendTurn hi
    refine ⟨step_inv hi hstep, ht.balanced hi.sendOwned (fun hc => ?_) hb⟩
    obtain ⟨handle, msg, rest, rfl, -⟩ := hgift hc
    simpa [Act.isTryRecv] using hok s _ ha

end Accounts

section Rest

variable {cap : Option ℕ} {ok : State α → Act α → Prop} {s : State α}

theorem Quiescent.sendDebts {s : State α} (h : Quiescent s) : sendDebts s = 0 := by
  rw [ChannelSystem.sendDebts, List.countP_eq_zero]
  intro d hd hn
  have := h.sends d hd
  simp_all [sendNotifying, Stage.inPoll]

theorem Quiescent.recvDebts {s : State α} (h : Quiescent s) : recvDebts s = 0 := by
  rw [ChannelSystem.recvDebts, List.countP_eq_zero]
  intro d hd hn
  have := h.recvs d hd
  simp_all [recvNotifying, Stage.inPoll]

theorem queue_empty_of_pending (h : (system cap).ReachableBy ok s)
    (hun : ∀ s a t, Inv s → ok s a → step s a = some t → unregistered s a) (htry : ∀ s a, ok s a → a.isTrySend = false)
    (hq : Quiescent s) {d : Driven (RecvFuture α)} (hd : d ∈ s.recvs)
    (hp : d.fut.point = .pending) (hl : d.dropped = false) : s.chan.inner.queue = [] := by
  have hb := recvSide_balanced h htry
  rw [hq.sendDebts] at hb
  obtain ⟨i, hi⟩ := List.getElem?_of_mem hd
  have := hb.no_tokens (reaches_inv h).1.recvOwned (recvSide_clean h hun) hq.recvSide
    (recvSide_get hi) (by simp [recvWaiter, hp, Point.stage]) hl
  simpa [messages] using this

theorem queue_full_of_pending {cap : ℕ} (h : (system (some cap)).ReachableBy ok s)
    (hun : ∀ s a t, Inv s → ok s a → step s a = some t → unregistered s a) (htry : ∀ s a, ok s a → a.isTryRecv = false)
    (hq : Quiescent s) {d : Driven (SendFuture α)} (hd : d ∈ s.sends)
    (hp : d.fut.point = .pending) (hl : d.dropped = false) : s.chan.inner.queue.length = cap := by
  have hb := sendSide_balanced h htry
  rw [hq.recvDebts] at hb
  obtain ⟨i, hi⟩ := List.getElem?_of_mem hd
  obtain ⟨hinv, hcap⟩ := reaches_inv h
  have hfree := hb.no_tokens hinv.sendOwned (sendSide_clean h hun) hq.sendSide
    (sendSide_get hi) (by simp [sendWaiter, hp, Point.stage]) hl
  have hfit := s.chan.inner.fits cap hcap
  simp only [freeSlots, hcap, Option.getD_some] at hfree
  omega

theorem unregistered_of_keepsPending {s t : State α} {a : Act α} (hi : Inv s)
    (ha : keepsPending s a) (hstep : step s a = some t) : unregistered s a := by
  cases step_does hi.connected hstep with
  | @dropSend i d hd hl hp =>
    have hkey := hi.sendOwned.keyed i _ (sendSide_get hd)
    rcases hp with hp | hp
    · simpa [Keyed, sendWaiter, hp, unregistered, hd] using hkey
    · simp [keepsPending, hd, hp] at ha
  | @dropRecv i d hd hl hp =>
    have hkey := hi.recvOwned.keyed i _ (recvSide_get hd)
    rcases hp with hp | hp
    · simpa [Keyed, recvWaiter, hp, unregistered, hd] using hkey
    · simp [keepsPending, hd, hp] at ha
  | _ => rfl

def awaitsSend (s : State α) (a : Act α) : Bool := keepsPending s a && !a.isTrySend

def awaitsBoth (s : State α) (a : Act α) : Bool := awaitsSend s a && !a.isTryRecv

theorem receiver_not_stranded
    (h : (system cap).ReachableBy (fun s a => awaitsSend s a = true) s) (hq : Quiescent s)
    {d : Driven (RecvFuture α)} (hd : d ∈ s.recvs) (hp : d.fut.point = .pending)
    (hl : d.dropped = false) : s.chan.inner.queue = [] := by
  refine queue_empty_of_pending h (fun s a t hi ha hstep => ?_) (fun s a ha => ?_) hq hd hp hl
  · exact unregistered_of_keepsPending hi (Bool.and_eq_true_iff.mp ha).1 hstep
  · simpa using (Bool.and_eq_true_iff.mp ha).2

theorem receiver_not_stranded_run : ∃ (s : State ℕ) (d : Driven (RecvFuture ℕ)), d ∈ s.recvs ∧
    d.fut.point = .pending ∧ s.chan.inner.queue = [] :=
  have h := System.exec_get (system (some 1)) _ _ [.recv 0, .recv 0,
    .pollRecv 0, .stepRecv 0 0, .stepRecv 0 0, .stepRecv 0 0, .stepRecv 0 0,
    .pollRecv 1, .stepRecv 1 0, .stepRecv 1 0, .stepRecv 1 1, .stepRecv 1 0,
    .send 0 7, .pollSend 0, .stepSend 0 0, .stepSend 0 0, .stepSend 0 0,
    .pollRecv 0, .stepRecv 0 0, .stepRecv 0 0, .stepRecv 0 0] rfl
  have hd := List.mem_of_mem_tail (List.mem_singleton.mpr rfl)
  ⟨_, _, hd, rfl, receiver_not_stranded h ⟨by decide, by decide, by decide, by decide⟩ hd rfl rfl⟩

theorem sender_not_stranded {cap : ℕ} (hcap : 0 < cap)
    (h : (system (some cap)).ReachableBy (fun s a => awaitsBoth s a = true) s) (hq : Quiescent s)
    {d : Driven (SendFuture α)} (hd : d ∈ s.sends) (hp : d.fut.point = .pending)
    (hl : d.dropped = false) : s.chan.inner.queue.length = cap ∧
      ∀ r ∈ s.recvs, r.fut.point = .pending → r.dropped = true := by
  have hun : ∀ (s : State α) a t, Inv s → awaitsBoth s a = true → step s a = some t →
      unregistered s a := by
    intro s a t hi ha hstep
    simp only [awaitsBoth, awaitsSend, Bool.and_eq_true] at ha
    exact unregistered_of_keepsPending hi ha.1.1 hstep
  have hfull := queue_full_of_pending h hun
    (fun s a ha => by simpa using (Bool.and_eq_true_iff.mp ha).2) hq hd hp hl
  refine ⟨hfull, fun r hr hrp => ?_⟩
  by_contra hrl
  have hempty := queue_empty_of_pending h hun
    (fun s a ha => by simp only [awaitsBoth, awaitsSend, Bool.and_eq_true] at ha; simpa using ha.1.2)
    hq hr hrp (by simpa using hrl)
  simp [hempty] at hfull
  omega

/-- Two senders fall asleep on the full queue. A `recv` frees the slot and wakes the first of them, which
fills it again. -/
theorem sender_not_stranded_run : ∃ (s : State ℕ) (d : Driven (SendFuture ℕ)), d ∈ s.sends ∧
    d.fut.point = .pending ∧ s.history.handedOut.map Prod.snd = [7] ∧
    s.history.enqueued.map Prod.snd = [7, 8] ∧ s.chan.inner.queue.length = 1 :=
  have h := System.exec_get (system (some 1)) _ _ [.send 0 7, .send 0 8, .send 0 9, .recv 0,
    .pollSend 0, .stepSend 0 0, .stepSend 0 0, .stepSend 0 0,
    .pollSend 1, .stepSend 1 0, .stepSend 1 0, .stepSend 1 0, .stepSend 1 0,
    .pollSend 2, .stepSend 2 0, .stepSend 2 0, .stepSend 2 1, .stepSend 2 0,
    .pollRecv 0, .stepRecv 0 0, .stepRecv 0 0, .stepRecv 0 0,
    .pollSend 1, .stepSend 1 0, .stepSend 1 0, .stepSend 1 0] rfl
  have hd := List.mem_of_mem_tail (List.mem_of_mem_tail (List.mem_singleton.mpr rfl))
  ⟨_, _, hd, rfl, rfl, rfl, (sender_not_stranded Nat.one_pos h
    ⟨by decide, by decide, by decide, by decide⟩ hd rfl rfl).1⟩

end Rest

end ChannelExecutor.ChannelSystem
