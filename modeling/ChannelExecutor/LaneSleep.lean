import ChannelExecutor.LaneInvariant
import ChannelExecutor.LostWakeups

set_option autoImplicit false

namespace ChannelExecutor.LaneLink

open Lib Lib.WaitSet
open ChannelSystem (State Driven Inv sendSide recvSide sendDebts recvDebts messages freeSlots)

variable {α : Type} {cap : ℕ} {msgs : List α} {l l' : Link α} {s t : State α}

section Refinement

theorem channel_step {a : ChannelSystem.Act α} (h : ChannelSystem.step s a = some t)
    (ha : a.isTrySend = false) :
    (ChannelSystem.system (some cap)).Reaches (fun _ a => a.isTrySend = false) s t := .single ha h

theorem step_reaches {a : Act} (h : step l a = some l') :
    (ChannelSystem.system (some cap)).Reaches (fun _ a => a.isTrySend = false) l.state l'.state := by
  cases a with
  | pollSender =>
    simp only [step] at h
    split at h
    next =>
      split at h
      next => cases h; exact .refl
      next i hcur =>
        obtain ⟨s, hs, rfl⟩ := Option.map_eq_some_iff.mp h
        exact channel_step hs rfl
    next => cases h
  | send =>
    simp only [step] at h
    split at h
    next msg rest hcur htodo =>
      obtain ⟨-, he⟩ := Option.ite_none_right_eq_some.mp h
      obtain ⟨s, hs, he⟩ := Option.bind_eq_some_iff.mp he
      obtain ⟨s', hs', rfl⟩ := Option.map_eq_some_iff.mp he
      exact (channel_step hs rfl).trans (channel_step hs' rfl)
    next => cases h
  | stepSender key =>
    simp only [step] at h
    split at h
    next i hcur =>
      obtain ⟨-, he⟩ := Option.ite_none_right_eq_some.mp h
      obtain ⟨s, hs, he⟩ := Option.bind_eq_some_iff.mp he
      obtain ⟨d, -, rfl⟩ := Option.map_eq_some_iff.mp he
      exact channel_step hs rfl
    next => cases h
  | pollReceiver =>
    simp only [step] at h
    split at h
    next =>
      split at h
      next => cases h; exact .refl
      next i hcur =>
        obtain ⟨s, hs, rfl⟩ := Option.map_eq_some_iff.mp h
        exact channel_step hs rfl
    next => cases h
  | recv =>
    simp only [step] at h
    split at h
    next hcur hloop =>
      obtain ⟨-, he⟩ := Option.ite_none_right_eq_some.mp h
      obtain ⟨s, hs, he⟩ := Option.bind_eq_some_iff.mp he
      obtain ⟨s', hs', rfl⟩ := Option.map_eq_some_iff.mp he
      exact (channel_step hs rfl).trans (channel_step hs' rfl)
    next => cases h
  | stepReceiver key =>
    simp only [step] at h
    split at h
    next i hcur =>
      obtain ⟨-, he⟩ := Option.ite_none_right_eq_some.mp h
      obtain ⟨s, hs, he⟩ := Option.bind_eq_some_iff.mp he
      obtain ⟨d, -, rfl⟩ := Option.map_eq_some_iff.mp he
      exact channel_step hs rfl
    next => cases h
  | tryRecv =>
    obtain ⟨-, he⟩ := Option.ite_none_right_eq_some.mp h
    obtain ⟨s, hs, rfl⟩ := Option.map_eq_some_iff.mp he
    exact channel_step hs rfl

theorem reaches_channel {ok : Link α → Act → Prop} (h : (link cap msgs).ReachableBy ok l) :
    (ChannelSystem.system (some cap)).ReachableBy (fun _ a => a.isTrySend = false) l.state := by
  obtain ⟨s, hs, rfl⟩ := System.Reaches.simulation (T := ChannelSystem.system (some cap))
    (R := fun l s => l.state = s)
    (fun l a l' s hl _ hstep => ⟨l'.state, hl ▸ step_reaches hstep, rfl⟩) h rfl
  exact hs

end Refinement

theorem covered_does {a : ChannelSystem.Act α} (hi : Inv s) (h : ChannelSystem.Does s a t)
    (ha : a.isTryRecv = false ∨ s.chan.inner.queue = []) (harmed : 0 < (sendSide s).armed)
    (hb : (sendSide s).Covered (freeSlots s.chan.inner) (recvDebts s)) :
    (sendSide t).Covered (freeSlots t.chan.inner) (recvDebts t) := by
  obtain ⟨c, ht, -, -, hgift⟩ := h.sendTurn hi
  refine ht.covered hi.sendOwned (fun _ => harmed) (fun hc => ?_) hb
  obtain ⟨handle, msg, rest, rfl, hq⟩ := hgift hc
  rcases ha with ha | ha
  · simp [ChannelSystem.Act.isTryRecv] at ha
  · simp [ha] at hq

def RecvBalanced (l : Link α) : Prop :=
  (recvSide l.state).Balanced (messages l.state.chan.inner) (sendDebts l.state)

def SendCovered (l : Link α) : Prop :=
  senderAsleep l → (sendSide l.state).Covered (freeSlots l.state.chan.inner) (recvDebts l.state)

theorem reaches_recvBalanced {ok : Link α → Act → Prop} (h : (link cap msgs).ReachableBy ok l) :
    RecvBalanced l := ChannelSystem.recvSide_balanced (reaches_channel h) fun _ _ ha => ha

theorem LinkInv.armed_pos (hi : LinkInv cap msgs l) (ha : senderAsleep l) :
    0 < (sendSide l.state).armed := by
  have haw := hi.sender
  rw [ha.1, ha.2] at haw
  obtain ⟨i, d, -, hd, hp, hw, hl⟩ := haw.asleep
  exact hi.inv.sendOwned.armed_pos (ChannelSystem.sendSide_get hd) ⟨hp, hw, hl⟩

theorem LinkInv.send_demand (hi : LinkInv cap msgs l) (ha : senderAsleep l) :
    (sendSide l.state).demand = 0 := by
  have haw := hi.sender
  rw [ha.1, ha.2] at haw
  refine demand_quiet hi.inv.sendOwned (fun i x hx hd => ?_) ⟨fun i x hx => ?_, fun i x hx hp _ => ?_⟩ <;>
    obtain ⟨d, hget, rfl⟩ := ChannelSystem.sendSide_some hx
  · simp [ChannelSystem.sendWaiter, (haw.others i d hget).1] at hd
  · rcases haw.idle (.inr rfl) (List.mem_of_getElem? hget) with hs | hs <;>
      simp [ChannelSystem.sendWaiter, hs, Stage.inPoll]
  · exact haw.unwoken (List.mem_of_getElem? hget) hp

theorem LinkInv.recv_demand (hi : LinkInv cap msgs l) (ha : receiverAsleep l) :
    (recvSide l.state).demand = 0 := by
  have haw := hi.receiver
  rw [ha.1, ha.2] at haw
  refine demand_quiet hi.inv.recvOwned (fun i x hx hd => ?_) ⟨fun i x hx => ?_, fun i x hx hp _ => ?_⟩ <;>
    obtain ⟨d, hget, rfl⟩ := ChannelSystem.recvSide_some hx
  · simp [ChannelSystem.recvWaiter, (haw.others i d hget).1] at hd
  · rcases haw.idle (.inr rfl) (List.mem_of_getElem? hget) with hs | hs <;>
      simp [ChannelSystem.recvWaiter, hs, Stage.inPoll]
  · exact haw.unwoken (List.mem_of_getElem? hget) hp

theorem LinkInv.sendDebts (hi : LinkInv cap msgs l)
    (ha : l.sender.current = none ∨ l.sender.running = false) : sendDebts l.state = 0 := by
  rw [ChannelSystem.sendDebts, List.countP_eq_zero]
  intro d hd
  rcases hi.sender.idle ha hd with hs | hs <;> simp [ChannelSystem.sendNotifying, hs]

theorem LinkInv.recvDebts (hi : LinkInv cap msgs l)
    (ha : l.receiver.current = none ∨ l.receiver.running = false) : recvDebts l.state = 0 := by
  rw [ChannelSystem.recvDebts, List.countP_eq_zero]
  intro d hd
  rcases hi.receiver.idle ha hd with hs | hs <;> simp [ChannelSystem.recvNotifying, hs]

theorem Does.sendCovered {a : Act} (h : Does l a l') (hi : LinkInv cap msgs l)
    (hok : takesAwake l a = true) (hb : SendCovered l) : SendCovered l' := by
  intro ha
  cases h with
  | firstSender hr hw hc => simp [senderAsleep] at ha
  | pollSender hr hw hc hs => simp [senderAsleep] at ha
  | send hr hc ht hs hp hsends hrecvs hchan => simp [senderAsleep, hr] at ha
  | stepSender hr hc hd hl hf =>
    cases hf with
    | sleep hp hfull =>
      simp only [Covered, ChannelSystem.afterSend_chan, State.putSend,
        ChannelSystem.freeSlots_of_full hfull]
      omega
    | _ => simp [senderAsleep, SenderTask.after, hr] at ha
  | firstReceiver hr hw hc => exact hb ha
  | pollReceiver hr hw hc hs => exact covered_does hi.inv hs (.inl rfl) (hi.armed_pos ha) (hb ha)
  | recv hr hc hloop hs hp hrecvs hsends hchan =>
    have hcov := covered_does hi.inv hs (.inl rfl) (hi.armed_pos ha) (hb ha)
    refine covered_does (hs.inv hi.inv) hp (.inl rfl) ?_ hcov
    cases hs
    exact hi.armed_pos ha
  | @stepReceiver i key d ch f e hr hc hd hl hf =>
    have ha' : senderAsleep l := ⟨ha.1, (Bool.or_eq_false_iff.mp ha.2).1⟩
    have hs : ChannelSystem.Does l.state (.stepRecv i key) _ := .stepRecv hd hl hf
    exact covered_does hi.inv hs (.inl rfl) (hi.armed_pos ha') (hb ha')
  | tryRecvOk hr hloop hs hq hsends hrecvs =>
    obtain ⟨hrun, hwoken⟩ := ha
    simp only at hrun hwoken
    simp [takesAwake, hrun, hwoken, Channel.isEmpty, Crossbeam.isEmpty, hq] at hok
  | tryRecvEmpty hr hloop hs hq hchan hsends hrecvs =>
    exact covered_does hi.inv hs (.inr hq) (hi.armed_pos ha) (hb ha)

theorem SendCovered.full (hb : SendCovered l) (hi : LinkInv cap msgs l) (ha : senderAsleep l)
    (hr : l.receiver.current = none ∨ l.receiver.running = false) :
    cap ≤ l.state.chan.inner.queue.length := by
  have hcov := hb ha
  simp only [Covered, hi.send_demand ha, hi.recvDebts hr, freeSlots, hi.cap, Option.getD_some] at hcov
  omega

theorem RecvBalanced.empty (hb : RecvBalanced l) (hi : LinkInv cap msgs l) (ha : receiverAsleep l)
    (hs : l.sender.current = none ∨ l.sender.running = false) : l.state.chan.inner.queue = [] := by
  have haw := hi.receiver
  rw [ha.1, ha.2] at haw
  obtain ⟨i, d, -, hd, hp, hw, hl⟩ := haw.asleep
  have hcov := hb ⟨i, _, ChannelSystem.recvSide_get hd, hp, hw, hl⟩
  simp only [Covered, hi.recv_demand ha, hi.sendDebts hs, messages] at hcov
  exact List.eq_nil_of_length_eq_zero (by omega)

theorem not_both_asleep (hcap : 0 < cap) (hi : LinkInv cap msgs l) (hs : SendCovered l)
    (hr : RecvBalanced l) : ¬ (senderAsleep l ∧ receiverAsleep l) := by
  rintro ⟨hsa, hra⟩
  have hfull := hs.full hi hsa (.inr hra.1)
  rw [hr.empty hi hra (.inr hsa.1)] at hfull
  simp at hfull
  omega

/-- With at most `cap + 1` messages the sender cannot be asleep behind a message of the inner
loop: one is delivered, one is unsent and the queue is full. -/
theorem takesAwake_of_short {a : Act} (hn : msgs.length ≤ cap + 1) (h : Does l a l')
    (hi : LinkInv cap msgs l) (hs : SendCovered l) : takesAwake l a = true := by
  cases h with
  | tryRecvOk hr hloop _ hq hsends hrecvs =>
    by_contra hok
    simp only [takesAwake, Bool.or_eq_true, not_or, Bool.not_eq_true] at hok
    have ha : senderAsleep l := ⟨hok.1.1, hok.1.2⟩
    have hfull := hs.full hi ha (.inl (hi.looping (by simp [hloop])))
    have hdel := List.length_pos_iff.mpr (hi.drained hloop)
    have haw := hi.sender
    rw [ha.1, ha.2] at haw
    obtain ⟨i, d, hc, hd, hp, -, -⟩ := haw.asleep
    have hunsent : 0 < (unsent l).toList.length := by
      have hload := hi.inv.loaded d (List.mem_of_getElem? hd)
      have hpt : d.fut.point = .pending := by cases hpt : d.fut.point <;> simp_all [Point.stage]
      simp only [ChannelSystem.Loaded, hpt] at hload
      obtain ⟨m, hm⟩ := Option.isSome_iff_exists.mp hload
      simp [unsent, hc, sendFuts_get hd, ChannelSystem.heldBy, hpt, hm]
    have hcons := congrArg List.length hi.conserved
    simp only [List.length_append] at hcons
    omega
  | tryRecvEmpty hr hloop _ hq => simp [takesAwake, Channel.isEmpty, Crossbeam.isEmpty, hq]
  | _ => rfl

theorem reaches_covered {ok : Link α → Act → Prop} (h : (link cap msgs).ReachableBy ok l)
    (hok : ∀ l a l', LinkInv cap msgs l → SendCovered l → ok l a → Does l a l' →
      takesAwake l a = true) : LinkInv cap msgs l ∧ SendCovered l := by
  refine h.invariant (I := fun l => LinkInv cap msgs l ∧ SendCovered l) ⟨linkInv_start, ?_⟩ ?_
  · simp [SendCovered, senderAsleep, link, start]
  · rintro l a l' ⟨hi, hs⟩ ha hstep
    have hd := step_does hi.inv.connected hstep
    exact ⟨hi.step hd, hd.sendCovered hi (hok l a l' hi hs ha hd) hs⟩

end ChannelExecutor.LaneLink
