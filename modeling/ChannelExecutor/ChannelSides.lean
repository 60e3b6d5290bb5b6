import ChannelExecutor.ChannelSystem
import ChannelExecutor.Lib.WakeRecord

set_option autoImplicit false

namespace ChannelExecutor.ChannelSystem

open Lib Lib.WaitSet

variable {α : Type}

def sendWaiter (d : Driven (SendFuture α)) : Waiter :=
  ⟨d.fut.optKey, d.fut.point.stage, d.polls, d.woken, d.dropped⟩

def recvWaiter (d : Driven (RecvFuture α)) : Waiter :=
  ⟨d.fut.optKey, d.fut.point.stage, d.polls, d.woken, d.dropped⟩

def sendSide (s : State α) : WaitSet := ⟨s.chan.sendWakers.slab, s.sends.map sendWaiter⟩

def recvSide (s : State α) : WaitSet := ⟨s.chan.recvWakers.slab, s.recvs.map recvWaiter⟩

def messages (c : Crossbeam α) : ℤ := c.queue.length

/-- The senders' tokens; an unbounded queue is never full and nobody waits for it. -/
def freeSlots (c : Crossbeam α) : ℤ := c.cap.getD 0 - c.queue.length

def sendNotifying (d : Driven (SendFuture α)) : Bool := d.fut.point.stage = .notifying

def recvNotifying (d : Driven (RecvFuture α)) : Bool := d.fut.point.stage = .notifying

def sendDebts (s : State α) : ℕ := s.sends.countP sendNotifying

def recvDebts (s : State α) : ℕ := s.recvs.countP recvNotifying

def sendNotified (s : State α) : Act α → List Ticket
  | .stepRecv i _ =>
    if (live s.recvs i).any recvNotifying then s.chan.sendWakers.notify.2.toList else []
  | _ => []

def recvNotified (s : State α) : Act α → List Ticket
  | .stepSend i _ =>
    if (live s.sends i).any sendNotifying then s.chan.recvWakers.notify.2.toList else []
  | _ => []

def Loaded (f : SendFuture α) : Prop :=
  match f.point with
  | .fresh | .start | .inserting | .checking | .pending => f.msg.isSome
  | .trying _ | .notifying _ | .ready _ => f.msg = none
  | .panicked => False

structure Inv (s : State α) : Prop where
  connected : s.chan.inner.Connected
  loaded : ∀ d ∈ s.sends, Loaded d.fut
  unharmed : ∀ d ∈ s.recvs, d.fut.point.stage ≠ .panicked
  sendOwned : Owned (sendSide s)
  recvOwned : Owned (recvSide s)

theorem sendSide_get {s : State α} {i : ℕ} {d : Driven (SendFuture α)} (hd : s.sends[i]? = some d) :
    (sendSide s).waiters[i]? = some (sendWaiter d) := by simp [sendSide, hd]

theorem recvSide_get {s : State α} {i : ℕ} {d : Driven (RecvFuture α)} (hd : s.recvs[i]? = some d) :
    (recvSide s).waiters[i]? = some (recvWaiter d) := by simp [recvSide, hd]

theorem sendSide_some {s : State α} {i : ℕ} {x : Waiter} (hx : (sendSide s).waiters[i]? = some x) :
    ∃ d, s.sends[i]? = some d ∧ sendWaiter d = x := by
  simpa [sendSide] using hx

theorem recvSide_some {s : State α} {i : ℕ} {x : Waiter} (hx : (recvSide s).waiters[i]? = some x) :
    ∃ d, s.recvs[i]? = some d ∧ recvWaiter d = x := by
  simpa [recvSide] using hx

theorem sendSide_put (s : State α) (i : ℕ) (d : Driven (SendFuture α)) :
    sendSide (s.putSend i d) = (sendSide s).update i (sendWaiter d) := by
  simp [sendSide, State.putSend, WaitSet.update, List.map_set]

theorem recvSide_put (s : State α) (i : ℕ) (d : Driven (RecvFuture α)) :
    recvSide (s.putRecv i d) = (recvSide s).update i (recvWaiter d) := by
  simp [recvSide, State.putRecv, WaitSet.update, List.map_set]

theorem sendSide_join (s : State α) (msg : α) (handle : ℕ) (h : History α) :
    sendSide { s with sends := s.sends ++ [.new (.new msg) handle], history := h } =
      { sendSide s with waiters := (sendSide s).waiters ++ [.fresh] } := by
  simp only [sendSide, List.map_append]
  rfl

theorem recvSide_join (s : State α) (handle : ℕ) :
    recvSide { s with recvs := s.recvs ++ [.new .new handle] } =
      { recvSide s with waiters := (recvSide s).waiters ++ [.fresh] } := by
  simp only [recvSide, List.map_append]
  rfl

theorem map_wake {φ : Type} {f : Driven φ → Waiter}
    (hf : ∀ d : Driven φ, f { d with woken := true } = { f d with woken := true })
    (ds : List (Driven φ)) (t : Option Ticket) :
    (wake ds t).map f = WaitSet.wake (ds.map f) t := by
  cases t with
  | none => rfl
  | some t =>
    apply List.ext_getElem?
    intro j
    simp only [wake, WaitSet.wake, List.getElem?_map, List.getElem?_modify]
    cases ds[j]? with
    | none => simp
    | some d => split <;> simp [hf]

theorem countP_wake {φ : Type} {p : Driven φ → Bool}
    (hp : ∀ d : Driven φ, p { d with woken := true } = p d) (ds : List (Driven φ))
    (t : Option Ticket) : (wake ds t).countP p = ds.countP p := by
  cases t with
  | none => rfl
  | some t =>
    simp only [wake, List.modify_eq_set_getElem?]
    cases hd : ds[t.waiter]? with
    | none => simp
    | some d =>
      have := countP_set_some hd p { d with woken := true }
      rw [hp] at this
      simpa using this

theorem wake_some {φ : Type} {ds : List (Driven φ)} {t : Option Ticket} {j : ℕ} {d : Driven φ}
    (h : (wake ds t)[j]? = some d) : ∃ d', ds[j]? = some d' ∧ d.fut = d'.fut ∧
      d.dropped = d'.dropped ∧ d.handle = d'.handle ∧ d.polls = d'.polls := by
  cases t with
  | none => exact ⟨d, h, rfl, rfl, rfl, rfl⟩
  | some t =>
    simp only [wake, List.getElem?_modify] at h
    obtain ⟨d', hd', rfl⟩ := Option.map_eq_some_iff.mp h
    refine ⟨d', hd', ?_⟩
    split <;> exact ⟨rfl, rfl, rfl, rfl⟩

def sendFuts (s : State α) : List (SendFuture α) := s.sends.map Driven.fut

def recvFuts (s : State α) : List (RecvFuture α) := s.recvs.map Driven.fut

theorem wake_futs {φ : Type} (ds : List (Driven φ)) (t : Option Ticket) :
    (wake ds t).map Driven.fut = ds.map Driven.fut := by
  apply List.ext_getElem?
  intro j
  cases t with
  | none => rfl
  | some t =>
    simp only [wake, List.getElem?_map, List.getElem?_modify]
    cases ds[j]? with
    | none => simp
    | some d => split <;> rfl

theorem set_futs {φ : Type} {ds : List (Driven φ)} {i : ℕ} {d d' : Driven φ} (hd : ds[i]? = some d)
    (hf : d'.fut = d.fut) : (ds.set i d').map Driven.fut = ds.map Driven.fut := by
  apply List.ext_getElem?
  intro j
  rw [List.getElem?_map, List.getElem?_map, getElem?_set_some hd]
  split
  next hj => simp [hj, hd, hf]
  next => rfl

theorem freeSlots_of_full {c : Crossbeam α} (h : c.isFull = true) : freeSlots c = 0 := by
  simp only [Crossbeam.isFull, decide_eq_true_eq] at h
  simp [freeSlots, h]

theorem freeSlots_push {c c' : Crossbeam α} {msg : α} (hq : c'.queue = c.queue ++ [msg])
    (hcap : c'.cap = c.cap) : freeSlots c = freeSlots c' + 1 := by
  simp only [freeSlots, hq, hcap, List.length_append, List.length_singleton]
  omega

theorem freeSlots_pop {c c' : Crossbeam α} {msg : α} (hq : c.queue = msg :: c'.queue)
    (hcap : c'.cap = c.cap) : freeSlots c' = freeSlots c + 1 := by
  simp only [freeSlots, hq, hcap, List.length_cons]
  omega

theorem messages_push {c c' : Crossbeam α} {msg : α} (hq : c'.queue = c.queue ++ [msg]) :
    messages c' = messages c + 1 := by simp [messages, hq]

theorem messages_pop {c c' : Crossbeam α} {msg : α} (hq : c.queue = msg :: c'.queue) :
    messages c = messages c' + 1 := by simp [messages, hq]

theorem messages_empty {c : Crossbeam α} (hq : c.queue = []) : messages c = 0 := by
  simp [messages, hq]

section Futures

variable {s : State α} {i : ℕ} {ch : Channel α Ticket} {e : Effect α Ticket}

theorem sendFuture_move {d : Driven (SendFuture α)} {f : SendFuture α} (hi : Inv s)
    (hd : s.sends[i]? = some d) (hl : d.dropped = false)
    (hf : d.fut.Does s.chan ⟨i, d.polls⟩ ch f e) :
    Loaded f ∧ ∃ m, (m ≠ .notify ∧ ∀ j, m ≠ .drop j) ∧
      Step (sendSide s) m ⟨ch.sendWakers.slab, (s.sends.map sendWaiter).set i
        (sendWaiter { d with fut := f })⟩ ∧
      Settles m (freeSlots s.chan.inner) (recvDebts s) (freeSlots ch.inner) (recvDebts s) := by
  have hx := sendSide_get hd
  have hloaded := hi.loaded d (List.mem_of_getElem? hd)
  have adv : ∀ {p : Point α Unit Unit} {st : Stage}, d.fut.point = p →
      Advance d.fut.optKey p.stage st → Advance (sendWaiter d).key (sendWaiter d).stage st := by
    intro p st hp ha
    simpa [sendWaiter, hp] using ha
  cases hf with
  | unwrap hp hm => simp [Loaded, hp, hm] at hloaded
  | begin hp hm hk =>
    exact ⟨rfl, _, by simp, .advance hx (adv hp (.begin hk)), rfl, rfl⟩
  | release hp hm hk hr =>
    exact ⟨rfl, _, by simp, .release hx (by simp [sendWaiter, hp, Point.stage]) hk hr, rfl, rfl⟩
  | @vacant msg k hp hm hk hr =>
    obtain ⟨e, he, -⟩ := hi.sendOwned.held i _ k hx hk
    simp only [sendSide] at he
    simp [Slab.remove, he] at hr
  | push hp hfull hq hcap hc =>
    exact ⟨by simpa [Loaded, hp] using hloaded, _, by simp, .advance hx (adv hp .take),
      freeSlots_push hq hcap, rfl⟩
  | full hp hfull =>
    exact ⟨rfl, _, by simp, .advance hx (adv hp .miss), freeSlots_of_full hfull, rfl, rfl⟩
  | register hp hr =>
    exact ⟨by simpa [Loaded, hp] using hloaded, _, by simp,
      .register hx (by simp [sendWaiter, hp, Point.stage]) hl hr, rfl, rfl⟩
  | sleep hp hfull =>
    exact ⟨by simpa [Loaded, hp] using hloaded, _, by simp, .advance hx (adv hp .sleep),
      freeSlots_of_full hfull, rfl, rfl⟩
  | retry hp hfull =>
    exact ⟨by simpa [Loaded, hp] using hloaded, _, by simp, .advance hx (adv hp .retry), rfl, rfl⟩
  | notify hp =>
    exact ⟨by simpa [Loaded, hp] using hloaded, _, by simp, .advance hx (adv hp .finish), rfl, rfl⟩

theorem sendFuture_turn {d : Driven (SendFuture α)} {f : SendFuture α} (key : ℕ)
    (hd : s.sends[i]? = some d) (hl : d.dropped = false)
    (hf : d.fut.Does s.chan ⟨i, d.polls⟩ ch f e) :
    ∃ c, (∀ j, c ≠ .move (.drop j)) ∧ c ≠ .gift ∧
      recvNotified s (.stepSend i key) = c.woken (recvSide s) ∧
      Turn (recvSide s) (messages s.chan.inner) (sendDebts s) c
        (recvSide ((({ s with chan := ch }).putSend i { d with fut := f }).afterSend i e))
        (messages ch.inner) ((s.sends.set i { d with fut := f }).countP sendNotifying) := by
  have hc := countP_set_some hd sendNotifying { d with fut := f }
  have hlive : live s.sends i = some d := by simp [live, hd, hl]
  have quiet : ∀ {p : Point α Unit Unit}, d.fut.point = p →
      p.stage ≠ .notifying → f.point.stage ≠ .notifying →
      ∃ c, (∀ j, c ≠ .move (.drop j)) ∧ c ≠ .gift ∧
        recvNotified s (.stepSend i key) = c.woken (recvSide s) ∧
        Turn (recvSide s) (messages s.chan.inner) (sendDebts s) c (recvSide s)
          (messages s.chan.inner) ((s.sends.set i { d with fut := f }).countP sendNotifying) := by
    intro p hp hpn hfn
    refine ⟨.steal, by simp, by simp, ?_, .steal (Int.le_refl _) ?_⟩
    · simp [recvNotified, hlive, sendNotifying, hp, hpn, Cause.woken]
    · simpa [sendNotifying, hp, hpn, hfn, sendDebts] using hc
  cases hf with
  | push hp hfull hq hcap hconn =>
    refine ⟨.supply, by simp, by simp, ?_, .supply (messages_push hq) ?_⟩
    · simp [recvNotified, hlive, sendNotifying, hp, Point.stage, Cause.woken]
    · simpa [sendNotifying, hp, Point.stage, sendDebts] using hc
  | notify hp =>
    refine ⟨.move .notify, by simp, by simp, ?_, .move ?_ ⟨rfl, ?_⟩⟩
    · simp [recvNotified, hlive, sendNotifying, hp, Point.stage, Cause.woken, Move.woken,
        WakerSet.notify, recvSide]
    · simpa [recvSide, State.afterSend, State.putSend, map_wake (f := recvWaiter) (fun _ => rfl)]
        using Step.notify (w := recvSide s)
    · simpa [sendNotifying, hp, Point.stage, sendDebts] using hc.symm
  | unwrap hp hm => exact quiet hp (by simp [Point.stage]) (by simp [Point.stage])
  | begin hp hm hk => exact quiet hp (by simp [Point.stage]) (by simp [Point.stage])
  | release hp hm hk hr => exact quiet hp (by simp [Point.stage]) (by simp [Point.stage])
  | vacant hp hm hk hr => exact quiet hp (by simp [Point.stage]) (by simp [Point.stage])
  | full hp hfull => exact quiet hp (by simp [Point.stage]) (by simp [Point.stage])
  | register hp hr => exact quiet hp (by simp [Point.stage]) (by simp [Point.stage])
  | sleep hp hfull => exact quiet hp (by simp [Point.stage]) (by simp [Point.stage])
  | retry hp hfull => exact quiet hp (by simp [Point.stage]) (by simp [Point.stage])

theorem recvFuture_move {d : Driven (RecvFuture α)} {f : RecvFuture α} (hi : Inv s)
    (hd : s.recvs[i]? = some d) (hl : d.dropped = false)
    (hf : d.fut.Does s.chan ⟨i, d.polls⟩ ch f e) :
    f.point.stage ≠ .panicked ∧ ∃ m, (m ≠ .notify ∧ ∀ j, m ≠ .drop j) ∧
      Step (recvSide s) m ⟨ch.recvWakers.slab, (s.recvs.map recvWaiter).set i
        (recvWaiter { d with fut := f })⟩ ∧
      Settles m (messages s.chan.inner) (sendDebts s) (messages ch.inner) (sendDebts s) := by
  have hx := recvSide_get hd
  have adv : ∀ {p : Point Unit α (Except RecvError α)} {st : Stage}, d.fut.point = p →
      Advance d.fut.optKey p.stage st → Advance (recvWaiter d).key (recvWaiter d).stage st := by
    intro p st hp ha
    simpa [recvWaiter, hp] using ha
  cases hf with
  | begin hp hk =>
    exact ⟨by simp [Point.stage], _, by simp, .advance hx (adv hp (.begin hk)), rfl, rfl⟩
  | release hp hk hr =>
    exact ⟨by simp [Point.stage], _, by simp,
      .release hx (by simp [recvWaiter, hp, Point.stage]) hk hr, rfl, rfl⟩
  | @vacant k hp hk hr =>
    obtain ⟨e, he, -⟩ := hi.recvOwned.held i _ k hx hk
    simp only [recvSide] at he
    simp [Slab.remove, he] at hr
  | pop hp hq hcap hc =>
    exact ⟨by simp [Point.stage], _, by simp, .advance hx (adv hp .take), messages_pop hq, rfl⟩
  | empty hp hq =>
    exact ⟨by simp [Point.stage], _, by simp, .advance hx (adv hp .miss), messages_empty hq, rfl, rfl⟩
  | register hp hr =>
    exact ⟨by simp [Point.stage], _, by simp,
      .register hx (by simp [recvWaiter, hp, Point.stage]) hl hr, rfl, rfl⟩
  | sleep hp hq =>
    exact ⟨by simp [Point.stage], _, by simp, .advance hx (adv hp .sleep), messages_empty hq, rfl, rfl⟩
  | retry hp hq =>
    exact ⟨by simp [Point.stage], _, by simp, .advance hx (adv hp .retry), rfl, rfl⟩
  | notify hp =>
    exact ⟨by simp [Point.stage], _, by simp, .advance hx (adv hp .finish), rfl, rfl⟩

theorem recvFuture_turn {d : Driven (RecvFuture α)} {f : RecvFuture α} (key : ℕ)
    (hd : s.recvs[i]? = some d) (hl : d.dropped = false)
    (hf : d.fut.Does s.chan ⟨i, d.polls⟩ ch f e) :
    ∃ c, (∀ j, c ≠ .move (.drop j)) ∧ c ≠ .gift ∧
      sendNotified s (.stepRecv i key) = c.woken (sendSide s) ∧
      Turn (sendSide s) (freeSlots s.chan.inner) (recvDebts s) c
        (sendSide ((({ s with chan := ch }).putRecv i { d with fut := f }).afterRecv i e))
        (freeSlots ch.inner) ((s.recvs.set i { d with fut := f }).countP recvNotifying) := by
  have hc := countP_set_some hd recvNotifying { d with fut := f }
  have hlive : live s.recvs i = some d := by simp [live, hd, hl]
  have quiet : ∀ {p : Point Unit α (Except RecvError α)}, d.fut.point = p →
      p.stage ≠ .notifying → f.point.stage ≠ .notifying →
      ∃ c, (∀ j, c ≠ .move (.drop j)) ∧ c ≠ .gift ∧
        sendNotified s (.stepRecv i key) = c.woken (sendSide s) ∧
        Turn (sendSide s) (freeSlots s.chan.inner) (recvDebts s) c (sendSide s)
          (freeSlots s.chan.inner) ((s.recvs.set i { d with fut := f }).countP recvNotifying) := by
    intro p hp hpn hfn
    refine ⟨.steal, by simp, by simp, ?_, .steal (Int.le_refl _) ?_⟩
    · simp [sendNotified, hlive, recvNotifying, hp, hpn, Cause.woken]
    · simpa [recvNotifying, hp, hpn, hfn, recvDebts] using hc
  cases hf with
  | pop hp hq hcap hconn =>
    refine ⟨.supply, by simp, by simp, ?_, .supply (freeSlots_pop hq hcap) ?_⟩
    · simp [sendNotified, hlive, recvNotifying, hp, Point.stage, Cause.woken]
    · simpa [recvNotifying, hp, Point.stage, recvDebts] using hc
  | notify hp =>
    refine ⟨.move .notify, by simp, by simp, ?_, .move ?_ ⟨rfl, ?_⟩⟩
    · simp [sendNotified, hlive, recvNotifying, hp, Point.stage, Cause.woken, Move.woken,
        WakerSet.notify, sendSide]
    · simpa [sendSide, State.afterRecv, State.putRecv, map_wake (f := sendWaiter) (fun _ => rfl)]
        using Step.notify (w := sendSide s)
    · simpa [recvNotifying, hp, Point.stage, recvDebts] using hc.symm
  | begin hp hk => exact quiet hp (by simp [Point.stage]) (by simp [Point.stage])
  | release hp hk hr => exact quiet hp (by simp [Point.stage]) (by simp [Point.stage])
  | vacant hp hk hr => exact quiet hp (by simp [Point.stage]) (by simp [Point.stage])
  | empty hp hq => exact quiet hp (by simp [Point.stage]) (by simp [Point.stage])
  | register hp hr => exact quiet hp (by simp [Point.stage]) (by simp [Point.stage])
  | sleep hp hq => exact quiet hp (by simp [Point.stage]) (by simp [Point.stage])
  | retry hp hq => exact quiet hp (by simp [Point.stage]) (by simp [Point.stage])

theorem sendFuture_connected {ω : Type} {ch ch' : Channel α ω} {f f' : SendFuture α} {cx : ω}
    {e : Effect α ω} (h : f.Does ch cx ch' f' e) (hc : ch.inner.Connected) :
    ch'.inner.Connected ∧ ch'.inner.cap = ch.inner.cap := by
  cases h with
  | push hp hfull hq hcap hc' => exact ⟨hc', hcap⟩
  | _ => exact ⟨hc, rfl⟩

theorem recvFuture_connected {ω : Type} {ch ch' : Channel α ω} {f f' : RecvFuture α} {cx : ω}
    {e : Effect α ω} (h : f.Does ch cx ch' f' e) (hc : ch.inner.Connected) :
    ch'.inner.Connected ∧ ch'.inner.cap = ch.inner.cap := by
  cases h with
  | pop hp hq hcap hc' => exact ⟨hc', hcap⟩
  | _ => exact ⟨hc, rfl⟩

@[simp] theorem afterSend_chan (s : State α) (i : ℕ) (e : Effect α Ticket) :
    (s.afterSend i e).chan = s.chan := by cases e <;> rfl

@[simp] theorem afterSend_sends (s : State α) (i : ℕ) (e : Effect α Ticket) :
    (s.afterSend i e).sends = s.sends := by cases e <;> rfl

@[simp] theorem sendFuts_afterSend (s : State α) (i : ℕ) (e : Effect α Ticket) :
    sendFuts (s.afterSend i e) = sendFuts s := by cases e <;> rfl

@[simp] theorem recvFuts_afterSend (s : State α) (i : ℕ) (e : Effect α Ticket) :
    recvFuts (s.afterSend i e) = recvFuts s := by
  cases e with
  | notified w => exact wake_futs _ _
  | _ => rfl

theorem mem_afterSend_recvs {d : Driven (RecvFuture α)} (h : d ∈ (s.afterSend i e).recvs) :
    ∃ d' ∈ s.recvs, d.fut = d'.fut ∧ d.dropped = d'.dropped := by
  cases e with
  | notified w =>
    obtain ⟨j, hj⟩ := List.getElem?_of_mem h
    obtain ⟨d', hd', hfut, hdrop, -⟩ := wake_some hj
    exact ⟨d', List.mem_of_getElem? hd', hfut, hdrop⟩
  | _ => exact ⟨d, h, rfl, rfl⟩

theorem recvDebts_afterSend (s : State α) (i : ℕ) (e : Effect α Ticket) :
    recvDebts (s.afterSend i e) = recvDebts s := by
  cases e with
  | notified w => exact countP_wake (fun _ => rfl) _ _
  | _ => rfl

@[simp] theorem afterRecv_chan (s : State α) (i : ℕ) (e : Effect α Ticket) :
    (s.afterRecv i e).chan = s.chan := by cases e <;> rfl

@[simp] theorem afterRecv_recvs (s : State α) (i : ℕ) (e : Effect α Ticket) :
    (s.afterRecv i e).recvs = s.recvs := by cases e <;> rfl

@[simp] theorem recvFuts_afterRecv (s : State α) (i : ℕ) (e : Effect α Ticket) :
    recvFuts (s.afterRecv i e) = recvFuts s := by cases e <;> rfl

@[simp] theorem sendFuts_afterRecv (s : State α) (i : ℕ) (e : Effect α Ticket) :
    sendFuts (s.afterRecv i e) = sendFuts s := by
  cases e with
  | notified w => exact wake_futs _ _
  | _ => rfl

theorem mem_afterRecv_sends {d : Driven (SendFuture α)} (h : d ∈ (s.afterRecv i e).sends) :
    ∃ d' ∈ s.sends, d.fut = d'.fut ∧ d.dropped = d'.dropped := by
  cases e with
  | notified w =>
    obtain ⟨j, hj⟩ := List.getElem?_of_mem h
    obtain ⟨d', hd', hfut, hdrop, -⟩ := wake_some hj
    exact ⟨d', List.mem_of_getElem? hd', hfut, hdrop⟩
  | _ => exact ⟨d, h, rfl, rfl⟩

theorem sendDebts_afterRecv (s : State α) (i : ℕ) (e : Effect α Ticket) :
    sendDebts (s.afterRecv i e) = sendDebts s := by
  cases e with
  | notified w => exact countP_wake (fun _ => rfl) _ _
  | _ => rfl

end Futures

end ChannelExecutor.ChannelSystem
