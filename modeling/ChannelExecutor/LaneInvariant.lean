import ChannelExecutor.LaneLink
import ChannelExecutor.MessageAccount

set_option autoImplicit false

namespace ChannelExecutor.LaneLink

open Lib Lib.WaitSet
open ChannelSystem (State Driven Inv Loaded wake)

section Awaits

variable {φ : Type} {stage : φ → Stage} {ds : List (Driven φ)} {current : Option ℕ}
  {running woken : Bool}

/-- A task whose futures are `ds`: all but the awaited one are finished, and a wake of the awaited
one is a wake of the task. -/
structure Awaits (stage : φ → Stage) (ds : List (Driven φ)) (current : Option ℕ)
    (running woken : Bool) : Prop where
  others : ∀ (i : ℕ) (d : Driven φ), ds[i]? = some d →
    d.dropped = false ∧ (current = some i ∨ stage d.fut = .ready)
  awaited : ∀ i : ℕ, current = some i → ∃ d, ds[i]? = some d ∧
    (if running then (stage d.fut).inPoll = true else stage d.fut = .pending) ∧
    (woken = false → d.woken = false)
  due : current = none → running = false → woken = true

theorem Awaits.first (h : Awaits stage ds none running woken) : Awaits stage ds none true false :=
  ⟨h.others, by simp, by simp⟩

theorem Awaits.set {i : ℕ} {d : Driven φ} (h : Awaits stage ds (some i) running woken)
    (hd : ds[i]? = some d) {d' : Driven φ} {running' woken' : Bool} (hl : d'.dropped = d.dropped)
    (hs : if running' then (stage d'.fut).inPoll = true else stage d'.fut = .pending)
    (hw : woken' = false → d'.woken = false) :
    Awaits stage (ds.set i d') (some i) running' woken' := by
  constructor
  case others =>
    intro j x hx
    rw [getElem?_set_some hd] at hx
    split at hx
    next hj =>
      obtain rfl := Option.some.inj hx
      exact ⟨hl.trans (h.others i d hd).1, .inl (hj ▸ rfl)⟩
    next => exact h.others j x hx
  case awaited =>
    intro j hj
    obtain rfl := Option.some.inj hj
    exact ⟨d', by rw [getElem?_set_some hd, if_pos rfl], hs, hw⟩
  case due =>
    simp

theorem Awaits.finish {i : ℕ} {d : Driven φ} (h : Awaits stage ds (some i) true woken)
    (hd : ds[i]? = some d) {d' : Driven φ} (hl : d'.dropped = d.dropped)
    (hs : stage d'.fut = .ready) : Awaits stage (ds.set i d') none true woken := by
  refine ⟨fun j x hx => ?_, by simp, by simp⟩
  rw [getElem?_set_some hd] at hx
  split at hx
  next =>
    obtain rfl := Option.some.inj hx
    exact ⟨hl.trans (h.others i d hd).1, .inr hs⟩
  next hj =>
    obtain ⟨hdrop, hcur | hready⟩ := h.others j x hx
    · exact absurd (Option.some.inj hcur).symm hj
    · exact ⟨hdrop, .inr hready⟩

theorem Awaits.create (h : Awaits stage ds none running woken) {d : Driven φ}
    (hl : d.dropped = false) (hs : (stage d.fut).inPoll = true) (hw : d.woken = false) :
    Awaits stage (ds ++ [d]) (some ds.length) true woken := by
  constructor
  case others =>
    intro j x hx
    rw [ChannelSystem.getElem?_concat] at hx
    split at hx
    next hj =>
      obtain rfl := Option.some.inj hx
      exact ⟨hl, .inl (hj ▸ rfl)⟩
    next =>
      obtain ⟨hdrop, hcur | hready⟩ := h.others j x hx
      · cases hcur
      · exact ⟨hdrop, .inr hready⟩
  case awaited =>
    intro j hj
    obtain rfl := Option.some.inj hj
    exact ⟨d, by simp, hs, fun _ => hw⟩
  case due =>
    simp

theorem Awaits.wake (h : Awaits stage ds current running woken) (t : Option Ticket) :
    Awaits stage (wake ds t) current running (woken || t.isSome) := by
  cases t with
  | none => simpa [ChannelSystem.wake] using h
  | some t =>
    constructor
    case others =>
      intro j x hx
      obtain ⟨x', hx', hfut, hdrop, -⟩ := ChannelSystem.wake_some hx
      rw [hfut, hdrop]
      exact h.others j x' hx'
    case awaited =>
      intro j hj
      obtain ⟨d, hd, hs, -⟩ := h.awaited j hj
      let d' : Driven φ := if t.waiter = j then { d with woken := true } else d
      have hfut : d'.fut = d.fut := by
        simp only [d']
        split <;> rfl
      refine ⟨d', ?_, by rwa [hfut], by simp⟩
      rw [ChannelSystem.wake, List.getElem?_modify, hd]
      rfl
    case due =>
      simp

theorem Awaits.idle (h : Awaits stage ds current running woken) (hr : current = none ∨ running = false)
    {d : Driven φ} (hd : d ∈ ds) : stage d.fut = .ready ∨ stage d.fut = .pending := by
  obtain ⟨i, hi⟩ := List.getElem?_of_mem hd
  rcases (h.others i d hi).2 with hcur | hready
  · obtain ⟨d', hd', hs, -⟩ := h.awaited i hcur
    obtain rfl := Option.some.inj (hi.symm.trans hd')
    rcases hr with hr | hr
    · simp [hr] at hcur
    · exact .inr (by simpa [hr] using hs)
  · exact .inl hready

theorem Awaits.asleep (h : Awaits stage ds current false false) :
    ∃ (i : ℕ) (d : Driven φ), current = some i ∧ ds[i]? = some d ∧ stage d.fut = .pending ∧
      d.woken = false ∧ d.dropped = false := by
  cases hc : current with
  | none => exact absurd (h.due hc rfl) (by simp)
  | some i =>
    obtain ⟨d, hd, hs, hw⟩ := h.awaited i hc
    exact ⟨i, d, rfl, hd, by simpa using hs, hw rfl, (h.others i d hd).1⟩

theorem Awaits.unwoken (h : Awaits stage ds current running false) {d : Driven φ} (hd : d ∈ ds)
    (hp : stage d.fut = .pending) : d.woken = false := by
  obtain ⟨i, hi⟩ := List.getElem?_of_mem hd
  rcases (h.others i d hi).2 with hcur | hready
  · obtain ⟨d', hd', -, hw⟩ := h.awaited i hcur
    obtain rfl := Option.some.inj (hi.symm.trans hd')
    exact hw rfl
  · simp [hp] at hready

end Awaits

open ChannelSystem (heldBy takenBy sendFuts recvFuts)

variable {α : Type} {cap : ℕ} {msgs : List α} {l l' : Link α}

def unsent (l : Link α) : Option α :=
  l.sender.current.bind fun i => (sendFuts l.state)[i]?.bind heldBy

def inHand (l : Link α) : Option α :=
  l.receiver.current.bind fun i => (recvFuts l.state)[i]?.bind takenBy

structure LinkInv (cap : ℕ) (msgs : List α) (l : Link α) : Prop where
  inv : Inv l.state
  cap : l.state.chan.inner.cap = some cap
  sender : Awaits (fun f => f.point.stage) l.state.sends l.sender.current l.sender.running
    l.sender.woken
  receiver : Awaits (fun f => f.point.stage) l.state.recvs l.receiver.current l.receiver.running
    l.receiver.woken
  looping : l.receiver.loop ≠ .recv → l.receiver.current = none
  drained : l.receiver.loop = .drain → l.receiver.delivered ≠ []
  conserved : l.receiver.delivered ++ (inHand l).toList ++ l.state.chan.inner.queue ++
    (unsent l).toList ++ l.sender.todo = msgs

theorem afterSend_recvs (s : State α) (i : ℕ) (e : Effect α Ticket) :
    (s.afterSend i e).recvs = wake s.recvs (notified e) := by cases e <;> rfl

theorem afterRecv_sends (s : State α) (i : ℕ) (e : Effect α Ticket) :
    (s.afterRecv i e).sends = wake s.sends (notified e) := by cases e <;> rfl

theorem linkInv_start : LinkInv cap msgs (start cap msgs) := by
  refine ⟨ChannelSystem.inv_start (some cap), rfl, ⟨?_, ?_, ?_⟩, ⟨?_, ?_, ?_⟩, ?_, ?_, ?_⟩
  all_goals simp [start, ChannelSystem.start, inHand, unsent, Channel.withCapacity, Crossbeam.bounded]

theorem sender_after (hi : LinkInv cap msgs l) {i : ℕ} {d : Driven (SendFuture α)}
    {ch : Channel α Ticket} {f : SendFuture α} {e : Effect α Ticket} (hr : l.sender.running = true)
    (hc : l.sender.current = some i) (hd : l.state.sends[i]? = some d) (hl : d.dropped = false)
    (hf : d.fut.Does l.state.chan ⟨i, d.polls⟩ ch f e) :
    Awaits (fun f => f.point.stage) (l.state.sends.set i { d with fut := f })
      (l.sender.after f).current (l.sender.after f).running (l.sender.after f).woken ∧
    (l.sender.after f).todo = l.sender.todo ∧
    l.state.chan.inner.queue ++ (heldBy d.fut).toList = ch.inner.queue ++
      ((l.sender.after f).current.bind fun _ => heldBy f).toList := by
  have haw := hi.sender
  rw [hc, hr] at haw
  have hw : l.sender.woken = false → d.woken = false := by
    obtain ⟨d', hd', -, hw⟩ := haw.awaited i rfl
    obtain rfl := Option.some.inj (hd.symm.trans hd')
    exact hw
  have hload := hi.inv.loaded d (List.mem_of_getElem? hd)
  have hload' := (ChannelSystem.sendFuture_move hi.inv hd hl hf).1
  have stays : ∀ {f : SendFuture α}, l.sender.after f = l.sender → f.point.stage.inPoll = true →
      Awaits (fun f => f.point.stage) (l.state.sends.set i { d with fut := f })
        (l.sender.after f).current (l.sender.after f).running (l.sender.after f).woken := by
    intro f ha hp
    rw [ha, hc, hr]
    exact haw.set hd rfl (by simpa using hp) hw
  cases hf with
  | unwrap hp hm => simp [Loaded] at hload'
  | vacant hp hm hk hrm => simp [Loaded] at hload'
  | begin hp hm hk =>
    exact ⟨stays rfl rfl, rfl, by simp [SenderTask.after, heldBy, hp, hm, hc]⟩
  | release hp hm hk hrm =>
    exact ⟨stays rfl rfl, rfl, by simp [SenderTask.after, heldBy, hp, hm, hc]⟩
  | push hp hfull hq hcap hconn =>
    have hm : d.fut.msg = none := by simpa [Loaded, hp] using hload
    exact ⟨stays rfl rfl, rfl, by simp [SenderTask.after, heldBy, hp, hm, hc, hq]⟩
  | full hp hfull =>
    exact ⟨stays rfl rfl, rfl, by simp [SenderTask.after, heldBy, hp, hc]⟩
  | register hp hrm =>
    exact ⟨stays rfl rfl, rfl, by simp [SenderTask.after, heldBy, hp, hc]⟩
  | retry hp hfull =>
    exact ⟨stays rfl rfl, rfl, by simp [SenderTask.after, heldBy, hp, hc]⟩
  | sleep hp hfull =>
    refine ⟨?_, rfl, by simp [SenderTask.after, heldBy, hp, hc]⟩
    simp only [SenderTask.after, hc]
    exact haw.set hd rfl (by simp [Point.stage]) hw
  | notify hp =>
    have hm : d.fut.msg = none := by simpa [Loaded, hp] using hload
    refine ⟨?_, rfl, by simp [SenderTask.after, heldBy, hp, hm]⟩
    simp only [SenderTask.after, hr]
    exact haw.finish hd rfl rfl

theorem receiver_after (hi : LinkInv cap msgs l) {i : ℕ} {d : Driven (RecvFuture α)}
    {ch : Channel α Ticket} {f : RecvFuture α} {e : Effect α Ticket} (hr : l.receiver.running = true)
    (hc : l.receiver.current = some i) (hd : l.state.recvs[i]? = some d) (hl : d.dropped = false)
    (hf : d.fut.Does l.state.chan ⟨i, d.polls⟩ ch f e) :
    Awaits (fun f => f.point.stage) (l.state.recvs.set i { d with fut := f })
      (l.receiver.after f).current (l.receiver.after f).running (l.receiver.after f).woken ∧
    ((l.receiver.after f).loop ≠ .recv → (l.receiver.after f).current = none) ∧
    ((l.receiver.after f).loop = .drain → (l.receiver.after f).delivered ≠ []) ∧
    l.receiver.delivered ++ (takenBy d.fut).toList ++ l.state.chan.inner.queue =
      (l.receiver.after f).delivered ++
        ((l.receiver.after f).current.bind fun _ => takenBy f).toList ++ ch.inner.queue := by
  have haw := hi.receiver
  rw [hc, hr] at haw
  have hw : l.receiver.woken = false → d.woken = false := by
    obtain ⟨d', hd', -, hw⟩ := haw.awaited i rfl
    obtain rfl := Option.some.inj (hd.symm.trans hd')
    exact hw
  have hloop : l.receiver.loop = .recv := by
    by_contra hne
    simp [hi.looping hne] at hc
  have hsafe := (ChannelSystem.recvFuture_move hi.inv hd hl hf).1
  have stays : ∀ {f : RecvFuture α}, l.receiver.after f = l.receiver → f.point.stage.inPoll = true →
      Awaits (fun f => f.point.stage) (l.state.recvs.set i { d with fut := f })
        (l.receiver.after f).current (l.receiver.after f).running (l.receiver.after f).woken ∧
      ((l.receiver.after f).loop ≠ .recv → (l.receiver.after f).current = none) ∧
      ((l.receiver.after f).loop = .drain → (l.receiver.after f).delivered ≠ []) := by
    intro f ha hp
    rw [ha, hc, hr]
    exact ⟨haw.set hd rfl (by simpa using hp) hw, fun h => absurd hloop h, by simp [hloop]⟩
  cases hf with
  | vacant hp hk hrm => simp [Point.stage] at hsafe
  | begin hp hk =>
    obtain ⟨h₁, h₂, h₃⟩ := stays (f := { d.fut with point := .trying () }) rfl rfl
    exact ⟨h₁, h₂, h₃, by simp [ReceiverTask.after, takenBy, hp, hc]⟩
  | release hp hk hrm =>
    obtain ⟨h₁, h₂, h₃⟩ := stays (f := ⟨none, .trying ()⟩) rfl rfl
    exact ⟨h₁, h₂, h₃, by simp [ReceiverTask.after, takenBy, hp, hc]⟩
  | @pop msg inner hp hq hcap hconn =>
    obtain ⟨h₁, h₂, h₃⟩ := stays (f := { d.fut with point := .notifying msg }) rfl rfl
    exact ⟨h₁, h₂, h₃, by simp [ReceiverTask.after, takenBy, hp, hc, hq]⟩
  | empty hp hq =>
    obtain ⟨h₁, h₂, h₃⟩ := stays (f := { d.fut with point := .inserting }) rfl rfl
    exact ⟨h₁, h₂, h₃, by simp [ReceiverTask.after, takenBy, hp, hc]⟩
  | @register key slab hp hrm =>
    obtain ⟨h₁, h₂, h₃⟩ := stays (f := ⟨some key, .checking⟩) rfl rfl
    exact ⟨h₁, h₂, h₃, by simp [ReceiverTask.after, takenBy, hp, hc]⟩
  | retry hp hq =>
    obtain ⟨h₁, h₂, h₃⟩ := stays (f := { d.fut with point := .start }) rfl rfl
    exact ⟨h₁, h₂, h₃, by simp [ReceiverTask.after, takenBy, hp, hc]⟩
  | sleep hp hq =>
    simp only [ReceiverTask.after, hc]
    exact ⟨haw.set hd rfl (by simp [Point.stage]) hw, fun h => absurd hloop h, by simp [hloop],
      by simp [takenBy, hp]⟩
  | @notify msg hp =>
    simp only [ReceiverTask.after, hr]
    exact ⟨haw.finish hd rfl rfl, by simp, by simp, by simp [takenBy, hp]⟩

theorem sendFuts_get {s : State α} {i : ℕ} {d : Driven (SendFuture α)} (hd : s.sends[i]? = some d) :
    (sendFuts s)[i]? = some d.fut := by simp [sendFuts, hd]

theorem recvFuts_get {s : State α} {i : ℕ} {d : Driven (RecvFuture α)} (hd : s.recvs[i]? = some d) :
    (recvFuts s)[i]? = some d.fut := by simp [recvFuts, hd]

theorem LinkInv.stepSender (hi : LinkInv cap msgs l) {i : ℕ} {d : Driven (SendFuture α)}
    {ch : Channel α Ticket} {f : SendFuture α} {e : Effect α Ticket} (hr : l.sender.running = true)
    (hc : l.sender.current = some i) (hd : l.state.sends[i]? = some d) (hl : d.dropped = false)
    (hf : d.fut.Does l.state.chan ⟨i, d.polls⟩ ch f e) :
    LinkInv cap msgs
      { state := (({ l.state with chan := ch }).putSend i { d with fut := f }).afterSend i e
        sender := l.sender.after f
        receiver := { l.receiver with woken := l.receiver.woken || (notified e).isSome } } := by
  have hdoes : ChannelSystem.Does l.state (.stepSend i 0) _ := .stepSend hd hl hf
  obtain ⟨haw, htodo, hmsg⟩ := sender_after hi hr hc hd hl hf
  constructor
  case inv => exact hdoes.inv hi.inv
  case cap => exact (hdoes.cap hi.inv).trans hi.cap
  case sender =>
    rw [ChannelSystem.afterSend_sends]
    exact haw
  case receiver =>
    rw [afterSend_recvs]
    exact hi.receiver.wake (notified e)
  case looping => exact hi.looping
  case drained => exact hi.drained
  case conserved =>
    have hsends : sendFuts ((({ l.state with chan := ch }).putSend i { d with fut := f }).afterSend i e) =
        (sendFuts l.state).set i f := by
      rw [ChannelSystem.sendFuts_afterSend]
      exact List.map_set
    have hrecvs : recvFuts ((({ l.state with chan := ch }).putSend i { d with fut := f }).afterSend i e) =
        recvFuts l.state := ChannelSystem.recvFuts_afterSend _ _ _
    have hget : ∀ j, (l.sender.after f).current = some j → j = i := by
      intro j hj
      unfold SenderTask.after at hj
      split at hj <;> simp_all
    have hunsent : ((l.sender.after f).current.bind fun j => ((sendFuts l.state).set i f)[j]?.bind heldBy) =
        (l.sender.after f).current.bind fun _ => heldBy f := by
      cases hcur : (l.sender.after f).current with
      | none => rfl
      | some j =>
        obtain rfl := hget j hcur
        simp [getElem?_set_some (sendFuts_get hd)]
    have hchan : ((({ l.state with chan := ch }).putSend i { d with fut := f }).afterSend i e).chan =
        ch := ChannelSystem.afterSend_chan _ _ _
    have hcons := hi.conserved
    simp only [unsent, inHand, hc, sendFuts_get hd, Option.bind_some, hsends, hrecvs, hunsent, htodo,
      hchan] at hcons ⊢
    rw [← hcons]
    simp only [List.append_assoc] at hmsg ⊢
    rw [← List.append_assoc ch.inner.queue, ← hmsg]
    simp

theorem LinkInv.stepReceiver (hi : LinkInv cap msgs l) {i : ℕ} {d : Driven (RecvFuture α)}
    {ch : Channel α Ticket} {f : RecvFuture α} {e : Effect α Ticket} (hr : l.receiver.running = true)
    (hc : l.receiver.current = some i) (hd : l.state.recvs[i]? = some d) (hl : d.dropped = false)
    (hf : d.fut.Does l.state.chan ⟨i, d.polls⟩ ch f e) :
    LinkInv cap msgs
      { state := (({ l.state with chan := ch }).putRecv i { d with fut := f }).afterRecv i e
        sender := { l.sender with woken := l.sender.woken || (notified e).isSome }
        receiver := l.receiver.after f } := by
  have hdoes : ChannelSystem.Does l.state (.stepRecv i 0) _ := .stepRecv hd hl hf
  obtain ⟨haw, hloop, hdrain, hmsg⟩ := receiver_after hi hr hc hd hl hf
  constructor
  case inv => exact hdoes.inv hi.inv
  case cap => exact (hdoes.cap hi.inv).trans hi.cap
  case sender =>
    rw [afterRecv_sends]
    exact hi.sender.wake (notified e)
  case receiver =>
    rw [ChannelSystem.afterRecv_recvs]
    exact haw
  case looping => exact hloop
  case drained => exact hdrain
  case conserved =>
    have hrecvs : recvFuts ((({ l.state with chan := ch }).putRecv i { d with fut := f }).afterRecv i e) =
        (recvFuts l.state).set i f := by
      rw [ChannelSystem.recvFuts_afterRecv]
      exact List.map_set
    have hsends : sendFuts ((({ l.state with chan := ch }).putRecv i { d with fut := f }).afterRecv i e) =
        sendFuts l.state := ChannelSystem.sendFuts_afterRecv _ _ _
    have hget : ∀ j, (l.receiver.after f).current = some j → j = i := by
      intro j hj
      unfold ReceiverTask.after at hj
      split at hj <;> simp_all
    have hinHand : ((l.receiver.after f).current.bind fun j => ((recvFuts l.state).set i f)[j]?.bind takenBy) =
        (l.receiver.after f).current.bind fun _ => takenBy f := by
      cases hcur : (l.receiver.after f).current with
      | none => rfl
      | some j =>
        obtain rfl := hget j hcur
        simp [getElem?_set_some (recvFuts_get hd)]
    have hchan : ((({ l.state with chan := ch }).putRecv i { d with fut := f }).afterRecv i e).chan =
        ch := ChannelSystem.afterRecv_chan _ _ _
    have hcons := hi.conserved
    simp only [unsent, inHand, hc, recvFuts_get hd, Option.bind_some, hsends, hrecvs, hinHand,
      hchan] at hcons ⊢
    rw [← hmsg]
    exact hcons

theorem LinkInv.pollSender (hi : LinkInv cap msgs l) {i : ℕ} {s : State α}
    (hc : l.sender.current = some i) (hs : ChannelSystem.Does l.state (.pollSend i) s) :
    LinkInv cap msgs
      { l with state := s, sender := { l.sender with running := true, woken := false } } := by
  have hcons := hi.conserved
  have hinv := hs.inv hi.inv
  have hcap := (hs.cap hi.inv).trans hi.cap
  cases hs with
  | @pollSend _ d hd hl hp =>
    constructor
    case inv => exact hinv
    case cap => exact hcap
    case sender =>
      have haw := hi.sender
      rw [hc] at haw ⊢
      exact haw.set hd rfl rfl (fun _ => rfl)
    case receiver => exact hi.receiver
    case looping => exact hi.looping
    case drained => exact hi.drained
    case conserved =>
      have hheld : heldBy { d.fut with point := .start } = heldBy d.fut := by
        rcases hp with hp | hp <;> simp [heldBy, hp]
      have hsends : sendFuts (l.state.putSend i { d with
          fut := { d.fut with point := .start }, polls := d.polls + 1, woken := false }) =
          (sendFuts l.state).set i { d.fut with point := .start } := List.map_set
      simp only [unsent, hc, Option.bind_some, sendFuts_get hd] at hcons
      simp only [unsent, inHand, hc, Option.bind_some, hsends, getElem?_set_some (sendFuts_get hd),
        if_true, hheld]
      exact hcons

theorem LinkInv.pollReceiver (hi : LinkInv cap msgs l) {i : ℕ} {s : State α}
    (hc : l.receiver.current = some i) (hs : ChannelSystem.Does l.state (.pollRecv i) s) :
    LinkInv cap msgs
      { l with state := s, receiver := { l.receiver with running := true, woken := false } } := by
  have hcons := hi.conserved
  have hinv := hs.inv hi.inv
  have hcap := (hs.cap hi.inv).trans hi.cap
  cases hs with
  | @pollRecv _ d hd hl hp =>
    constructor
    case inv => exact hinv
    case cap => exact hcap
    case sender => exact hi.sender
    case receiver =>
      have haw := hi.receiver
      rw [hc] at haw ⊢
      exact haw.set hd rfl rfl (fun _ => rfl)
    case looping => exact hi.looping
    case drained => exact hi.drained
    case conserved =>
      have htaken : takenBy { d.fut with point := .start } = takenBy d.fut := by
        rcases hp with hp | hp <;> simp [takenBy, hp]
      have hrecvs : recvFuts (l.state.putRecv i { d with
          fut := { d.fut with point := .start }, polls := d.polls + 1, woken := false }) =
          (recvFuts l.state).set i { d.fut with point := .start } := List.map_set
      simp only [inHand, hc, Option.bind_some, recvFuts_get hd] at hcons
      simp only [unsent, inHand, hc, Option.bind_some, hrecvs, getElem?_set_some (recvFuts_get hd),
        if_true, htaken]
      exact hcons

theorem LinkInv.step {a : Act} (hi : LinkInv cap msgs l) (h : Does l a l') : LinkInv cap msgs l' := by
  have hcons := hi.conserved
  cases h with
  | firstSender hr hw hc =>
    have haw : Awaits _ l.state.sends l.sender.current true false := hc ▸ (hc ▸ hi.sender).first
    exact ⟨hi.inv, hi.cap, haw, hi.receiver, hi.looping, hi.drained, hcons⟩
  | pollSender hr hw hc hs => exact hi.pollSender hc hs
  | @send msg rest s s' hr hc ht hs hp hsends hrecvs hchan =>
    constructor
    case inv => exact hp.inv (hs.inv hi.inv)
    case cap =>
      rw [hchan]
      exact hi.cap
    case sender =>
      rw [hsends, hr]
      exact (hc ▸ hi.sender).create rfl rfl rfl
    case receiver =>
      rw [hrecvs]
      exact hi.receiver
    case looping => exact hi.looping
    case drained => exact hi.drained
    case conserved =>
      have hnew : (sendFuts s')[l.state.sends.length]? = some ⟨some msg, none, .start⟩ := by
        simp [sendFuts, hsends, sendPolled]
      have hold : recvFuts s' = recvFuts l.state := by simp [recvFuts, hrecvs]
      simp only [unsent, hc, ht, Option.bind_none, Option.toList_none, List.append_nil] at hcons
      simpa [unsent, inHand, hnew, hold, hchan, heldBy] using hcons
  | stepSender hr hc hd hl hf => exact hi.stepSender hr hc hd hl hf
  | firstReceiver hr hw hc =>
    have haw : Awaits _ l.state.recvs l.receiver.current true false := hc ▸ (hc ▸ hi.receiver).first
    exact ⟨hi.inv, hi.cap, hi.sender, haw, hi.looping, hi.drained, hcons⟩
  | pollReceiver hr hw hc hs => exact hi.pollReceiver hc hs
  | @recv s s' hr hc hloop hs hp hrecvs hsends hchan =>
    constructor
    case inv => exact hp.inv (hs.inv hi.inv)
    case cap =>
      rw [hchan]
      exact hi.cap
    case sender =>
      rw [hsends]
      exact hi.sender
    case receiver =>
      rw [hrecvs, hr]
      exact (hc ▸ hi.receiver).create rfl rfl rfl
    case looping => exact fun h => absurd hloop h
    case drained =>
      simp [hloop]
    case conserved =>
      have hnew : (recvFuts s')[l.state.recvs.length]? = some ⟨none, .start⟩ := by
        simp [recvFuts, hrecvs, recvPolled]
      have hold : sendFuts s' = sendFuts l.state := by simp [sendFuts, hsends]
      simp only [inHand, hc, Option.bind_none] at hcons
      simpa [unsent, inHand, hnew, hold, hchan, takenBy] using hcons
  | stepReceiver hr hc hd hl hf => exact hi.stepReceiver hr hc hd hl hf
  | @tryRecvOk msg s hr hloop hs hq hsends hrecvs =>
    have hc := hi.looping (by simp [hloop])
    constructor
    case inv => exact hs.inv hi.inv
    case cap => exact (hs.cap hi.inv).trans hi.cap
    case sender =>
      rw [hsends]
      exact hi.sender
    case receiver =>
      rw [hrecvs]
      exact hi.receiver
    case looping => exact hi.looping
    case drained => simp
    case conserved =>
      simp only [inHand, hc, Option.bind_none, hq] at hcons
      simpa [unsent, inHand, hc, sendFuts, hsends] using hcons
  | @tryRecvEmpty s hr hloop hs hq hchan hsends hrecvs =>
    have hc := hi.looping (by simp [hloop])
    constructor
    case inv => exact hs.inv hi.inv
    case cap => exact (hs.cap hi.inv).trans hi.cap
    case sender =>
      rw [hsends]
      exact hi.sender
    case receiver =>
      rw [hrecvs]
      exact hi.receiver
    case looping => simp
    case drained => simp
    case conserved =>
      simpa [unsent, inHand, sendFuts, recvFuts, hsends, hrecvs, hchan] using hcons

theorem reaches_linkInv {ok : Link α → Act → Prop} (h : (link cap msgs).ReachableBy ok l) :
    LinkInv cap msgs l :=
  h.invariant linkInv_start fun _ _ _ hi _ hstep => hi.step (step_does hi.inv.connected hstep)

end ChannelExecutor.LaneLink
