import ChannelExecutor.AsyncChannel
import ChannelExecutor.Lib.TransitionSystem

/-!
One `async_channel` with any number of handles, futures and direct calls. Every atomic step of
every poll is an action of its own, and the actions of different tasks interleave freely.
-/

set_option autoImplicit false

namespace ChannelExecutor.ChannelSystem

open Lib (Stage System Ticket Waiter WaitSet)

variable {α φ : Type}

/-- A future with what its executor keeps: the handle it borrows, how often it was polled,
whether its waker was woken since the last poll, and whether it was dropped. -/
structure Driven (φ : Type) where
  fut : φ
  handle : ℕ
  polls : ℕ
  woken : Bool
  dropped : Bool

def Driven.new (fut : φ) (handle : ℕ) : Driven φ := ⟨fut, handle, 0, false, false⟩

inductive Origin
  | send (i : ℕ)
  | trySend (i : ℕ)
  deriving DecidableEq, Repr

inductive Receipt
  | recv (i : ℕ)
  | tryRecv (i : ℕ)
  deriving DecidableEq, Repr

structure History (α : Type) where
  submitted : List (Origin × α)
  enqueued : List (Origin × α)
  handedOut : List (Receipt × α)
  trySends : List (Except (TrySendError α) Unit)
  tryRecvs : List (Except TryRecvError α)

structure State (α : Type) where
  chan : Channel α Ticket
  sends : List (Driven (SendFuture α))
  recvs : List (Driven (RecvFuture α))
  -- the handles made so far; `true` while a handle is alive
  senders : List Bool
  receivers : List Bool
  history : History α

inductive Act (α : Type)
  | send (handle : ℕ) (msg : α)
  | recv (handle : ℕ)
  | pollSend (i : ℕ)
  | pollRecv (i : ℕ)
  | stepSend (i key : ℕ)
  | stepRecv (i key : ℕ)
  | dropSend (i : ℕ)
  | dropRecv (i : ℕ)
  | trySend (handle : ℕ) (msg : α)
  | tryRecv (handle : ℕ)
  | cloneSender (handle : ℕ)
  | cloneReceiver (handle : ℕ)
  | dropSender (handle : ℕ)
  | dropReceiver (handle : ℕ)

def start (chan : Channel α Ticket) : State α := ⟨chan, [], [], [true], [true], ⟨[], [], [], [], []⟩⟩

def wake (ds : List (Driven φ)) : Option Ticket → List (Driven φ)
  | some t => ds.modify t.waiter (fun d => { d with woken := true })
  | none => ds

def History.push (h : History α) (o : Origin) (msg : α) : History α :=
  { h with enqueued := h.enqueued ++ [(o, msg)] }

def History.pop (h : History α) (r : Receipt) (msg : α) : History α :=
  { h with handedOut := h.handedOut ++ [(r, msg)] }

def State.putSend (s : State α) (i : ℕ) (d : Driven (SendFuture α)) : State α :=
  { s with sends := s.sends.set i d }

def State.putRecv (s : State α) (i : ℕ) (d : Driven (RecvFuture α)) : State α :=
  { s with recvs := s.recvs.set i d }

def live (ds : List (Driven φ)) (i : ℕ) : Option (Driven φ) := ds[i]?.filter (fun d => !d.dropped)

def State.afterSend (s : State α) (i : ℕ) : Effect α Ticket → State α
  | .pushed msg => { s with history := s.history.push (.send i) msg }
  | .notified woken => { s with recvs := wake s.recvs woken }
  | _ => s

def State.afterRecv (s : State α) (i : ℕ) : Effect α Ticket → State α
  | .popped msg => { s with history := s.history.pop (.recv i) msg }
  | .notified woken => { s with sends := wake s.sends woken }
  | _ => s

/-- `await` drops a future as soon as it is ready; until then it borrows its handle. -/
def Driven.borrows (stage : φ → Stage) (handle : ℕ) (d : Driven φ) : Bool :=
  d.handle = handle && !d.dropped && stage d.fut ≠ .ready

def stepTrySend (s : State α) (msg : α) : State α :=
  let r := s.chan.trySend msg
  let o := Origin.trySend s.history.trySends.length
  { s with
    chan := r.1
    history := { s.history with
      submitted := s.history.submitted ++ [(o, msg)]
      enqueued := s.history.enqueued ++ (match r.2 with | .ok () => [(o, msg)] | .error _ => [])
      trySends := s.history.trySends ++ [r.2] } }

def stepTryRecv (s : State α) : State α :=
  let r := s.chan.tryRecv
  { s with
    chan := r.1
    history := { s.history with
      handedOut := s.history.handedOut ++
        (match r.2 with | .ok msg => [(.tryRecv s.history.tryRecvs.length, msg)] | .error _ => [])
      tryRecvs := s.history.tryRecvs ++ [r.2] } }

def step (s : State α) : Act α → Option (State α)
  | .send handle msg =>
    if s.senders[handle]? = some true then
      some { s with
        sends := s.sends ++ [.new (.new msg) handle]
        history := { s.history with
          submitted := s.history.submitted ++ [(.send s.sends.length, msg)] } }
    else none
  | .recv handle =>
    if s.receivers[handle]? = some true then some { s with recvs := s.recvs ++ [.new .new handle] }
    else none
  | .pollSend i =>
    (live s.sends i).bind fun d => d.fut.poll.map fun f =>
      s.putSend i { d with fut := f, polls := d.polls + 1, woken := false }
  | .pollRecv i =>
    (live s.recvs i).bind fun d => d.fut.poll.map fun f =>
      s.putRecv i { d with fut := f, polls := d.polls + 1, woken := false }
  | .stepSend i key =>
    (live s.sends i).bind fun d => (d.fut.step s.chan ⟨i, d.polls⟩ key).map fun r =>
      (({ s with chan := r.1 }).putSend i { d with fut := r.2.1 }).afterSend i r.2.2
  | .stepRecv i key =>
    (live s.recvs i).bind fun d => (d.fut.step s.chan ⟨i, d.polls⟩ key).map fun r =>
      (({ s with chan := r.1 }).putRecv i { d with fut := r.2.1 }).afterRecv i r.2.2
  | .dropSend i =>
    (live s.sends i).bind fun d =>
      if d.fut.point.stage = .fresh ∨ d.fut.point.stage = .pending then
        some (({ s with chan := d.fut.drop s.chan }).putSend i { d with dropped := true })
      else none
  | .dropRecv i =>
    (live s.recvs i).bind fun d =>
      if d.fut.point.stage = .fresh ∨ d.fut.point.stage = .pending then
        some (({ s with chan := d.fut.drop s.chan }).putRecv i { d with dropped := true })
      else none
  | .trySend handle msg => if s.senders[handle]? = some true then some (stepTrySend s msg) else none
  | .tryRecv handle => if s.receivers[handle]? = some true then some (stepTryRecv s) else none
  | .cloneSender handle =>
    if s.senders[handle]? = some true then
      s.chan.cloneSender.map fun ch => { s with chan := ch, senders := s.senders ++ [true] }
    else none
  | .cloneReceiver handle =>
    if s.receivers[handle]? = some true then
      s.chan.cloneReceiver.map fun ch => { s with chan := ch, receivers := s.receivers ++ [true] }
    else none
  | .dropSender handle =>
    if s.senders[handle]? = some true ∧
        ¬ s.sends.any (Driven.borrows (fun f => f.point.stage) handle) then
      some { s with chan := s.chan.dropSender, senders := s.senders.set handle false }
    else none
  | .dropReceiver handle =>
    if s.receivers[handle]? = some true ∧
        ¬ s.recvs.any (Driven.borrows (fun f => f.point.stage) handle) then
      some { s with receivers := s.receivers.set handle false }
    else none

def channel (cap : Option ℕ) : Channel α Ticket :=
  match cap with
  | some cap => .withCapacity cap
  | none => .new

def system (cap : Option ℕ) : System (State α) (Act α) := ⟨start (channel cap), step⟩

inductive Does (s : State α) : Act α → State α → Prop
  | send {handle msg} (hh : s.senders[handle]? = some true) :
      Does s (.send handle msg) { s with
        sends := s.sends ++ [.new (.new msg) handle]
        history := { s.history with
          submitted := s.history.submitted ++ [(.send s.sends.length, msg)] } }
  | recv {handle} (hh : s.receivers[handle]? = some true) :
      Does s (.recv handle) { s with recvs := s.recvs ++ [.new .new handle] }
  | pollSend {i d} (hd : s.sends[i]? = some d) (hl : d.dropped = false)
      (hp : d.fut.point = .fresh ∨ d.fut.point = .pending) :
      Does s (.pollSend i) (s.putSend i
        { d with fut := { d.fut with point := .start }, polls := d.polls + 1, woken := false })
  | pollRecv {i d} (hd : s.recvs[i]? = some d) (hl : d.dropped = false)
      (hp : d.fut.point = .fresh ∨ d.fut.point = .pending) :
      Does s (.pollRecv i) (s.putRecv i
        { d with fut := { d.fut with point := .start }, polls := d.polls + 1, woken := false })
  | stepSend {i key d ch f e} (hd : s.sends[i]? = some d) (hl : d.dropped = false)
      (hf : d.fut.Does s.chan ⟨i, d.polls⟩ ch f e) :
      Does s (.stepSend i key) ((({ s with chan := ch }).putSend i { d with fut := f }).afterSend i e)
  | stepRecv {i key d ch f e} (hd : s.recvs[i]? = some d) (hl : d.dropped = false)
      (hf : d.fut.Does s.chan ⟨i, d.polls⟩ ch f e) :
      Does s (.stepRecv i key) ((({ s with chan := ch }).putRecv i { d with fut := f }).afterRecv i e)
  | dropSend {i d} (hd : s.sends[i]? = some d) (hl : d.dropped = false)
      (hp : d.fut.point.stage = .fresh ∨ d.fut.point.stage = .pending) :
      Does s (.dropSend i) (s.putSend i { d with dropped := true })
  | dropRecv {i d} (hd : s.recvs[i]? = some d) (hl : d.dropped = false)
      (hp : d.fut.point.stage = .fresh ∨ d.fut.point.stage = .pending) :
      Does s (.dropRecv i) (s.putRecv i { d with dropped := true })
  | trySendOk {handle msg inner} (hh : s.senders[handle]? = some true)
      (hfull : s.chan.inner.isFull = false) (hq : inner.queue = s.chan.inner.queue ++ [msg])
      (hcap : inner.cap = s.chan.inner.cap) (hc : inner.Connected) :
      Does s (.trySend handle msg) { s with
        chan := { s.chan with inner := inner }
        history := { s.history with
          submitted := s.history.submitted ++ [(.trySend s.history.trySends.length, msg)]
          enqueued := s.history.enqueued ++ [(.trySend s.history.trySends.length, msg)]
          trySends := s.history.trySends ++ [.ok ()] } }
  | trySendFull {handle msg} (hh : s.senders[handle]? = some true)
      (hfull : s.chan.inner.isFull = true) :
      Does s (.trySend handle msg) { s with
        history := { s.history with
          submitted := s.history.submitted ++ [(.trySend s.history.trySends.length, msg)]
          trySends := s.history.trySends ++ [.error (.full msg)] } }
  | tryRecvOk {handle msg inner} (hh : s.receivers[handle]? = some true)
      (hq : s.chan.inner.queue = msg :: inner.queue) (hcap : inner.cap = s.chan.inner.cap)
      (hc : inner.Connected) :
      Does s (.tryRecv handle) { s with
        chan := { s.chan with inner := inner }
        history := { s.history with
          handedOut := s.history.handedOut ++ [(.tryRecv s.history.tryRecvs.length, msg)]
          tryRecvs := s.history.tryRecvs ++ [.ok msg] } }
  | tryRecvEmpty {handle} (hh : s.receivers[handle]? = some true) (hq : s.chan.inner.queue = []) :
      Does s (.tryRecv handle) { s with
        history := { s.history with tryRecvs := s.history.tryRecvs ++ [.error .empty] } }
  | cloneSender {handle} (hh : s.senders[handle]? = some true) :
      Does s (.cloneSender handle) { s with
        chan := { s.chan with senderCount := s.chan.senderCount + 1 }
        senders := s.senders ++ [true] }
  | cloneReceiver {handle} (hh : s.receivers[handle]? = some true) :
      Does s (.cloneReceiver handle) { s with
        chan := { s.chan with receiverCount := s.chan.receiverCount + 1 }
        receivers := s.receivers ++ [true] }
  | dropSender {handle} (hh : s.senders[handle]? = some true)
      (hb : s.sends.any (Driven.borrows (fun f => f.point.stage) handle) = false) :
      Does s (.dropSender handle) { s with
        chan := { s.chan with senderCount := s.chan.senderCount - 1 }
        senders := s.senders.set handle false }
  | dropReceiver {handle} (hh : s.receivers[handle]? = some true)
      (hb : s.recvs.any (Driven.borrows (fun f => f.point.stage) handle) = false) :
      Does s (.dropReceiver handle) { s with receivers := s.receivers.set handle false }

theorem live_some {ds : List (Driven φ)} {i : ℕ} {d : Driven φ} (h : live ds i = some d) :
    ds[i]? = some d ∧ d.dropped = false := by
  obtain ⟨hd, hl⟩ := Option.filter_eq_some_iff.mp h
  exact ⟨hd, by simpa using hl⟩

theorem sendFuture_poll {f f' : SendFuture α} (h : f.poll = some f') :
    (f.point = .fresh ∨ f.point = .pending) ∧ f' = { f with point := .start } := by
  unfold SendFuture.poll at h
  split at h
  next hp => exact ⟨.inl hp, (Option.some.inj h).symm⟩
  next hp => exact ⟨.inr hp, (Option.some.inj h).symm⟩
  next => cases h

theorem recvFuture_poll {f f' : RecvFuture α} (h : f.poll = some f') :
    (f.point = .fresh ∨ f.point = .pending) ∧ f' = { f with point := .start } := by
  unfold RecvFuture.poll at h
  split at h
  next hp => exact ⟨.inl hp, (Option.some.inj h).symm⟩
  next hp => exact ⟨.inr hp, (Option.some.inj h).symm⟩
  next => cases h

theorem sendFuture_drop {ω : Type} (ch : Channel α ω) (f : SendFuture α) : f.drop ch = ch := by
  unfold SendFuture.drop
  split <;> rfl

theorem recvFuture_drop {ω : Type} (ch : Channel α ω) (f : RecvFuture α) : f.drop ch = ch := by
  unfold RecvFuture.drop
  split <;> rfl

theorem dropSender_eq {ω : Type} (ch : Channel α ω) :
    ch.dropSender = { ch with senderCount := ch.senderCount - 1 } := by
  unfold Channel.dropSender
  split <;> rfl

theorem step_does {s t : State α} {a : Act α} (hc : s.chan.inner.Connected)
    (h : step s a = some t) : Does s a t := by
  cases a with
  | send handle msg =>
    obtain ⟨hh, he⟩ := Option.ite_none_right_eq_some.mp h
    cases he
    exact .send hh
  | recv handle =>
    obtain ⟨hh, he⟩ := Option.ite_none_right_eq_some.mp h
    cases he
    exact .recv hh
  | pollSend i =>
    obtain ⟨d, hd, he⟩ := Option.bind_eq_some_iff.mp h
    obtain ⟨f, hf, rfl⟩ := Option.map_eq_some_iff.mp he
    obtain ⟨hp, rfl⟩ := sendFuture_poll hf
    exact .pollSend (live_some hd).1 (live_some hd).2 hp
  | pollRecv i =>
    obtain ⟨d, hd, he⟩ := Option.bind_eq_some_iff.mp h
    obtain ⟨f, hf, rfl⟩ := Option.map_eq_some_iff.mp he
    obtain ⟨hp, rfl⟩ := recvFuture_poll hf
    exact .pollRecv (live_some hd).1 (live_some hd).2 hp
  | stepSend i key =>
    obtain ⟨d, hd, he⟩ := Option.bind_eq_some_iff.mp h
    obtain ⟨⟨ch, f, e⟩, hf, rfl⟩ := Option.map_eq_some_iff.mp he
    exact .stepSend (live_some hd).1 (live_some hd).2 (SendFuture.step_does hc hf)
  | stepRecv i key =>
    obtain ⟨d, hd, he⟩ := Option.bind_eq_some_iff.mp h
    obtain ⟨⟨ch, f, e⟩, hf, rfl⟩ := Option.map_eq_some_iff.mp he
    exact .stepRecv (live_some hd).1 (live_some hd).2 (RecvFuture.step_does hc hf)
  | dropSend i =>
    obtain ⟨d, hd, he⟩ := Option.bind_eq_some_iff.mp h
    obtain ⟨hp, he⟩ := Option.ite_none_right_eq_some.mp he
    rw [sendFuture_drop] at he
    cases he
    exact .dropSend (live_some hd).1 (live_some hd).2 hp
  | dropRecv i =>
    obtain ⟨d, hd, he⟩ := Option.bind_eq_some_iff.mp h
    obtain ⟨hp, he⟩ := Option.ite_none_right_eq_some.mp he
    rw [recvFuture_drop] at he
    cases he
    exact .dropRecv (live_some hd).1 (live_some hd).2 hp
  | trySend handle msg =>
    obtain ⟨hh, he⟩ := Option.ite_none_right_eq_some.mp h
    rcases Crossbeam.trySend_cases hc msg with ⟨hfull, hr⟩ | ⟨hfull, inner, hr, hq, hcap, hc'⟩
    · simp only [stepTrySend, Channel.trySend, hr, List.append_nil] at he
      cases he
      exact .trySendFull hh hfull
    · simp only [stepTrySend, Channel.trySend, hr] at he
      cases he
      exact .trySendOk hh hfull hq hcap hc'
  | tryRecv handle =>
    obtain ⟨hh, he⟩ := Option.ite_none_right_eq_some.mp h
    rcases Crossbeam.tryRecv_cases hc with ⟨hq, hr⟩ | ⟨msg, inner, hr, hq, hcap, hc'⟩
    · simp only [stepTryRecv, Channel.tryRecv, hr, List.append_nil] at he
      cases he
      exact .tryRecvEmpty hh hq
    · simp only [stepTryRecv, Channel.tryRecv, hr] at he
      cases he
      exact .tryRecvOk hh hq hcap hc'
  | cloneSender handle =>
    obtain ⟨hh, he⟩ := Option.ite_none_right_eq_some.mp h
    obtain ⟨ch, hch, rfl⟩ := Option.map_eq_some_iff.mp he
    obtain ⟨-, he⟩ := Option.ite_none_left_eq_some.mp hch
    cases he
    exact .cloneSender hh
  | cloneReceiver handle =>
    obtain ⟨hh, he⟩ := Option.ite_none_right_eq_some.mp h
    obtain ⟨ch, hch, rfl⟩ := Option.map_eq_some_iff.mp he
    obtain ⟨-, he⟩ := Option.ite_none_left_eq_some.mp hch
    cases he
    exact .cloneReceiver hh
  | dropSender handle =>
    obtain ⟨⟨hh, hb⟩, he⟩ := Option.ite_none_right_eq_some.mp h
    rw [dropSender_eq] at he
    cases he
    exact .dropSender hh (by simpa using hb)
  | dropReceiver handle =>
    obtain ⟨⟨hh, hb⟩, he⟩ := Option.ite_none_right_eq_some.mp h
    cases he
    exact .dropReceiver hh (by simpa using hb)

theorem stepSend_eq {s : State α} {i key : ℕ} {d : Driven (SendFuture α)} (hd : s.sends[i]? = some d)
    (hl : d.dropped = false) {ch : Channel α Ticket} {f : SendFuture α} {e : Effect α Ticket}
    (h : d.fut.step s.chan ⟨i, d.polls⟩ key = some (ch, f, e)) : step s (.stepSend i key) =
      some ((({ s with chan := ch }).putSend i { d with fut := f }).afterSend i e) := by
  have hlive : live s.sends i = some d := by simp [live, hd, hl]
  simp only [step, hlive, h, Option.bind_some, Option.map_some]

theorem stepRecv_eq {s : State α} {i key : ℕ} {d : Driven (RecvFuture α)} (hd : s.recvs[i]? = some d)
    (hl : d.dropped = false) {ch : Channel α Ticket} {f : RecvFuture α} {e : Effect α Ticket}
    (h : d.fut.step s.chan ⟨i, d.polls⟩ key = some (ch, f, e)) : step s (.stepRecv i key) =
      some ((({ s with chan := ch }).putRecv i { d with fut := f }).afterRecv i e) := by
  have hlive : live s.recvs i = some d := by simp [live, hd, hl]
  simp only [step, hlive, h, Option.bind_some, Option.map_some]

end ChannelExecutor.ChannelSystem
