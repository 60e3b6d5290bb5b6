import ChannelExecutor.ChannelInvariant

/-!
One lane link of the `crossbeam_async` driver: a sender task that sends its messages one after
the other, and a receiver task that runs the lane loop. A task is polled again only once its
waker was woken; all send futures belong to the one task and all receive futures to the other.
-/

set_option autoImplicit false

namespace ChannelExecutor.LaneLink

open Lib (Stage System)
open ChannelSystem (State)

variable {α : Type}

/-- `running` while the task is being polled, `woken` while the executor is due to poll it. -/
structure SenderTask (α : Type) where
  todo : List α
  -- the send future that is awaited
  current : Option ℕ
  running : Bool
  woken : Bool

/-- Where the lane loop stands: at `r.recv().await`, in the inner `try_recv` loop, or over. -/
inductive Loop
  | recv | drain | over
  deriving DecidableEq, Repr

structure ReceiverTask (α : Type) where
  loop : Loop
  current : Option ℕ
  delivered : List α
  running : Bool
  woken : Bool

structure Link (α : Type) where
  state : State α
  sender : SenderTask α
  receiver : ReceiverTask α

inductive Act
  | pollSender
  | send
  | stepSender (key : ℕ)
  | pollReceiver
  | recv
  | stepReceiver (key : ℕ)
  | tryRecv
  deriving DecidableEq, Repr

def start (cap : ℕ) (msgs : List α) : Link α :=
  ⟨ChannelSystem.start (.withCapacity cap), ⟨msgs, none, false, true⟩, ⟨.recv, none, [], false, true⟩⟩

def SenderTask.after (task : SenderTask α) (f : SendFuture α) : SenderTask α :=
  match f.point with
  | .ready _ => { task with current := none }
  | .pending => { task with running := false }
  | _ => task

def ReceiverTask.after (task : ReceiverTask α) (f : RecvFuture α) : ReceiverTask α :=
  match f.point with
  | .ready (.ok msg) => { task with loop := .drain, current := none, delivered := task.delivered ++ [msg] }
  | .ready (.error _) => { task with loop := .over, current := none }
  | .pending => { task with running := false }
  | _ => task

def ReceiverTask.afterTry (task : ReceiverTask α) (r : Except TryRecvError α) : ReceiverTask α :=
  match r with
  | .ok msg => { task with delivered := task.delivered ++ [msg] }
  | .error _ => { task with loop := .recv }

def wakesReceiver (s : State α) (i : ℕ) : Bool :=
  s.sends[i]?.any (fun d => d.fut.point.stage = .notifying) && s.chan.recvWakers.notify.2.isSome

def wakesSender (s : State α) (i : ℕ) : Bool :=
  s.recvs[i]?.any (fun d => d.fut.point.stage = .notifying) && s.chan.sendWakers.notify.2.isSome

def step (l : Link α) : Act → Option (Link α)
  | .pollSender =>
    if !l.sender.running && l.sender.woken then
      let task := { l.sender with running := true, woken := false }
      match l.sender.current with
      | none => some { l with sender := task }
      | some i => (ChannelSystem.step l.state (.pollSend i)).map fun s =>
          { l with state := s, sender := task }
    else none
  | .send =>
    match l.sender.current, l.sender.todo with
    | none, msg :: rest =>
      if l.sender.running then
        (ChannelSystem.step l.state (.send 0 msg)).bind fun s =>
          (ChannelSystem.step s (.pollSend l.state.sends.length)).map fun s =>
            { l with
              state := s
              sender := { l.sender with todo := rest, current := some l.state.sends.length } }
      else none
    | _, _ => none
  | .stepSender key =>
    match l.sender.current with
    | some i =>
      if l.sender.running then
        (ChannelSystem.step l.state (.stepSend i key)).bind fun s => s.sends[i]?.map fun d =>
          { state := s
            sender := l.sender.after d.fut
            receiver := { l.receiver with woken := l.receiver.woken || wakesReceiver l.state i } }
      else none
    | none => none
  | .pollReceiver =>
    if !l.receiver.running && l.receiver.woken then
      let task := { l.receiver with running := true, woken := false }
      match l.receiver.current with
      | none => some { l with receiver := task }
      | some i => (ChannelSystem.step l.state (.pollRecv i)).map fun s =>
          { l with state := s, receiver := task }
    else none
  | .recv =>
    match l.receiver.current, l.receiver.loop with
    | none, .recv =>
      if l.receiver.running then
        (ChannelSystem.step l.state (.recv 0)).bind fun s =>
          (ChannelSystem.step s (.pollRecv l.state.recvs.length)).map fun s =>
            { l with state := s, receiver := { l.receiver with current := some l.state.recvs.length } }
      else none
    | _, _ => none
  | .stepReceiver key =>
    match l.receiver.current with
    | some i =>
      if l.receiver.running then
        (ChannelSystem.step l.state (.stepRecv i key)).bind fun s => s.recvs[i]?.map fun d =>
          { state := s
            sender := { l.sender with woken := l.sender.woken || wakesSender l.state i }
            receiver := l.receiver.after d.fut }
      else none
    | none => none
  | .tryRecv =>
    if l.receiver.running ∧ l.receiver.loop = .drain then
      (ChannelSystem.step l.state (.tryRecv 0)).map fun s =>
        { l with state := s, receiver := l.receiver.afterTry l.state.chan.tryRecv.2 }
    else none

def link (cap : ℕ) (msgs : List α) : System (Link α) Act := ⟨start cap msgs, step⟩

def senderAsleep (l : Link α) : Prop := l.sender.running = false ∧ l.sender.woken = false

def receiverAsleep (l : Link α) : Prop := l.receiver.running = false ∧ l.receiver.woken = false

def Stranded (n : ℕ) (l : Link α) : Prop :=
  senderAsleep l ∧ receiverAsleep l ∧ l.receiver.delivered.length < n

def takesAwake (l : Link α) : Act → Bool
  | .tryRecv => l.sender.running || l.sender.woken || l.state.chan.isEmpty
  | _ => true

section Inversion

def sendPolled (msg : α) : ChannelSystem.Driven (SendFuture α) :=
  ⟨⟨some msg, none, .start⟩, 0, 1, false, false⟩

def recvPolled : ChannelSystem.Driven (RecvFuture α) := ⟨⟨none, .start⟩, 0, 1, false, false⟩

def notified : Effect α Lib.Ticket → Option Lib.Ticket
  | .notified woken => woken
  | _ => none

inductive Does (l : Link α) : Act → Link α → Prop
  | firstSender (hr : l.sender.running = false) (hw : l.sender.woken = true)
      (hc : l.sender.current = none) :
      Does l .pollSender { l with sender := { l.sender with running := true, woken := false } }
  | pollSender {i s} (hr : l.sender.running = false) (hw : l.sender.woken = true)
      (hc : l.sender.current = some i) (hs : ChannelSystem.Does l.state (.pollSend i) s) :
      Does l .pollSender
        { l with state := s, sender := { l.sender with running := true, woken := false } }
  | send {msg rest s s'} (hr : l.sender.running = true) (hc : l.sender.current = none)
      (ht : l.sender.todo = msg :: rest) (hs : ChannelSystem.Does l.state (.send 0 msg) s)
      (hp : ChannelSystem.Does s (.pollSend l.state.sends.length) s')
      (hsends : s'.sends = l.state.sends ++ [sendPolled msg]) (hrecvs : s'.recvs = l.state.recvs)
      (hchan : s'.chan = l.state.chan) :
      Does l .send
        { l with
          state := s'
          sender := { l.sender with todo := rest, current := some l.state.sends.length } }
  | stepSender {i key d ch f e} (hr : l.sender.running = true) (hc : l.sender.current = some i)
      (hd : l.state.sends[i]? = some d) (hl : d.dropped = false)
      (hf : d.fut.Does l.state.chan ⟨i, d.polls⟩ ch f e) :
      Does l (.stepSender key)
        { state := (({ l.state with chan := ch }).putSend i { d with fut := f }).afterSend i e
          sender := l.sender.after f
          receiver := { l.receiver with woken := l.receiver.woken || (notified e).isSome } }
  | firstReceiver (hr : l.receiver.running = false) (hw : l.receiver.woken = true)
      (hc : l.receiver.current = none) :
      Does l .pollReceiver { l with receiver := { l.receiver with running := true, woken := false } }
  | pollReceiver {i s} (hr : l.receiver.running = false) (hw : l.receiver.woken = true)
      (hc : l.receiver.current = some i) (hs : ChannelSystem.Does l.state (.pollRecv i) s) :
      Does l .pollReceiver
        { l with state := s, receiver := { l.receiver with running := true, woken := false } }
  | recv {s s'} (hr : l.receiver.running = true) (hc : l.receiver.current = none)
      (hl : l.receiver.loop = .recv) (hs : ChannelSystem.Does l.state (.recv 0) s)
      (hp : ChannelSystem.Does s (.pollRecv l.state.recvs.length) s')
      (hrecvs : s'.recvs = l.state.recvs ++ [recvPolled]) (hsends : s'.sends = l.state.sends)
      (hchan : s'.chan = l.state.chan) :
      Does l .recv
        { l with
          state := s'
          receiver := { l.receiver with current := some l.state.recvs.length } }
  | stepReceiver {i key d ch f e} (hr : l.receiver.running = true) (hc : l.receiver.current = some i)
      (hd : l.state.recvs[i]? = some d) (hl : d.dropped = false)
      (hf : d.fut.Does l.state.chan ⟨i, d.polls⟩ ch f e) :
      Does l (.stepReceiver key)
        { state := (({ l.state with chan := ch }).putRecv i { d with fut := f }).afterRecv i e
          sender := { l.sender with woken := l.sender.woken || (notified e).isSome }
          receiver := l.receiver.after f }
  | tryRecvOk {msg s} (hr : l.receiver.running = true) (hl : l.receiver.loop = .drain)
      (hs : ChannelSystem.Does l.state (.tryRecv 0) s)
      (hq : l.state.chan.inner.queue = msg :: s.chan.inner.queue) (hsends : s.sends = l.state.sends)
      (hrecvs : s.recvs = l.state.recvs) :
      Does l .tryRecv
        { l with
          state := s
          receiver := { l.receiver with delivered := l.receiver.delivered ++ [msg] } }
  | tryRecvEmpty {s} (hr : l.receiver.running = true) (hl : l.receiver.loop = .drain)
      (hs : ChannelSystem.Does l.state (.tryRecv 0) s) (hq : l.state.chan.inner.queue = [])
      (hchan : s.chan = l.state.chan) (hsends : s.sends = l.state.sends)
      (hrecvs : s.recvs = l.state.recvs) :
      Does l .tryRecv { l with state := s, receiver := { l.receiver with loop := .recv } }

theorem effect_wakes_send {s : State α} {i : ℕ} {d : ChannelSystem.Driven (SendFuture α)}
    {ch : Channel α Lib.Ticket} {f : SendFuture α} {e : Effect α Lib.Ticket}
    (hd : s.sends[i]? = some d) (hf : d.fut.Does s.chan ⟨i, d.polls⟩ ch f e) :
    wakesReceiver s i = (notified e).isSome := by
  cases hf <;> simp_all [wakesReceiver, notified, Point.stage, WakerSet.notify]

theorem effect_wakes_recv {s : State α} {i : ℕ} {d : ChannelSystem.Driven (RecvFuture α)}
    {ch : Channel α Lib.Ticket} {f : RecvFuture α} {e : Effect α Lib.Ticket}
    (hd : s.recvs[i]? = some d) (hf : d.fut.Does s.chan ⟨i, d.polls⟩ ch f e) :
    wakesSender s i = (notified e).isSome := by
  cases hf <;> simp_all [wakesSender, notified, Point.stage, WakerSet.notify]

theorem send_polled {s t u : State α} {handle : ℕ} {msg : α}
    (hs : ChannelSystem.Does s (.send handle msg) t)
    (hp : ChannelSystem.Does t (.pollSend s.sends.length) u) :
    u.sends = s.sends ++ [⟨⟨some msg, none, .start⟩, handle, 1, false, false⟩] ∧
      u.recvs = s.recvs ∧ u.chan = s.chan := by
  cases hs
  cases hp with
  | pollSend hd hl hp =>
    simp only [List.getElem?_concat_length, Option.some.injEq] at hd
    subst hd
    exact ⟨by simp [State.putSend, ChannelSystem.Driven.new, SendFuture.new], rfl, rfl⟩

theorem recv_polled {s t u : State α} {handle : ℕ} (hs : ChannelSystem.Does s (.recv handle) t)
    (hp : ChannelSystem.Does t (.pollRecv s.recvs.length) u) :
    u.recvs = s.recvs ++ [⟨⟨none, .start⟩, handle, 1, false, false⟩] ∧
      u.sends = s.sends ∧ u.chan = s.chan := by
  cases hs
  cases hp with
  | pollRecv hd hl hp =>
    simp only [List.getElem?_concat_length, Option.some.injEq] at hd
    subst hd
    exact ⟨by simp [State.putRecv, ChannelSystem.Driven.new, RecvFuture.new], rfl, rfl⟩

theorem step_does {l l' : Link α} {a : Act} (hc : l.state.chan.inner.Connected)
    (h : step l a = some l') : Does l a l' := by
  cases a with
  | pollSender =>
    simp only [step] at h
    split at h
    next hr =>
      simp only [Bool.and_eq_true, Bool.not_eq_true'] at hr
      split at h
      next hcur => cases h; exact .firstSender hr.1 hr.2 hcur
      next i hcur =>
        obtain ⟨s, hs, rfl⟩ := Option.map_eq_some_iff.mp h
        exact .pollSender hr.1 hr.2 hcur (ChannelSystem.step_does hc hs)
    next => cases h
  | send =>
    simp only [step] at h
    split at h
    next msg rest hcur htodo =>
      obtain ⟨hr, he⟩ := Option.ite_none_right_eq_some.mp h
      obtain ⟨s, hs, he⟩ := Option.bind_eq_some_iff.mp he
      obtain ⟨s', hs', rfl⟩ := Option.map_eq_some_iff.mp he
      have hd := ChannelSystem.step_does hc hs
      have hc' : s.chan.inner.Connected := by cases hd; exact hc
      have hp := ChannelSystem.step_does hc' hs'
      obtain ⟨hsends, hrecvs, hchan⟩ := send_polled hd hp
      exact .send hr hcur htodo hd hp hsends hrecvs hchan
    next => cases h
  | stepSender key =>
    simp only [step] at h
    split at h
    next i hcur =>
      obtain ⟨hr, he⟩ := Option.ite_none_right_eq_some.mp h
      obtain ⟨s, hs, he⟩ := Option.bind_eq_some_iff.mp he
      obtain ⟨d', hd', rfl⟩ := Option.map_eq_some_iff.mp he
      cases ChannelSystem.step_does hc hs with
      | @stepSend _ _ d ch f e hd hl hf =>
        simp only [ChannelSystem.afterSend_sends, State.putSend] at hd'
        rw [Lib.WaitSet.getElem?_set_some hd, if_pos rfl] at hd'
        cases hd'
        rw [effect_wakes_send hd hf]
        exact .stepSender hr hcur hd hl hf
    next => cases h
  | pollReceiver =>
    simp only [step] at h
    split at h
    next hr =>
      simp only [Bool.and_eq_true, Bool.not_eq_true'] at hr
      split at h
      next hcur => cases h; exact .firstReceiver hr.1 hr.2 hcur
      next i hcur =>
        obtain ⟨s, hs, rfl⟩ := Option.map_eq_some_iff.mp h
        exact .pollReceiver hr.1 hr.2 hcur (ChannelSystem.step_does hc hs)
    next => cases h
  | recv =>
    simp only [step] at h
    split at h
    next hcur hloop =>
      obtain ⟨hr, he⟩ := Option.ite_none_right_eq_some.mp h
      obtain ⟨s, hs, he⟩ := Option.bind_eq_some_iff.mp he
      obtain ⟨s', hs', rfl⟩ := Option.map_eq_some_iff.mp he
      have hd := ChannelSystem.step_does hc hs
      have hc' : s.chan.inner.Connected := by cases hd; exact hc
      have hp := ChannelSystem.step_does hc' hs'
      obtain ⟨hrecvs, hsends, hchan⟩ := recv_polled hd hp
      exact .recv hr hcur hloop hd hp hrecvs hsends hchan
    next => cases h
  | stepReceiver key =>
    simp only [step] at h
    split at h
    next i hcur =>
      obtain ⟨hr, he⟩ := Option.ite_none_right_eq_some.mp h
      obtain ⟨s, hs, he⟩ := Option.bind_eq_some_iff.mp he
      obtain ⟨d', hd', rfl⟩ := Option.map_eq_some_iff.mp he
      cases ChannelSystem.step_does hc hs with
      | @stepRecv _ _ d ch f e hd hl hf =>
        simp only [ChannelSystem.afterRecv_recvs, State.putRecv] at hd'
        rw [Lib.WaitSet.getElem?_set_some hd, if_pos rfl] at hd'
        cases hd'
        rw [effect_wakes_recv hd hf]
        exact .stepReceiver hr hcur hd hl hf
    next => cases h
  | tryRecv =>
    obtain ⟨⟨hr, hl⟩, he⟩ := Option.ite_none_right_eq_some.mp h
    obtain ⟨s, hs, rfl⟩ := Option.map_eq_some_iff.mp he
    have hd := ChannelSystem.step_does hc hs
    rcases Crossbeam.tryRecv_cases hc with ⟨hq, hres⟩ | ⟨msg, inner, hres, hq, hcap, hc'⟩
    · have hr' : l.receiver.afterTry l.state.chan.tryRecv.2 = { l.receiver with loop := .recv } := by
        simp [Channel.tryRecv, hres, ReceiverTask.afterTry]
      rw [hr']
      cases hd with
      | tryRecvOk _ hq' => simp [hq] at hq'
      | tryRecvEmpty hh _ => exact .tryRecvEmpty hr hl (.tryRecvEmpty hh hq) hq rfl rfl rfl
    · have hr' : l.receiver.afterTry l.state.chan.tryRecv.2 =
          { l.receiver with delivered := l.receiver.delivered ++ [msg] } := by
        simp [Channel.tryRecv, hres, ReceiverTask.afterTry]
      rw [hr']
      cases hd with
      | tryRecvOk hh hq' hcap hc'' =>
        obtain ⟨rfl, -⟩ := List.cons.inj (hq.symm.trans hq')
        exact .tryRecvOk hr hl (.tryRecvOk hh hq' hcap hc'') hq' rfl rfl
      | tryRecvEmpty hh hq' => simp [hq] at hq'

end Inversion

end ChannelExecutor.LaneLink
