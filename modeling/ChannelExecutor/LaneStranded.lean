import ChannelExecutor.LaneSleep

set_option autoImplicit false

namespace ChannelExecutor.LaneLink

open Lib Lib.WaitSet
open ChannelSystem (State Driven Inv)

variable {α : Type} {cap : ℕ} {msgs : List α} {l l' : Link α}

def runSend (cx : Ticket) (ch : Channel α Ticket) (f : SendFuture α) :
    List ℕ → Option (Channel α Ticket × SendFuture α)
  | [] => some (ch, f)
  | key :: keys =>
    match f.step ch cx key with
    | some (_, _, .notified (some _)) => none
    | some (ch', f', _) => runSend cx ch' f' keys
    | none => none

def runRecv (cx : Ticket) (ch : Channel α Ticket) (f : RecvFuture α) :
    List ℕ → Option (Channel α Ticket × RecvFuture α)
  | [] => some (ch, f)
  | key :: keys =>
    match f.step ch cx key with
    | some (_, _, .notified (some _)) => none
    | some (ch', f', _) => runRecv cx ch' f' keys
    | none => none

theorem runSend_cons {cx : Ticket} {ch ch' : Channel α Ticket} {f f' : SendFuture α} {key : ℕ}
    {keys : List ℕ} (h : runSend cx ch f (key :: keys) = some (ch', f')) :
    ∃ ch₁ f₁ e, f.step ch cx key = some (ch₁, f₁, e) ∧ notified e = none ∧
      runSend cx ch₁ f₁ keys = some (ch', f') := by
  simp only [runSend] at h
  split at h
  next => cases h
  next ch₁ f₁ e hne he =>
    refine ⟨ch₁, f₁, e, he, ?_, h⟩
    cases e with
    | notified w =>
      cases w with
      | none => rfl
      | some w => exact (hne w rfl).elim
    | _ => rfl
  next => cases h

theorem runRecv_cons {cx : Ticket} {ch ch' : Channel α Ticket} {f f' : RecvFuture α} {key : ℕ}
    {keys : List ℕ} (h : runRecv cx ch f (key :: keys) = some (ch', f')) :
    ∃ ch₁ f₁ e, f.step ch cx key = some (ch₁, f₁, e) ∧ notified e = none ∧
      runRecv cx ch₁ f₁ keys = some (ch', f') := by
  simp only [runRecv] at h
  split at h
  next => cases h
  next ch₁ f₁ e hne he =>
    refine ⟨ch₁, f₁, e, he, ?_, h⟩
    cases e with
    | notified w =>
      cases w with
      | none => rfl
      | some w => exact (hne w rfl).elim
    | _ => rfl
  next => cases h

theorem sender_after_inPoll {task : SenderTask α} {f : SendFuture α}
    (h : f.point.stage.inPoll = true) : task.after f = task := by
  unfold SenderTask.after
  split <;> simp_all [Point.stage, Stage.inPoll]

theorem receiver_after_inPoll {task : ReceiverTask α} {f : RecvFuture α}
    (h : f.point.stage.inPoll = true) : task.after f = task := by
  unfold ReceiverTask.after
  split <;> simp_all [Point.stage, Stage.inPoll]

theorem sendStep_inPoll {ch : Channel α Ticket} {f : SendFuture α} {cx : Ticket} {key : ℕ}
    (h : (f.step ch cx key).isSome) : f.point.stage.inPoll = true := by
  cases hp : f.point <;> simp_all [SendFuture.step, Point.stage, Stage.inPoll]

theorem recvStep_inPoll {ch : Channel α Ticket} {f : RecvFuture α} {cx : Ticket} {key : ℕ}
    (h : (f.step ch cx key).isSome) : f.point.stage.inPoll = true := by
  cases hp : f.point <;> simp_all [RecvFuture.step, Point.stage, Stage.inPoll]

structure Flow (cap : ℕ) (msgs : List α) (l : Link α) (ch : Channel α Ticket)
    (sender : SenderTask α) (receiver : ReceiverTask α) : Prop where
  reachable : (link cap msgs).Reachable l
  chan : l.state.chan = ch
  sender : l.sender = sender
  receiver : l.receiver = receiver
  senders : l.state.senders[0]? = some true
  receivers : l.state.receivers[0]? = some true

theorem Flow.stepSender {ch : Channel α Ticket} {task : SenderTask α} {r : ReceiverTask α}
    (h : Flow cap msgs l ch task r) (hr : task.running = true) {i key : ℕ}
    (hc : task.current = some i) {d : Driven (SendFuture α)} (hd : l.state.sends[i]? = some d)
    (hl : d.dropped = false) {ch' : Channel α Ticket} {f : SendFuture α} {e : Effect α Ticket}
    (hf : d.fut.step ch ⟨i, d.polls⟩ key = some (ch', f, e)) (he : notified e = none) :
    ∃ l', Flow cap msgs l' ch' (task.after f) r ∧ l'.state.sends[i]? = some { d with fut := f } := by
  obtain ⟨hreach, rfl, rfl, rfl, hs, hrs⟩ := h
  have hconn := (reaches_linkInv hreach).inv.connected
  have hstep := ChannelSystem.stepSend_eq hd hl hf
  have hget : ((({ l.state with chan := ch' }).putSend i { d with fut := f }).afterSend i e).sends[i]? =
      some { d with fut := f } := by
    rw [ChannelSystem.afterSend_sends, State.putSend, getElem?_set_some hd, if_pos rfl]
  have hwakes := effect_wakes_send hd (SendFuture.step_does hconn hf)
  refine ⟨⟨_, l.sender.after f, l.receiver⟩, ⟨?_, ChannelSystem.afterSend_chan _ _ _, rfl, rfl, ?_, ?_⟩, hget⟩
  · apply hreach.step (a := .stepSender key) trivial
    simp only [link, LaneLink.step, hc, hr, if_true, hstep, Option.bind_some, hget, Option.map_some,
      hwakes, he, Option.isSome_none, Bool.or_false]
    rfl
  · cases e <;> exact hs
  · cases e <;> exact hrs

theorem Flow.runSend {ch : Channel α Ticket} {task : SenderTask α} {r : ReceiverTask α}
    (h : Flow cap msgs l ch task r) (hr : task.running = true) {i : ℕ}
    (hc : task.current = some i) {d : Driven (SendFuture α)} (hd : l.state.sends[i]? = some d)
    (hl : d.dropped = false) {keys : List ℕ} {ch' : Channel α Ticket} {f : SendFuture α}
    (hp : d.fut.point.stage.inPoll = true)
    (hf : runSend ⟨i, d.polls⟩ ch d.fut keys = some (ch', f)) :
    ∃ l', Flow cap msgs l' ch' (task.after f) r := by
  induction keys generalizing l ch d with
  | nil =>
    cases hf
    exact ⟨l, by rwa [sender_after_inPoll hp]⟩
  | cons key keys ih =>
    obtain ⟨ch₁, f₁, e, hstep, he, hrest⟩ := runSend_cons hf
    obtain ⟨l₁, h₁, hd₁⟩ := h.stepSender hr hc hd hl hstep he
    cases keys with
    | nil => cases hrest; exact ⟨l₁, h₁⟩
    | cons key' keys' =>
      have hp₁ : f₁.point.stage.inPoll = true := by
        obtain ⟨_, _, _, hs, -, -⟩ := runSend_cons hrest
        exact sendStep_inPoll (by rw [hs]; rfl)
      rw [sender_after_inPoll hp₁] at h₁
      exact ih h₁ hd₁ hl hp₁ hrest

theorem Flow.stepReceiver {ch : Channel α Ticket} {task : SenderTask α} {r : ReceiverTask α}
    (h : Flow cap msgs l ch task r) (hr : r.running = true) {i key : ℕ}
    (hc : r.current = some i) {d : Driven (RecvFuture α)} (hd : l.state.recvs[i]? = some d)
    (hl : d.dropped = false) {ch' : Channel α Ticket} {f : RecvFuture α} {e : Effect α Ticket}
    (hf : d.fut.step ch ⟨i, d.polls⟩ key = some (ch', f, e)) (he : notified e = none) :
    ∃ l', Flow cap msgs l' ch' task (r.after f) ∧ l'.state.recvs[i]? = some { d with fut := f } := by
  obtain ⟨hreach, rfl, rfl, rfl, hs, hrs⟩ := h
  have hconn := (reaches_linkInv hreach).inv.connected
  have hstep := ChannelSystem.stepRecv_eq hd hl hf
  have hget : ((({ l.state with chan := ch' }).putRecv i { d with fut := f }).afterRecv i e).recvs[i]? =
      some { d with fut := f } := by
    rw [ChannelSystem.afterRecv_recvs, State.putRecv, getElem?_set_some hd, if_pos rfl]
  have hwakes := effect_wakes_recv hd (RecvFuture.step_does hconn hf)
  refine ⟨⟨_, l.sender, l.receiver.after f⟩, ⟨?_, ChannelSystem.afterRecv_chan _ _ _, rfl, rfl, ?_, ?_⟩, hget⟩
  · apply hreach.step (a := .stepReceiver key) trivial
    simp only [link, LaneLink.step, hc, hr, if_true, hstep, Option.bind_some, hget, Option.map_some,
      hwakes, he, Option.isSome_none, Bool.or_false]
    rfl
  · cases e <;> exact hs
  · cases e <;> exact hrs

theorem Flow.runRecv {ch : Channel α Ticket} {task : SenderTask α} {r : ReceiverTask α}
    (h : Flow cap msgs l ch task r) (hr : r.running = true) {i : ℕ}
    (hc : r.current = some i) {d : Driven (RecvFuture α)} (hd : l.state.recvs[i]? = some d)
    (hl : d.dropped = false) {keys : List ℕ} {ch' : Channel α Ticket} {f : RecvFuture α}
    (hp : d.fut.point.stage.inPoll = true)
    (hf : runRecv ⟨i, d.polls⟩ ch d.fut keys = some (ch', f)) :
    ∃ l', Flow cap msgs l' ch' task (r.after f) := by
  induction keys generalizing l ch d with
  | nil =>
    cases hf
    exact ⟨l, by rwa [receiver_after_inPoll hp]⟩
  | cons key keys ih =>
    obtain ⟨ch₁, f₁, e, hstep, he, hrest⟩ := runRecv_cons hf
    obtain ⟨l₁, h₁, hd₁⟩ := h.stepReceiver hr hc hd hl hstep he
    cases keys with
    | nil => cases hrest; exact ⟨l₁, h₁⟩
    | cons key' keys' =>
      have hp₁ : f₁.point.stage.inPoll = true := by
        obtain ⟨_, _, _, hs, -, -⟩ := runRecv_cons hrest
        exact recvStep_inPoll (by rw [hs]; rfl)
      rw [receiver_after_inPoll hp₁] at h₁
      exact ih h₁ hd₁ hl hp₁ hrest

theorem Flow.openSend {ch : Channel α Ticket} {msg : α} {todo : List α} {r : ReceiverTask α}
    (h : Flow cap msgs l ch ⟨msg :: todo, none, true, false⟩ r) :
    ∃ l' i, Flow cap msgs l' ch ⟨todo, some i, true, false⟩ r ∧
      l'.state.sends[i]? = some (sendPolled msg) := by
  obtain ⟨hreach, rfl, hsend, rfl, hs, hrs⟩ := h
  let s : State α := { l.state with
    sends := l.state.sends ++ [sendPolled msg]
    history := { l.state.history with
      submitted := l.state.history.submitted ++ [(.send l.state.sends.length, msg)] } }
  have hstep : LaneLink.step l .send =
      some ⟨s, ⟨todo, some l.state.sends.length, true, false⟩, l.receiver⟩ := by
    simp [LaneLink.step, hsend, ChannelSystem.step, hs, ChannelSystem.live, Driven.new,
      SendFuture.new, SendFuture.poll, State.putSend, s, sendPolled, Option.filter]
  exact ⟨_, l.state.sends.length, ⟨hreach.step (a := .send) trivial hstep, rfl, rfl, rfl, hs, hrs⟩,
    by simp [s]⟩

theorem Flow.openRecv {ch : Channel α Ticket} {task : SenderTask α} {delivered : List α}
    (h : Flow cap msgs l ch task ⟨.recv, none, delivered, true, false⟩) :
    ∃ l' i, Flow cap msgs l' ch task ⟨.recv, some i, delivered, true, false⟩ ∧
      l'.state.recvs[i]? = some recvPolled := by
  obtain ⟨hreach, rfl, rfl, hrecv, hs, hrs⟩ := h
  let s : State α := { l.state with recvs := l.state.recvs ++ [recvPolled] }
  have hstep : LaneLink.step l .recv =
      some ⟨s, l.sender, ⟨.recv, some l.state.recvs.length, delivered, true, false⟩⟩ := by
    simp [LaneLink.step, hrecv, ChannelSystem.step, hrs, ChannelSystem.live, Driven.new,
      RecvFuture.new, RecvFuture.poll, State.putRecv, s, recvPolled, Option.filter]
  exact ⟨_, l.state.recvs.length, ⟨hreach.step (a := .recv) trivial hstep, rfl, rfl, rfl, hs, hrs⟩,
    by simp [s]⟩

section Run

variable {ch : Channel α Ticket} {task : SenderTask α} {r : ReceiverTask α} {msg : α}
  {todo delivered : List α}

theorem Flow.sends (h : Flow cap msgs l ch ⟨msg :: todo, none, true, false⟩ r)
    (hroom : ch.inner.isFull = false) (hw : ch.recvWakers = .new) :
    ∃ l' inner, Flow cap msgs l' { ch with inner := inner } ⟨todo, none, true, false⟩ r ∧
      inner.queue = ch.inner.queue ++ [msg] ∧ inner.cap = ch.inner.cap := by
  have hconn : ch.inner.Connected := h.chan ▸ (reaches_linkInv h.reachable).inv.connected
  obtain ⟨l₁, i, h₁, hd⟩ := h.openSend
  rcases Crossbeam.trySend_cases hconn msg with ⟨hfull, -⟩ | ⟨-, inner, hres, hq, hcap, -⟩
  · simp [hroom] at hfull
  have hrun : LaneLink.runSend ⟨i, 1⟩ ch (sendPolled msg).fut [0, 0, 0] =
      some ({ ch with inner := inner }, ⟨none, none, .ready ()⟩) := by
    obtain ⟨_, sc, rc, sw, rw⟩ := ch
    simp only at hw hres
    subst hw
    simp only [LaneLink.runSend, sendPolled, SendFuture.step, Channel.trySend, hres]
    rfl
  obtain ⟨l₂, h₂⟩ := h₁.runSend rfl rfl hd rfl rfl hrun
  exact ⟨l₂, inner, h₂, hq, hcap⟩

theorem Flow.blocks (h : Flow cap msgs l ch ⟨msg :: todo, none, true, false⟩ r)
    (hfull : ch.inner.isFull = true) (hw : ch.sendWakers = .new) :
    ∃ l' i sw, Flow cap msgs l' { ch with sendWakers := sw } ⟨todo, some i, false, false⟩ r := by
  have hconn : ch.inner.Connected := h.chan ▸ (reaches_linkInv h.reachable).inv.connected
  obtain ⟨l₁, i, h₁, hd⟩ := h.openSend
  rcases Crossbeam.trySend_cases hconn msg with ⟨-, hres⟩ | ⟨hroom, -⟩
  swap
  · simp [hroom] at hfull
  let sw : WakerSet Ticket := ⟨Slab.empty.put 0 (some (some ⟨i, 1⟩))⟩
  have hrun : LaneLink.runSend ⟨i, 1⟩ ch (sendPolled msg).fut [0, 0, 0, 0] =
      some ({ ch with sendWakers := sw }, ⟨some msg, some 0, .pending⟩) := by
    obtain ⟨inner, sc, rc, sw, rw⟩ := ch
    simp only at hw hres hfull
    subst hw
    simp [LaneLink.runSend, sendPolled, SendFuture.step, Channel.trySend, hres, WakerSet.insert,
      WakerSet.new, Slab.insert, Channel.isFull, hfull, Channel.isDisconnected, sw]
  obtain ⟨l₂, h₂⟩ := h₁.runSend rfl rfl hd rfl rfl hrun
  exact ⟨l₂, i, sw, h₂⟩

theorem Flow.recvs (h : Flow cap msgs l ch task ⟨.recv, none, delivered, true, false⟩)
    {rest : List α} (hq : ch.inner.queue = msg :: rest) (hw : ch.sendWakers = .new) :
    ∃ l' inner, Flow cap msgs l' { ch with inner := inner } task
        ⟨.drain, none, delivered ++ [msg], true, false⟩ ∧
      inner.queue = rest ∧ inner.cap = ch.inner.cap := by
  have hconn : ch.inner.Connected := h.chan ▸ (reaches_linkInv h.reachable).inv.connected
  obtain ⟨l₁, i, h₁, hd⟩ := h.openRecv
  rcases Crossbeam.tryRecv_cases hconn with ⟨hempty, -⟩ | ⟨m, inner, hres, hq', hcap, -⟩
  · simp [hq] at hempty
  obtain ⟨rfl, rfl⟩ := List.cons.inj (hq.symm.trans hq')
  have hrun : LaneLink.runRecv ⟨i, 1⟩ ch recvPolled.fut [0, 0, 0] =
      some ({ ch with inner := inner }, ⟨none, .ready (.ok msg)⟩) := by
    obtain ⟨_, sc, rc, sw, rw⟩ := ch
    simp only at hw hres
    subst hw
    simp only [LaneLink.runRecv, recvPolled, RecvFuture.step, Channel.tryRecv, hres]
    rfl
  obtain ⟨l₂, h₂⟩ := h₁.runRecv rfl rfl hd rfl rfl hrun
  exact ⟨l₂, inner, h₂, rfl, hcap⟩

theorem Flow.sleeps (h : Flow cap msgs l ch task ⟨.recv, none, delivered, true, false⟩)
    (hq : ch.inner.queue = []) (hw : ch.recvWakers = .new) :
    ∃ l' i ch', Flow cap msgs l' ch' task ⟨.recv, some i, delivered, false, false⟩ := by
  have hconn : ch.inner.Connected := h.chan ▸ (reaches_linkInv h.reachable).inv.connected
  obtain ⟨l₁, i, h₁, hd⟩ := h.openRecv
  rcases Crossbeam.tryRecv_cases hconn with ⟨-, hres⟩ | ⟨m, inner, -, hq', -⟩
  swap
  · simp [hq] at hq'
  let rw : WakerSet Ticket := ⟨Slab.empty.put 0 (some (some ⟨i, 1⟩))⟩
  have hrun : LaneLink.runRecv ⟨i, 1⟩ ch recvPolled.fut [0, 0, 0, 0] =
      some ({ ch with recvWakers := rw }, ⟨some 0, .pending⟩) := by
    obtain ⟨inner, sc, rc, sw, rw⟩ := ch
    simp only at hw hres hq
    subst hw
    simp [LaneLink.runRecv, recvPolled, RecvFuture.step, Channel.tryRecv, hres, WakerSet.insert,
      WakerSet.new, Slab.insert, Channel.isEmpty, Crossbeam.isEmpty, hq, Channel.isDisconnected, rw]
  obtain ⟨l₂, h₂⟩ := h₁.runRecv rfl rfl hd rfl rfl hrun
  exact ⟨l₂, i, _, h₂⟩

theorem Flow.tryRecv {inner : Crossbeam α} (h : Flow cap msgs l ch task r)
    (hr : r.running = true) (hl : r.loop = .drain) {res : Except TryRecvError α}
    (hres : ch.inner.tryRecv = (inner, res)) :
    ∃ l', Flow cap msgs l' { ch with inner := inner } task (r.afterTry res) := by
  obtain ⟨hreach, rfl, rfl, rfl, hs, hrs⟩ := h
  have hstep : LaneLink.step l .tryRecv = some ⟨ChannelSystem.stepTryRecv l.state, l.sender,
      l.receiver.afterTry res⟩ := by
    simp [LaneLink.step, hr, hl, ChannelSystem.step, hrs, Channel.tryRecv, hres]
  refine ⟨_, hreach.step (a := .tryRecv) trivial hstep, ?_, rfl, rfl, hs, hrs⟩
  simp [ChannelSystem.stepTryRecv, Channel.tryRecv, hres]

theorem Flow.drains {q : List α} (h : Flow cap msgs l ch task ⟨.drain, none, delivered, true, false⟩)
    (hq : ch.inner.queue = q) :
    ∃ l' inner, Flow cap msgs l' { ch with inner := inner } task
      ⟨.recv, none, delivered ++ q, true, false⟩ ∧ inner.queue = [] := by
  have hconn : ch.inner.Connected := h.chan ▸ (reaches_linkInv h.reachable).inv.connected
  induction q generalizing l ch delivered with
  | nil =>
    rcases Crossbeam.tryRecv_cases hconn with ⟨-, hres⟩ | ⟨m, inner, -, hq', -⟩
    · obtain ⟨l₁, h₁⟩ := h.tryRecv rfl rfl hres
      exact ⟨l₁, ch.inner, by simpa [ReceiverTask.afterTry] using h₁, hq⟩
    · simp [hq] at hq'
  | cons m rest ih =>
    rcases Crossbeam.tryRecv_cases hconn with ⟨hempty, -⟩ | ⟨m', inner, hres, hq', -, hc'⟩
    · simp [hq] at hempty
    obtain ⟨rfl, rfl⟩ := List.cons.inj (hq.symm.trans hq')
    obtain ⟨l₁, h₁⟩ := h.tryRecv rfl rfl hres
    obtain ⟨l₂, inner', h₂, hempty⟩ := ih h₁ rfl hc'
    exact ⟨l₂, inner', by simpa using h₂, hempty⟩

theorem Flow.fills {xs : List α} (h : Flow cap msgs l ch ⟨xs ++ todo, none, true, false⟩ r)
    (hcap : ch.inner.cap = some cap) (hroom : ch.inner.queue.length + xs.length ≤ cap)
    (hw : ch.recvWakers = .new) :
    ∃ l' inner, Flow cap msgs l' { ch with inner := inner } ⟨todo, none, true, false⟩ r ∧
      inner.queue = ch.inner.queue ++ xs ∧ inner.cap = some cap := by
  induction xs generalizing l ch with
  | nil => exact ⟨l, ch.inner, h, by simp, hcap⟩
  | cons x xs ih =>
    simp only [List.length_cons] at hroom
    have hnot : ch.inner.isFull = false := Crossbeam.isFull_of_lt fun n hn => by
      obtain rfl := Option.some.inj (hcap.symm.trans hn)
      omega
    obtain ⟨l₁, inner, h₁, hq, hc⟩ := h.sends hnot hw
    have hroom' : inner.queue.length + xs.length ≤ cap := by
      simp only [hq, List.length_append, List.length_singleton]
      omega
    obtain ⟨l₂, inner', h₂, hq', hc'⟩ := ih h₁ (hc.trans hcap) hroom' hw
    exact ⟨l₂, inner', h₂, by simp [hq', hq], hc'⟩

theorem flow_start (cap : ℕ) (msgs : List α) : ∃ l : Link α, Flow cap msgs l (.withCapacity cap) ⟨msgs, none, true, false⟩
    ⟨.recv, none, [], true, false⟩ :=
  ⟨_, System.Reaches.step (a := .pollReceiver)
    (System.Reaches.step (a := .pollSender) .refl trivial rfl) trivial rfl, rfl, rfl, rfl, rfl, rfl⟩

theorem exists_stranded (hcap : 0 < cap) (msgs : List α) (hn : cap + 2 ≤ msgs.length) :
    ∃ l, (link cap msgs).Reachable l ∧ Stranded msgs.length l := by
  obtain ⟨x, xs, y, todo, rfl, hxs⟩ : ∃ x xs y todo, msgs = x :: (xs ++ y :: todo) ∧ xs.length = cap := by
    obtain ⟨x, rest, rfl⟩ := List.exists_cons_of_length_pos (by omega : 0 < msgs.length)
    simp only [List.length_cons] at hn
    obtain ⟨y, todo, hy⟩ := List.exists_cons_of_length_pos (by simp; omega : 0 < (rest.drop cap).length)
    exact ⟨x, rest.take cap, y, todo, by rw [← hy, List.take_append_drop], by simp; omega⟩
  obtain ⟨l₀, h₀⟩ := flow_start cap (x :: (xs ++ y :: todo))
  have hnot : (Crossbeam.bounded cap : Crossbeam α).isFull = false :=
    Crossbeam.isFull_of_lt fun n hn => by
      obtain rfl := Option.some.inj hn
      exact hcap
  obtain ⟨l₁, in₁, h₁, hq₁, hc₁⟩ := h₀.sends hnot rfl
  obtain ⟨l₂, in₂, h₂, hq₂, hc₂⟩ := h₁.recvs hq₁ rfl
  obtain ⟨l₃, in₃, h₃, hq₃, hc₃⟩ := h₂.fills (hc₂.trans hc₁) (by simp [hq₂, hxs]) rfl
  have hfull : in₃.isFull = true := by simp [Crossbeam.isFull, hc₃, hq₃, hq₂, hxs]
  obtain ⟨l₄, i, sw, h₄⟩ := h₃.blocks hfull rfl
  obtain ⟨l₅, in₅, h₅, hq₅⟩ := h₄.drains rfl
  obtain ⟨l₆, j, ch, h₆⟩ := h₅.sleeps hq₅ rfl
  refine ⟨l₆, h₆.reachable, ?_, ?_, ?_⟩
  · simp [senderAsleep, h₆.sender]
  · simp [receiverAsleep, h₆.receiver]
  · simp [h₆.receiver, hq₃, hq₂]

end Run

/-- A lane link is never stranded in runs whose inner loop takes no message behind a sleeping
sender; over all runs this is so exactly for at most `cap + 1` messages. -/
theorem never_stranded_iff (hcap : 0 < cap) (msgs : List α) :
    (∀ l, (link cap msgs).ReachableBy (fun l a => takesAwake l a = true) l →
      ¬ Stranded msgs.length l) ∧
    ((∀ l, (link cap msgs).Reachable l → ¬ Stranded msgs.length l) ↔ msgs.length ≤ cap + 1) := by
  refine ⟨fun l h hst => ?_, fun h => ?_, fun hn l h hst => ?_⟩
  · obtain ⟨hi, hs⟩ := reaches_covered h fun _ _ _ _ _ ha _ => ha
    exact not_both_asleep hcap hi hs (reaches_recvBalanced h) ⟨hst.1, hst.2.1⟩
  · by_contra hn
    obtain ⟨l, hl, hst⟩ := exists_stranded hcap msgs (by omega)
    exact h l hl hst
  · obtain ⟨hi, hs⟩ := reaches_covered h fun _ _ _ hi hs _ hd => takesAwake_of_short hn hd hi hs
    exact not_both_asleep hcap hi hs (reaches_recvBalanced h) ⟨hst.1, hst.2.1⟩

theorem never_stranded_iff_two :
    (∀ l, (link 1 [1, 2]).ReachableBy (fun l a => takesAwake l a = true) l → ¬ Stranded 2 l) ∧
    ((∀ l, (link 1 [1, 2]).Reachable l → ¬ Stranded 2 l) ↔ 2 ≤ 2) :=
  never_stranded_iff Nat.one_pos [1, 2]

/-- Capacity 1 and three messages: the first is received, the second is taken by the inner loop
while the sender sleeps on the third, and the receiver falls asleep as well. -/
theorem stranded_three : ∃ l, (link 1 [1, 2, 3]).Reachable l ∧ Stranded 3 l :=
  exists_stranded Nat.one_pos [1, 2, 3] (Nat.le_refl 3)

end ChannelExecutor.LaneLink
