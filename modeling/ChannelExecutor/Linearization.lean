import ChannelExecutor.Lib.AtomicObject
import ChannelExecutor.MessageAccount

set_option autoImplicit false

namespace ChannelExecutor

open Lib (Phase Spec)

variable {α : Type}

inductive Request (α : Type)
  | send (msg : α)
  | trySend (msg : α)
  | recv
  | tryRecv
  deriving DecidableEq, Repr

inductive Response (α : Type)
  | sent
  | trySent (out : Except (TrySendError α) Unit)
  | received (out : Except RecvError α)
  | tryReceived (out : Except TryRecvError α)

/-- What a channel is for: a queue with room for `cap` messages, used by one caller at a time.
`send` and `recv` wait until they can be served. -/
inductive Fifo (cap : Option ℕ) : List α → Request α → Response α → List α → Prop
  | send {q} (msg : α) (h : ∀ c, cap = some c → q.length < c) :
      Fifo cap q (.send msg) .sent (q ++ [msg])
  | trySend {q} (msg : α) (h : ∀ c, cap = some c → q.length < c) :
      Fifo cap q (.trySend msg) (.trySent (.ok ())) (q ++ [msg])
  | full {q} (msg : α) (h : cap = some q.length) :
      Fifo cap q (.trySend msg) (.trySent (.error (.full msg))) q
  | recv (msg : α) (q : List α) : Fifo cap (msg :: q) .recv (.received (.ok msg)) q
  | tryRecv (msg : α) (q : List α) : Fifo cap (msg :: q) .tryRecv (.tryReceived (.ok msg)) q
  | empty : Fifo cap [] .tryRecv (.tryReceived (.error .empty)) []

def fifo (cap : Option ℕ) : Spec (List α) (Request α) (Response α) := ⟨[], Fifo cap⟩

theorem Crossbeam.room {c : Crossbeam α} (h : c.isFull = false) :
    ∀ n, c.cap = some n → c.queue.length < n := by
  intro n hn
  have hne : n ≠ c.queue.length := by
    rintro rfl
    simp [isFull, hn] at h
  have := c.fits n hn
  omega

def SendFuture.request (f : SendFuture α) : Option (Request α) :=
  match f.point with
  | .fresh => f.msg.map .send
  | _ => none

def SendFuture.response (f : SendFuture α) : Option (Response α) :=
  match f.point with
  | .ready () => some .sent
  | _ => none

def RecvFuture.request (f : RecvFuture α) : Option (Request α) :=
  match f.point with
  | .fresh => some .recv
  | _ => none

def RecvFuture.response (f : RecvFuture α) : Option (Response α) :=
  match f.point with
  | .ready out => some (.received out)
  | _ => none

namespace ChannelSystem

open Lib Lib.WaitSet

abbrev CallId := Origin ⊕ Receipt

abbrev Seen (α : Type) := Event CallId (Request α) (Response α)

/-- The calls and returns in the step from `s` to `t`; a direct call returns in the step it is made. -/
def visible (s : State α) (a : Act α) (t : State α) : List (Seen α) :=
  match a with
  | .pollSend i =>
    ((sendFuts s)[i]?.bind SendFuture.request).toList.map (Event.call (.inl (.send i)))
  | .stepSend i _ =>
    ((sendFuts t)[i]?.bind SendFuture.response).toList.map (Event.ret (.inl (.send i)))
  | .pollRecv i =>
    ((recvFuts s)[i]?.bind RecvFuture.request).toList.map (Event.call (.inr (.recv i)))
  | .stepRecv i _ =>
    ((recvFuts t)[i]?.bind RecvFuture.response).toList.map (Event.ret (.inr (.recv i)))
  | .trySend _ msg =>
    [.call (.inl (.trySend s.history.trySends.length)) (.trySend msg),
      .ret (.inl (.trySend s.history.trySends.length)) (.trySent (s.chan.trySend msg).2)]
  | .tryRecv _ =>
    [.call (.inr (.tryRecv s.history.tryRecvs.length)) .tryRecv,
      .ret (.inr (.tryRecv s.history.tryRecvs.length)) (.tryReceived s.chan.tryRecv.2)]
  | _ => []

structure Logged (α : Type) where
  state : State α
  log : List (Seen α)

def record (w : Logged α) (a : Act α) : Option (Logged α) :=
  (step w.state a).map fun t => ⟨t, w.log ++ visible w.state a t⟩

def logged (cap : Option ℕ) : System (Logged α) (Act α) := ⟨⟨start (channel cap), []⟩, record⟩

theorem record_eq_some {w v : Logged α} {a : Act α} (h : record w a = some v) :
    step w.state a = some v.state ∧ v.log = w.log ++ visible w.state a v.state := by
  obtain ⟨t, ht, rfl⟩ := Option.map_eq_some_iff.mp h
  exact ⟨ht, rfl⟩

theorem logged_complete {cap : Option ℕ} {s : State α} (h : (system cap).Reachable s) :
    ∃ w : Logged α, (logged cap).Reachable w ∧ w.state = s := by
  change ∃ w, (logged cap).Reaches System.Anything (logged cap).init w ∧ w.state = s
  refine System.Reaches.simulation (R := fun s (w : Logged α) => w.state = s) ?_ h rfl
  rintro s a t w rfl - hstep
  have hrecord : (logged cap).step w a = some ⟨t, w.log ++ visible w.state a t⟩ :=
    Option.map_eq_some_iff.mpr ⟨t, hstep, rfl⟩
  exact ⟨_, System.Reaches.single trivial hrecord, rfl⟩

def SendAt (f : Option (SendFuture α)) (p : Phase (Request α) (Response α)) : Prop :=
  match f with
  | none => p = .idle
  | some f =>
    match f.point with
    | .fresh => p = .idle
    | .notifying () => ∃ msg, p = .done (.send msg) .sent
    | .ready () => ∃ msg, p = .returned (.send msg) .sent
    | .panicked => False
    | _ => ∃ msg, heldBy f = some msg ∧ p = .called (.send msg)

def RecvAt (f : Option (RecvFuture α)) (p : Phase (Request α) (Response α)) : Prop :=
  match f with
  | none => p = .idle
  | some f =>
    match f.point with
    | .fresh => p = .idle
    | .notifying msg => p = .done .recv (.received (.ok msg))
    | .ready out => p = .returned .recv (.received out)
    | .panicked => False
    | _ => p = .called .recv

structure Tracked (s : State α) (phase : CallId → Phase (Request α) (Response α)) : Prop where
  sends : ∀ i : ℕ, SendAt (sendFuts s)[i]? (phase (.inl (.send i)))
  recvs : ∀ i : ℕ, RecvAt (recvFuts s)[i]? (phase (.inr (.recv i)))
  trySends : ∀ j ≥ s.history.trySends.length, phase (.inl (.trySend j)) = .idle
  tryRecvs : ∀ j ≥ s.history.tryRecvs.length, phase (.inr (.tryRecv j)) = .idle

def Explained (cap : Option ℕ) (w : Logged α) : Prop :=
  ∃ order phase, (fifo cap).Run w.log order w.state.chan.inner.queue phase ∧ Tracked w.state phase

section Steps

variable {s t : State α} {phase : CallId → Phase (Request α) (Response α)} {i : ℕ}

theorem Tracked.of_same (hs : Tracked s phase) (hsend : ∀ i, SendAt (sendFuts s)[i]? (phase (.inl (.send i))) →
      SendAt (sendFuts t)[i]? (phase (.inl (.send i))))
    (hrecv : ∀ i, RecvAt (recvFuts s)[i]? (phase (.inr (.recv i))) →
      RecvAt (recvFuts t)[i]? (phase (.inr (.recv i)))) (hh : t.history.trySends = s.history.trySends)
    (hh' : t.history.tryRecvs = s.history.tryRecvs) : Tracked t phase where
  sends i := hsend i (hs.sends i)
  recvs i := hrecv i (hs.recvs i)
  trySends j hj := hs.trySends j (hh ▸ hj)
  tryRecvs j hj := hs.tryRecvs j (hh' ▸ hj)

theorem Tracked.setSend (hs : Tracked s phase) {f g : SendFuture α}
    {p : Phase (Request α) (Response α)} (hg : (sendFuts s)[i]? = some g)
    (ht : sendFuts t = (sendFuts s).set i f) (hr : recvFuts t = recvFuts s)
    (hh : t.history.trySends = s.history.trySends) (hh' : t.history.tryRecvs = s.history.tryRecvs)
    (hp : SendAt (some f) p) : Tracked t (Function.update phase (.inl (.send i)) p) where
  sends j := by
    rw [ht, getElem?_set_some hg]
    by_cases hj : j = i
    · subst hj
      simpa using hp
    · rw [if_neg hj, Function.update_of_ne (by simpa using hj)]
      exact hs.sends j
  recvs j := by simpa [hr] using hs.recvs j
  trySends j hj := by simpa using hs.trySends j (hh ▸ hj)
  tryRecvs j hj := by simpa using hs.tryRecvs j (hh' ▸ hj)

theorem Tracked.setRecv (hs : Tracked s phase) {f g : RecvFuture α}
    {p : Phase (Request α) (Response α)} (hg : (recvFuts s)[i]? = some g)
    (ht : recvFuts t = (recvFuts s).set i f) (hr : sendFuts t = sendFuts s)
    (hh : t.history.trySends = s.history.trySends) (hh' : t.history.tryRecvs = s.history.tryRecvs)
    (hp : RecvAt (some f) p) : Tracked t (Function.update phase (.inr (.recv i)) p) where
  sends j := by simpa [hr] using hs.sends j
  recvs j := by
    rw [ht, getElem?_set_some hg]
    by_cases hj : j = i
    · subst hj
      simpa using hp
    · rw [if_neg hj, Function.update_of_ne (by simpa using hj)]
      exact hs.recvs j
  trySends j hj := by simpa using hs.trySends j (hh ▸ hj)
  tryRecvs j hj := by simpa using hs.tryRecvs j (hh' ▸ hj)

theorem Explained.quiet {cap : Option ℕ} {log : List (Seen α)} (hw : Explained cap ⟨s, log⟩)
    (hq : t.chan.inner.queue = s.chan.inner.queue)
    (ht : ∀ phase, Tracked s phase → Tracked t phase) : Explained cap ⟨t, log ++ []⟩ := by
  obtain ⟨order, phase, hr, hs⟩ := hw
  rw [List.append_nil]
  exact ⟨order, phase, hq ▸ hr, ht phase hs⟩

theorem Explained.stepSend {cap : Option ℕ} {log : List (Seen α)} (hw : Explained cap ⟨s, log⟩)
    (hi : Inv s) (hcap : s.chan.inner.cap = cap) {d : Driven (SendFuture α)} {ch : Channel α Ticket}
    {f : SendFuture α} {e : Effect α Ticket} (key : ℕ) (hd : s.sends[i]? = some d)
    (hl : d.dropped = false) (hf : d.fut.Does s.chan ⟨i, d.polls⟩ ch f e)
    (ht : t = (({ s with chan := ch }).putSend i { d with fut := f }).afterSend i e) :
    Explained cap ⟨t, log ++ visible s (.stepSend i key) t⟩ := by
  have hg : (sendFuts s)[i]? = some d.fut := by simp [sendFuts, hd]
  have hset : sendFuts t = (sendFuts s).set i f := by
    rw [ht, sendFuts_afterSend]
    exact List.map_set
  have hrecv : recvFuts t = recvFuts s := by
    rw [ht, recvFuts_afterSend]
    rfl
  have hhist : t.history.trySends = s.history.trySends ∧ t.history.tryRecvs = s.history.tryRecvs := by
    rw [ht]
    cases e <;> exact ⟨rfl, rfl⟩
  have hchan : t.chan = ch := by
    rw [ht, afterSend_chan]
    rfl
  have hget : (sendFuts t)[i]? = some f := by rw [hset, getElem?_set_some hg, if_pos rfl]
  obtain ⟨order, phase, hr, hs⟩ := hw
  have hp := hs.sends i
  rw [hg] at hp
  -- most steps neither touch the queue nor return
  have quiet : ch.inner.queue = s.chan.inner.queue → f.response = none →
      SendAt (some f) (phase (.inl (.send i))) →
      Explained cap ⟨t, log ++ visible s (.stepSend i key) t⟩ := by
    intro hq hresp hat
    refine ⟨order, phase, ?_, ?_⟩
    · simpa [visible, hget, hresp, hchan, hq] using hr
    · simpa using hs.setSend hg hset hrecv hhist.1 hhist.2 hat
  cases hf with
  | unwrap hpt hm => simp [SendAt, hpt, hm, heldBy] at hp
  | vacant hpt hm hk hrm =>
    simpa [Loaded] using (sendFuture_move hi hd hl (.vacant hpt hm hk hrm)).1
  | begin hpt hm hk => exact quiet rfl rfl (by simpa [SendAt, hpt, heldBy, hm] using hp)
  | release hpt hm hk hrm => exact quiet rfl rfl (by simpa [SendAt, hpt, heldBy, hm] using hp)
  | full hpt hfull => exact quiet rfl rfl (by simpa [SendAt, hpt, heldBy] using hp)
  | register hpt hrm => exact quiet rfl rfl (by simpa [SendAt, hpt, heldBy] using hp)
  | sleep hpt hfull => exact quiet rfl rfl (by simpa [SendAt, hpt, heldBy] using hp)
  | retry hpt hfull => exact quiet rfl rfl (by simpa [SendAt, hpt, heldBy] using hp)
  | @push msg inner hpt hfull hq hcap' hc =>
    have hcalled : phase (.inl (.send i)) = .called (.send msg) := by
      obtain ⟨m, hm, hp⟩ : ∃ m, heldBy d.fut = some m ∧ phase (.inl (.send i)) = .called (.send m) := by
        simpa [SendAt, hpt] using hp
      obtain rfl : msg = m := by simpa [heldBy, hpt] using hm
      exact hp
    have heffect := hr.effect hcalled (Fifo.send msg (hcap ▸ Crossbeam.room hfull))
    refine ⟨order ++ [(.inl (.send i), .send msg, .sent)], _, ?_,
      hs.setSend hg hset hrecv hhist.1 hhist.2 (p := .done (.send msg) .sent) ⟨msg, rfl⟩⟩
    simpa [visible, hget, SendFuture.response, hchan, hq] using heffect
  | notify hpt =>
    obtain ⟨msg, hdone⟩ : ∃ msg, phase (.inl (.send i)) = .done (.send msg) .sent := by
      simpa [SendAt, hpt] using hp
    refine ⟨order, _, ?_,
      hs.setSend hg hset hrecv hhist.1 hhist.2 (p := .returned (.send msg) .sent) ⟨msg, rfl⟩⟩
    simpa [visible, hget, SendFuture.response, hchan] using hr.ret hdone

theorem Explained.stepRecv {cap : Option ℕ} {log : List (Seen α)} (hw : Explained cap ⟨s, log⟩)
    (hi : Inv s) {d : Driven (RecvFuture α)} {ch : Channel α Ticket}
    {f : RecvFuture α} {e : Effect α Ticket} (key : ℕ) (hd : s.recvs[i]? = some d)
    (hl : d.dropped = false) (hf : d.fut.Does s.chan ⟨i, d.polls⟩ ch f e)
    (ht : t = (({ s with chan := ch }).putRecv i { d with fut := f }).afterRecv i e) :
    Explained cap ⟨t, log ++ visible s (.stepRecv i key) t⟩ := by
  have hg : (recvFuts s)[i]? = some d.fut := by simp [recvFuts, hd]
  have hset : recvFuts t = (recvFuts s).set i f := by
    rw [ht, recvFuts_afterRecv]
    exact List.map_set
  have hsend : sendFuts t = sendFuts s := by
    rw [ht, sendFuts_afterRecv]
    rfl
  have hhist : t.history.trySends = s.history.trySends ∧ t.history.tryRecvs = s.history.tryRecvs := by
    rw [ht]
    cases e <;> exact ⟨rfl, rfl⟩
  have hchan : t.chan = ch := by
    rw [ht, afterRecv_chan]
    rfl
  have hget : (recvFuts t)[i]? = some f := by rw [hset, getElem?_set_some hg, if_pos rfl]
  obtain ⟨order, phase, hr, hs⟩ := hw
  have hp := hs.recvs i
  rw [hg] at hp
  have quiet : ch.inner.queue = s.chan.inner.queue → f.response = none →
      RecvAt (some f) (phase (.inr (.recv i))) →
      Explained cap ⟨t, log ++ visible s (.stepRecv i key) t⟩ := by
    intro hq hresp hat
    refine ⟨order, phase, ?_, ?_⟩
    · simpa [visible, hget, hresp, hchan, hq] using hr
    · simpa using hs.setRecv hg hset hsend hhist.1 hhist.2 hat
  cases hf with
  | vacant hpt hk hrm =>
    simpa [Point.stage] using (recvFuture_move hi hd hl (.vacant hpt hk hrm)).1
  | begin hpt hk => exact quiet rfl rfl (by simpa [RecvAt, hpt] using hp)
  | release hpt hk hrm => exact quiet rfl rfl (by simpa [RecvAt, hpt] using hp)
  | empty hpt hq => exact quiet rfl rfl (by simpa [RecvAt, hpt] using hp)
  | register hpt hrm => exact quiet rfl rfl (by simpa [RecvAt, hpt] using hp)
  | sleep hpt hq => exact quiet rfl rfl (by simpa [RecvAt, hpt] using hp)
  | retry hpt hq => exact quiet rfl rfl (by simpa [RecvAt, hpt] using hp)
  | @pop msg inner hpt hq hcap hc =>
    have hcalled : phase (.inr (.recv i)) = .called .recv := by simpa [RecvAt, hpt] using hp
    have heffect := (hq ▸ hr).effect hcalled (Fifo.recv msg inner.queue)
    refine ⟨order ++ [(.inr (.recv i), .recv, .received (.ok msg))], _, ?_,
      hs.setRecv hg hset hsend hhist.1 hhist.2 (p := .done .recv (.received (.ok msg))) rfl⟩
    simpa [visible, hget, RecvFuture.response, hchan] using heffect
  | @notify msg hpt =>
    have hdone : phase (.inr (.recv i)) = .done .recv (.received (.ok msg)) := by
      simpa [RecvAt, hpt] using hp
    refine ⟨order, _, ?_,
      hs.setRecv hg hset hsend hhist.1 hhist.2 (p := .returned .recv (.received (.ok msg))) rfl⟩
    simpa [visible, hget, RecvFuture.response, hchan] using hr.ret hdone

theorem Explained.trySend {cap : Option ℕ} {log : List (Seen α)} (hw : Explained cap ⟨s, log⟩)
    {msg : α} {handle : ℕ} {out : Except (TrySendError α) Unit} (hout : (s.chan.trySend msg).2 = out)
    (hn : Fifo cap s.chan.inner.queue (.trySend msg) (.trySent out) t.chan.inner.queue)
    (ht : sendFuts t = sendFuts s) (hr : recvFuts t = recvFuts s)
    (hh : t.history.trySends.length = s.history.trySends.length + 1)
    (hh' : t.history.tryRecvs = s.history.tryRecvs) :
    Explained cap ⟨t, log ++ visible s (.trySend handle msg) t⟩ := by
  simp only [visible, hout]
  obtain ⟨order, phase, hrun, hs⟩ := hw
  refine ⟨_, _, hrun.atOnce (hs.trySends _ (Nat.le_refl _)) hn, ?_⟩
  constructor
  case sends => simpa [ht] using hs.sends
  case recvs => simpa [hr] using hs.recvs
  case tryRecvs => simpa [hh'] using hs.tryRecvs
  case trySends =>
    intro j hj
    rw [hh] at hj
    rw [Function.update_of_ne (by simp; omega)]
    exact hs.trySends j (Nat.le_of_succ_le hj)

theorem Explained.tryRecv {cap : Option ℕ} {log : List (Seen α)} (hw : Explained cap ⟨s, log⟩)
    {handle : ℕ} {out : Except TryRecvError α} (hout : s.chan.tryRecv.2 = out)
    (hn : Fifo cap s.chan.inner.queue .tryRecv (.tryReceived out) t.chan.inner.queue)
    (ht : sendFuts t = sendFuts s) (hr : recvFuts t = recvFuts s)
    (hh : t.history.trySends = s.history.trySends)
    (hh' : t.history.tryRecvs.length = s.history.tryRecvs.length + 1) :
    Explained cap ⟨t, log ++ visible s (.tryRecv handle) t⟩ := by
  simp only [visible, hout]
  obtain ⟨order, phase, hrun, hs⟩ := hw
  refine ⟨_, _, hrun.atOnce (hs.tryRecvs _ (Nat.le_refl _)) hn, ?_⟩
  constructor
  case sends => simpa [ht] using hs.sends
  case recvs => simpa [hr] using hs.recvs
  case trySends => simpa [hh] using hs.trySends
  case tryRecvs =>
    intro j hj
    rw [hh'] at hj
    rw [Function.update_of_ne (by simp; omega)]
    exact hs.tryRecvs j (Nat.le_of_succ_le hj)

theorem Explained.pollSend {cap : Option ℕ} {log : List (Seen α)} (hw : Explained cap ⟨s, log⟩)
    (hi : Inv s) {d : Driven (SendFuture α)} (hd : s.sends[i]? = some d)
    (hp : d.fut.point = .fresh ∨ d.fut.point = .pending) (ht : t = s.putSend i
      { d with fut := { d.fut with point := .start }, polls := d.polls + 1, woken := false }) :
    Explained cap ⟨t, log ++ visible s (.pollSend i) t⟩ := by
  have hg : (sendFuts s)[i]? = some d.fut := by simp [sendFuts, hd]
  have hset : sendFuts t = (sendFuts s).set i { d.fut with point := .start } := by
    rw [ht]
    exact List.map_set
  have hrest : recvFuts t = recvFuts s ∧ t.history = s.history ∧ t.chan = s.chan := by
    rw [ht]
    exact ⟨rfl, rfl, rfl⟩
  obtain ⟨hrecv, hh, hchan⟩ := hrest
  obtain ⟨order, phase, hr, hs⟩ := hw
  have hat := hs.sends i
  rw [hg] at hat
  rcases hp with hp | hp
  · have hidle : phase (.inl (.send i)) = .idle := by simpa [SendAt, hp] using hat
    obtain ⟨msg, hmsg⟩ : ∃ msg, d.fut.msg = some msg := by
      simpa [Loaded, hp, Option.isSome_iff_exists] using hi.loaded d (List.mem_of_getElem? hd)
    refine ⟨order, _, ?_, hs.setSend hg hset hrecv (by rw [hh]) (by rw [hh])
      (p := .called (.send msg)) ⟨msg, by simp [heldBy, hmsg], rfl⟩⟩
    simpa [visible, hg, SendFuture.request, hp, hmsg, hchan] using hr.call (.send msg) hidle
  · have hcalled : SendAt (some { d.fut with point := .start }) (phase (.inl (.send i))) := by
      simpa [SendAt, hp, heldBy] using hat
    refine ⟨order, phase, ?_, ?_⟩
    · simpa [visible, hg, SendFuture.request, hp, hchan] using hr
    · simpa using hs.setSend hg hset hrecv (by rw [hh]) (by rw [hh]) hcalled

theorem Explained.pollRecv {cap : Option ℕ} {log : List (Seen α)} (hw : Explained cap ⟨s, log⟩)
    {d : Driven (RecvFuture α)} (hd : s.recvs[i]? = some d)
    (hp : d.fut.point = .fresh ∨ d.fut.point = .pending) (ht : t = s.putRecv i
      { d with fut := { d.fut with point := .start }, polls := d.polls + 1, woken := false }) :
    Explained cap ⟨t, log ++ visible s (.pollRecv i) t⟩ := by
  have hg : (recvFuts s)[i]? = some d.fut := by simp [recvFuts, hd]
  have hset : recvFuts t = (recvFuts s).set i { d.fut with point := .start } := by
    rw [ht]
    exact List.map_set
  have hrest : sendFuts t = sendFuts s ∧ t.history = s.history ∧ t.chan = s.chan := by
    rw [ht]
    exact ⟨rfl, rfl, rfl⟩
  obtain ⟨hsend, hh, hchan⟩ := hrest
  obtain ⟨order, phase, hr, hs⟩ := hw
  have hat := hs.recvs i
  rw [hg] at hat
  rcases hp with hp | hp
  · have hidle : phase (.inr (.recv i)) = .idle := by simpa [RecvAt, hp] using hat
    refine ⟨order, _, ?_, hs.setRecv hg hset hsend (by rw [hh]) (by rw [hh]) (p := .called .recv) rfl⟩
    simpa [visible, hg, RecvFuture.request, hp, hchan] using hr.call .recv hidle
  · have hcalled : RecvAt (some { d.fut with point := .start }) (phase (.inr (.recv i))) := by
      simpa [RecvAt, hp] using hat
    refine ⟨order, phase, ?_, ?_⟩
    · simpa [visible, hg, RecvFuture.request, hp, hchan] using hr
    · simpa using hs.setRecv hg hset hsend (by rw [hh]) (by rw [hh]) hcalled

theorem Explained.step {cap : Option ℕ} {log : List (Seen α)} {a : Act α}
    (hw : Explained cap ⟨s, log⟩) (hi : Inv s) (hcap : s.chan.inner.cap = cap) (h : Does s a t) :
    Explained cap ⟨t, log ++ visible s a t⟩ := by
  cases h with
  | @send handle msg hh =>
    refine hw.quiet rfl fun phase hs => hs.of_same (fun i hat => ?_) (fun _ hat => hat) rfl rfl
    simp only [sendFuts, List.map_append, List.map_cons, List.map_nil, getElem?_concat] at hat ⊢
    split
    next hj => simpa [hj, SendAt, Driven.new, SendFuture.new] using hat
    next => exact hat
  | recv hh =>
    refine hw.quiet rfl fun phase hs => hs.of_same (fun _ hat => hat) (fun i hat => ?_) rfl rfl
    simp only [recvFuts, List.map_append, List.map_cons, List.map_nil, getElem?_concat] at hat ⊢
    split
    next hj => simpa [hj, RecvAt, Driven.new, RecvFuture.new] using hat
    next => exact hat
  | pollSend hd hl hp => exact hw.pollSend hi hd hp rfl
  | pollRecv hd hl hp => exact hw.pollRecv hd hp rfl
  | stepSend hd hl hf => exact hw.stepSend hi hcap _ hd hl hf rfl
  | stepRecv hd hl hf => exact hw.stepRecv hi _ hd hl hf rfl
  | @dropSend i d hd hl hp =>
    refine hw.quiet rfl fun phase hs => hs.of_same (fun j hat => ?_) (fun _ hat => hat) rfl rfl
    have hfuts : sendFuts (s.putSend i { d with dropped := true }) = sendFuts s := set_futs hd rfl
    rwa [hfuts]
  | @dropRecv i d hd hl hp =>
    refine hw.quiet rfl fun phase hs => hs.of_same (fun _ hat => hat) (fun j hat => ?_) rfl rfl
    have hfuts : recvFuts (s.putRecv i { d with dropped := true }) = recvFuts s := set_futs hd rfl
    rwa [hfuts]
  | @trySendOk handle msg inner hh hfull hq hcap' hc =>
    rcases Crossbeam.trySend_cases hi.connected msg with ⟨hf, -⟩ | ⟨-, c, hr, -⟩
    · simp [hf] at hfull
    · refine hw.trySend (by rw [Channel.trySend, hr]) ?_ rfl rfl (by simp) rfl
      simpa [hq] using Fifo.trySend msg (hcap ▸ Crossbeam.room hfull)
  | @trySendFull handle msg hh hfull =>
    rcases Crossbeam.trySend_cases hi.connected msg with ⟨-, hr⟩ | ⟨hf, -⟩
    · refine hw.trySend (by rw [Channel.trySend, hr]) (Fifo.full msg ?_) rfl rfl (by simp) rfl
      simpa [Crossbeam.isFull, hcap] using hfull
    · simp [hf] at hfull
  | @tryRecvOk handle msg inner hh hq hcap' hc =>
    rcases Crossbeam.tryRecv_cases hi.connected with ⟨he, -⟩ | ⟨m, c, hr, hq', -⟩
    · simp [he] at hq
    · obtain ⟨rfl, -⟩ : m = msg ∧ c.queue = inner.queue := by simpa [hq] using hq'.symm
      refine hw.tryRecv (by rw [Channel.tryRecv, hr]) ?_ rfl rfl rfl (by simp)
      simpa [hq] using Fifo.tryRecv m inner.queue
  | @tryRecvEmpty handle hh hq =>
    rcases Crossbeam.tryRecv_cases hi.connected with ⟨-, hr⟩ | ⟨m, c, -, hq', -⟩
    · refine hw.tryRecv (by rw [Channel.tryRecv, hr]) ?_ rfl rfl rfl (by simp)
      simpa [hq] using Fifo.empty
    · simp [hq] at hq'
  | _ => exact hw.quiet rfl fun phase hs => hs.of_same (fun _ hat => hat) (fun _ hat => hat) rfl rfl

end Steps

def DropsRest (s : State α) : Prop :=
  (∀ d ∈ s.sends, d.dropped = true → d.fut.point = .fresh ∨ d.fut.point = .pending) ∧
  ∀ d ∈ s.recvs, d.dropped = true → d.fut.point = .fresh ∨ d.fut.point = .pending

theorem rests_of_stage {τ ν ρ : Type} {p : Point τ ν ρ} (h : p.stage = .fresh ∨ p.stage = .pending) :
    p = .fresh ∨ p = .pending := by
  cases p <;> simp_all [Point.stage]

section Drops

variable {s t : State α} {i : ℕ}

theorem DropsRest.putSend (hs : DropsRest s) {d : Driven (SendFuture α)}
    (hd : d.dropped = true → d.fut.point = .fresh ∨ d.fut.point = .pending) :
    DropsRest (s.putSend i d) := by
  refine ⟨fun x hx => ?_, hs.2⟩
  rcases List.mem_or_eq_of_mem_set hx with hx | rfl
  · exact hs.1 x hx
  · exact hd

theorem DropsRest.putRecv (hs : DropsRest s) {d : Driven (RecvFuture α)}
    (hd : d.dropped = true → d.fut.point = .fresh ∨ d.fut.point = .pending) :
    DropsRest (s.putRecv i d) := by
  refine ⟨hs.1, fun x hx => ?_⟩
  rcases List.mem_or_eq_of_mem_set hx with hx | rfl
  · exact hs.2 x hx
  · exact hd

theorem DropsRest.afterSend (hs : DropsRest s) (e : Effect α Ticket) : DropsRest (s.afterSend i e) := by
  refine ⟨by simpa using hs.1, fun x hx hdrop => ?_⟩
  obtain ⟨y, hy, hfut, hd⟩ := mem_afterSend_recvs hx
  exact hfut ▸ hs.2 y hy (hd ▸ hdrop)

theorem DropsRest.afterRecv (hs : DropsRest s) (e : Effect α Ticket) : DropsRest (s.afterRecv i e) := by
  refine ⟨fun x hx hdrop => ?_, by simpa using hs.2⟩
  obtain ⟨y, hy, hfut, hd⟩ := mem_afterRecv_sends hx
  exact hfut ▸ hs.1 y hy (hd ▸ hdrop)

theorem DropsRest.step {a : Act α} (hs : DropsRest s) (h : Does s a t) : DropsRest t := by
  cases h with
  | send hh =>
    refine ⟨fun x hx => ?_, hs.2⟩
    rcases List.mem_append.mp hx with hx | hx
    · exact hs.1 x hx
    · rw [List.mem_singleton.mp hx]
      exact fun _ => .inl rfl
  | recv hh =>
    refine ⟨hs.1, fun x hx => ?_⟩
    rcases List.mem_append.mp hx with hx | hx
    · exact hs.2 x hx
    · rw [List.mem_singleton.mp hx]
      exact fun _ => .inl rfl
  | pollSend hd hl hp => exact hs.putSend (by simp [hl])
  | pollRecv hd hl hp => exact hs.putRecv (by simp [hl])
  | @stepSend i key d ch f e hd hl hf =>
    have hmid : DropsRest { s with chan := ch } := hs
    exact (hmid.putSend (by simp [hl])).afterSend e
  | @stepRecv i key d ch f e hd hl hf =>
    have hmid : DropsRest { s with chan := ch } := hs
    exact (hmid.putRecv (by simp [hl])).afterRecv e
  | dropSend hd hl hp => exact hs.putSend fun _ => rests_of_stage hp
  | dropRecv hd hl hp => exact hs.putRecv fun _ => rests_of_stage hp
  | _ => exact hs

end Drops

theorem reaches_explained {cap : Option ℕ} {ok : Logged α → Act α → Prop} {w : Logged α}
    (h : (logged cap).ReachableBy ok w) :
    Inv w.state ∧ w.state.chan.inner.cap = cap ∧ DropsRest w.state ∧ Explained cap w := by
  refine h.invariant
    (I := fun w => Inv w.state ∧ w.state.chan.inner.cap = cap ∧ DropsRest w.state ∧ Explained cap w)
    ⟨inv_start cap, by cases cap <;> rfl, by simp [logged, start, DropsRest], [], fun _ => .idle, ?_, ?_⟩
    ?_
  · cases cap <;> exact Spec.Run.init
  · constructor <;> intros <;> simp [logged, start, SendAt, RecvAt, sendFuts, recvFuts]
  · rintro w a v ⟨hi, hcap, hrests, hw⟩ - hstep
    obtain ⟨hstep, hlog⟩ := record_eq_some hstep
    have hdoes := step_does hi.connected hstep
    have hv : Explained cap ⟨v.state, v.log⟩ := hlog ▸ hw.step hi hcap hdoes
    exact ⟨step_inv hi hstep, (hdoes.cap hi).trans hcap, hrests.step hdoes, hv⟩

/-- Whatever the callers of a channel have seen so far, one order of their operations on a plain
bounded queue explains it. That queue holds what the channel holds, and no operation whose future
was dropped is in the order. -/
theorem linearizable (cap : Option ℕ) (w : Logged α) (h : (logged cap).Reachable w) :
    ∃ order, (fifo cap).Linearizes w.log order ∧
      (fifo cap).Legal (order.map Prod.snd) w.state.chan.inner.queue ∧
      (∀ (i : ℕ) (d : Driven (SendFuture α)), w.state.sends[i]? = some d →
        (d.fut.point = .ready () → .ret (.inl (.send i)) .sent ∈ w.log) ∧
        (d.dropped = true → .inl (.send i) ∉ order.map Prod.fst)) ∧
      ∀ (i : ℕ) (d : Driven (RecvFuture α)), w.state.recvs[i]? = some d →
        (∀ out, d.fut.point = .ready out → .ret (.inr (.recv i)) (.received out) ∈ w.log) ∧
        (d.dropped = true → .inr (.recv i) ∉ order.map Prod.fst) := by
  obtain ⟨-, -, hrests, order, phase, hr, hs⟩ := reaches_explained h
  refine ⟨order, hr.linearizes, hr.legal, fun i d hd => ?_, fun i d hd => ?_⟩
  · have hat := hs.sends i
    rw [show (sendFuts w.state)[i]? = some d.fut by simp [sendFuts, hd]] at hat
    refine ⟨fun hp => ?_, fun hdrop hm => ?_⟩
    · obtain ⟨msg, hphase⟩ : ∃ msg, phase (.inl (.send i)) = .returned (.send msg) .sent := by
        simpa [SendAt, hp] using hat
      exact hr.mem_history.mpr (by simp [Event.id, hphase, Phase.events])
    · obtain ⟨n, hn⟩ := List.getElem?_of_mem hm
      refine hr.not_ordered ?_ hn
      rcases hrests.1 d (List.mem_of_getElem? hd) hdrop with hp | hp
      · rw [show phase (.inl (.send i)) = .idle by simpa [SendAt, hp] using hat]
        rfl
      · obtain ⟨msg, -, hphase⟩ : ∃ msg, heldBy d.fut = some msg ∧
            phase (.inl (.send i)) = .called (.send msg) := by simpa [SendAt, hp] using hat
        rw [hphase]
        rfl
  · have hat := hs.recvs i
    rw [show (recvFuts w.state)[i]? = some d.fut by simp [recvFuts, hd]] at hat
    refine ⟨fun out hp => ?_, fun hdrop hm => ?_⟩
    · have hphase : phase (.inr (.recv i)) = .returned .recv (.received out) := by
        simpa [RecvAt, hp] using hat
      exact hr.mem_history.mpr (by simp [Event.id, hphase, Phase.events])
    · obtain ⟨n, hn⟩ := List.getElem?_of_mem hm
      refine hr.not_ordered ?_ hn
      rcases hrests.2 d (List.mem_of_getElem? hd) hdrop with hp | hp
      · rw [show phase (.inr (.recv i)) = .idle by simpa [RecvAt, hp] using hat]
        rfl
      · rw [show phase (.inr (.recv i)) = .called .recv by simpa [RecvAt, hp] using hat]
        rfl

theorem linearizable_run : ∃ w : Logged ℕ,
    w.log = [.call (.inl (.send 0)) (.send 7), .call (.inl (.send 1)) (.send 8),
      .ret (.inl (.send 0)) .sent, .call (.inr (.recv 0)) .recv,
      .ret (.inr (.recv 0)) (.received (.ok 7))] ∧
    ∃ order, (fifo (some 1)).Linearizes w.log order :=
  have h := System.exec_get (logged (α := ℕ) (some 1)) (fun _ _ => true) (logged (some 1)).init
    [.send 0 7, .send 0 8, .recv 0,
    .pollSend 0, .stepSend 0 0, .stepSend 0 0, .pollSend 1, .stepSend 1 0, .stepSend 1 0,
    .stepSend 1 0, .stepSend 1 0, .dropSend 1, .stepSend 0 0,
    .pollRecv 0, .stepRecv 0 0, .stepRecv 0 0, .stepRecv 0 0] rfl
  ⟨_, rfl, (linearizable _ _ (System.ReachableBy.reachable h)).imp fun _ ho => ho.1⟩

end ChannelSystem

end ChannelExecutor
