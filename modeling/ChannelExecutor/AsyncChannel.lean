import ChannelExecutor.Crossbeam
import ChannelExecutor.Lib.WaitSet

/-!
`async_channel`: a crossbeam channel with two sets of wakers. A `poll` is cut into the atomic
steps it makes on the shared channel; between two of them any other task may run.
-/

set_option autoImplicit false

namespace ChannelExecutor

open Lib (Slab Stage)

variable {α ω : Type}

/-- The slab is behind a `parking_lot::Mutex`, held through all of `insert`, `remove` and `notify`, the
wake of the latter included: each of them is one atomic step here, and waiting for the mutex is none. -/
structure WakerSet (ω : Type) where
  slab : Slab (Option ω)

namespace WakerSet

def new : WakerSet ω := ⟨.empty⟩

def insert (s : WakerSet ω) (key : ℕ) (w : ω) : Option (WakerSet ω) :=
  -- `key` is the vacant key that the slab hands out
  (s.slab.insert key (some w)).map WakerSet.mk

def cancel (s : WakerSet ω) (_key : ℕ) : WakerSet ω := s

def remove (s : WakerSet ω) (key : ℕ) : Option (WakerSet ω) := (s.slab.remove key).map WakerSet.mk

def notify (s : WakerSet ω) : WakerSet ω × Option ω := (⟨s.slab.takeFirst.1⟩, s.slab.takeFirst.2)

end WakerSet

/-- `sender` and `receiver` are the two handles of one crossbeam channel, held here as `inner`. -/
structure Channel (α ω : Type) where
  inner : Crossbeam α
  senderCount : ℕ
  receiverCount : ℕ
  sendWakers : WakerSet ω
  recvWakers : WakerSet ω

def isizeMax : ℕ := 2 ^ 63 - 1

namespace Channel

def new : Channel α ω := ⟨.unbounded, 1, 1, .new, .new⟩

def withCapacity (cap : ℕ) : Channel α ω := ⟨.bounded cap, 1, 1, .new, .new⟩

def trySend (ch : Channel α ω) (msg : α) : Channel α ω × Except (TrySendError α) Unit :=
  ({ ch with inner := (ch.inner.trySend msg).1 }, (ch.inner.trySend msg).2)

def tryRecv (ch : Channel α ω) : Channel α ω × Except TryRecvError α :=
  ({ ch with inner := ch.inner.tryRecv.1 }, ch.inner.tryRecv.2)

def capacity (ch : Channel α ω) : Option ℕ := ch.inner.capacity

def isEmpty (ch : Channel α ω) : Bool := ch.inner.isEmpty

def isFull (ch : Channel α ω) : Bool := ch.inner.isFull

def len (ch : Channel α ω) : ℕ := ch.inner.len

def isDisconnected (_ : Channel α ω) : Bool := false

def disconnect (ch : Channel α ω) : Channel α ω := ch

/-- `Sender::clone`; `none` when the guard on the count aborts the process. -/
def cloneSender (ch : Channel α ω) : Option (Channel α ω) :=
  if ch.senderCount > isizeMax then none else some { ch with senderCount := ch.senderCount + 1 }

def cloneReceiver (ch : Channel α ω) : Option (Channel α ω) :=
  if ch.receiverCount > isizeMax then none
  else some { ch with receiverCount := ch.receiverCount + 1 }

/-- `Drop for Sender`; `Receiver` has no `Drop`. -/
def dropSender (ch : Channel α ω) : Channel α ω :=
  let ch' := { ch with senderCount := ch.senderCount - 1 }
  if ch.senderCount = 1 then ch'.disconnect else ch'

end Channel

/-- Where a future stands in `poll`, with the local values it holds there: `τ` on the way to the
try, `ν` on the way to the notify, `ρ` once `Poll::Ready` was returned. -/
inductive Point (τ ν ρ : Type)
  | fresh
  | start
  | trying (held : τ)
  | inserting
  | checking
  | notifying (held : ν)
  | pending
  | ready (out : ρ)
  | panicked
  deriving DecidableEq, Repr

def Point.stage {τ ν ρ : Type} : Point τ ν ρ → Stage
  | .fresh => .fresh
  | .start => .start
  | .trying _ => .trying
  | .inserting => .inserting
  | .checking => .checking
  | .notifying _ => .notifying
  | .pending => .pending
  | .ready _ => .ready
  | .panicked => .panicked

inductive Effect (α ω : Type)
  | quiet
  | pushed (msg : α)
  | popped (msg : α)
  | notified (woken : Option ω)

structure SendFuture (α : Type) where
  msg : Option α
  optKey : Option ℕ
  point : Point α Unit Unit
  deriving DecidableEq, Repr

structure RecvFuture (α : Type) where
  optKey : Option ℕ
  point : Point Unit α (Except RecvError α)

namespace SendFuture

def new (msg : α) : SendFuture α := ⟨some msg, none, .fresh⟩

def poll (f : SendFuture α) : Option (SendFuture α) :=
  match f.point with
  | .fresh | .pending => some { f with point := .start }
  | _ => none

/-- The next atomic step of a `poll` in progress; `cx` is the waker of this poll. -/
def step (ch : Channel α ω) (f : SendFuture α) (cx : ω) (key : ℕ) :
    Option (Channel α ω × SendFuture α × Effect α ω) :=
  match f.point with
  | .start =>
    match f.msg, f.optKey with
    -- `self.msg.take().unwrap()`
    | none, _ => some (ch, { f with point := .panicked }, .quiet)
    | some msg, none => some (ch, { f with msg := none, point := .trying msg }, .quiet)
    | some msg, some k =>
      match ch.sendWakers.remove k with
      | none => some (ch, ⟨none, none, .panicked⟩, .quiet)
      | some ws => some ({ ch with sendWakers := ws }, ⟨none, none, .trying msg⟩, .quiet)
  | .trying msg =>
    match ch.trySend msg with
    | (ch', .ok ()) => some (ch', { f with point := .notifying () }, .pushed msg)
    | (ch', .error (.disconnected msg)) =>
      some (ch', { f with msg := some msg, point := .pending }, .quiet)
    | (ch', .error (.full msg)) => some (ch', { f with msg := some msg, point := .inserting }, .quiet)
  | .inserting =>
    (ch.sendWakers.insert key cx).map fun ws =>
      ({ ch with sendWakers := ws }, { f with optKey := some key, point := .checking }, .quiet)
  | .checking =>
    if ch.isFull && !ch.isDisconnected then some (ch, { f with point := .pending }, .quiet)
    else some (ch, { f with point := .start }, .quiet)
  | .notifying () =>
    some ({ ch with recvWakers := ch.recvWakers.notify.1 }, { f with point := .ready () },
      .notified ch.recvWakers.notify.2)
  | _ => none

def drop (ch : Channel α ω) (f : SendFuture α) : Channel α ω :=
  match f.optKey with
  | some key => { ch with sendWakers := ch.sendWakers.cancel key }
  | none => ch

end SendFuture

namespace RecvFuture

def new : RecvFuture α := ⟨none, .fresh⟩

def poll (f : RecvFuture α) : Option (RecvFuture α) :=
  match f.point with
  | .fresh | .pending => some { f with point := .start }
  | _ => none

def step (ch : Channel α ω) (f : RecvFuture α) (cx : ω) (key : ℕ) :
    Option (Channel α ω × RecvFuture α × Effect α ω) :=
  match f.point with
  | .start =>
    match f.optKey with
    | none => some (ch, { f with point := .trying () }, .quiet)
    | some k =>
      match ch.recvWakers.remove k with
      | none => some (ch, ⟨none, .panicked⟩, .quiet)
      | some ws => some ({ ch with recvWakers := ws }, ⟨none, .trying ()⟩, .quiet)
  | .trying () =>
    match ch.tryRecv with
    | (ch', .ok msg) => some (ch', { f with point := .notifying msg }, .popped msg)
    | (ch', .error .disconnected) =>
      some (ch', { f with point := .ready (.error .recvError) }, .quiet)
    | (ch', .error .empty) => some (ch', { f with point := .inserting }, .quiet)
  | .inserting =>
    (ch.recvWakers.insert key cx).map fun ws =>
      ({ ch with recvWakers := ws }, { f with optKey := some key, point := .checking }, .quiet)
  | .checking =>
    if ch.isEmpty && !ch.isDisconnected then some (ch, { f with point := .pending }, .quiet)
    else some (ch, { f with point := .start }, .quiet)
  | .notifying msg =>
    some ({ ch with sendWakers := ch.sendWakers.notify.1 }, { f with point := .ready (.ok msg) },
      .notified ch.sendWakers.notify.2)
  | _ => none

def drop (ch : Channel α ω) (f : RecvFuture α) : Channel α ω :=
  match f.optKey with
  | some key => { ch with recvWakers := ch.recvWakers.cancel key }
  | none => ch

end RecvFuture

inductive SendFuture.Does (ch : Channel α ω) (f : SendFuture α) (cx : ω) :
    Channel α ω → SendFuture α → Effect α ω → Prop
  | unwrap (hp : f.point = .start) (hm : f.msg = none) :
      Does ch f cx ch { f with point := .panicked } .quiet
  | begin {msg} (hp : f.point = .start) (hm : f.msg = some msg) (hk : f.optKey = none) :
      Does ch f cx ch { f with msg := none, point := .trying msg } .quiet
  | release {msg k slab} (hp : f.point = .start) (hm : f.msg = some msg) (hk : f.optKey = some k)
      (hr : ch.sendWakers.slab.remove k = some slab) :
      Does ch f cx { ch with sendWakers := ⟨slab⟩ } ⟨none, none, .trying msg⟩ .quiet
  | vacant {msg k} (hp : f.point = .start) (hm : f.msg = some msg) (hk : f.optKey = some k)
      (hr : ch.sendWakers.slab.remove k = none) : Does ch f cx ch ⟨none, none, .panicked⟩ .quiet
  | push {msg inner} (hp : f.point = .trying msg) (hfull : ch.inner.isFull = false)
      (hq : inner.queue = ch.inner.queue ++ [msg]) (hcap : inner.cap = ch.inner.cap)
      (hc : inner.Connected) :
      Does ch f cx { ch with inner := inner } { f with point := .notifying () } (.pushed msg)
  | full {msg} (hp : f.point = .trying msg) (hfull : ch.inner.isFull = true) :
      Does ch f cx ch { f with msg := some msg, point := .inserting } .quiet
  | register {key slab} (hp : f.point = .inserting)
      (hr : ch.sendWakers.slab.insert key (some cx) = some slab) :
      Does ch f cx { ch with sendWakers := ⟨slab⟩ }
        { f with optKey := some key, point := .checking } .quiet
  | sleep (hp : f.point = .checking) (hfull : ch.inner.isFull = true) :
      Does ch f cx ch { f with point := .pending } .quiet
  | retry (hp : f.point = .checking) (hfull : ch.inner.isFull = false) :
      Does ch f cx ch { f with point := .start } .quiet
  | notify (hp : f.point = .notifying ()) :
      Does ch f cx { ch with recvWakers := ⟨ch.recvWakers.slab.takeFirst.1⟩ }
        { f with point := .ready () } (.notified ch.recvWakers.slab.takeFirst.2)

theorem SendFuture.step_does {ch ch' : Channel α ω} {f f' : SendFuture α} {cx : ω} {key : ℕ}
    {e : Effect α ω} (hc : ch.inner.Connected) (h : f.step ch cx key = some (ch', f', e)) :
    f.Does ch cx ch' f' e := by
  obtain ⟨msg, optKey, point⟩ := f
  cases point with
  | start =>
    cases msg with
    | none =>
      simp only [step] at h
      cases h
      exact .unwrap rfl rfl
    | some msg =>
      cases optKey with
      | none =>
        simp only [step] at h
        cases h
        exact .begin rfl rfl rfl
      | some k =>
        cases hr : ch.sendWakers.slab.remove k with
        | none =>
          simp only [step, WakerSet.remove, hr] at h
          cases h
          exact .vacant rfl rfl rfl hr
        | some slab =>
          simp only [step, WakerSet.remove, hr] at h
          cases h
          exact .release rfl rfl rfl hr
  | trying held =>
    rcases Crossbeam.trySend_cases hc held with ⟨hfull, hr⟩ | ⟨hfull, inner, hr, hq, hcap, hc'⟩
    · simp only [step, Channel.trySend, hr] at h
      cases h
      exact .full rfl hfull
    · simp only [step, Channel.trySend, hr] at h
      cases h
      exact .push rfl hfull hq hcap hc'
  | inserting =>
    obtain ⟨ws, hws, heq⟩ := Option.map_eq_some_iff.mp h
    obtain ⟨slab, hslab, rfl⟩ := Option.map_eq_some_iff.mp hws
    cases heq
    exact .register rfl hslab
  | checking =>
    cases hfull : ch.inner.isFull with
    | true =>
      simp only [step, Channel.isFull, Channel.isDisconnected, hfull] at h
      cases h
      exact .sleep rfl hfull
    | false =>
      simp only [step, Channel.isFull, Channel.isDisconnected, hfull] at h
      cases h
      exact .retry rfl hfull
  | notifying held =>
    simp only [step, WakerSet.notify] at h
    cases h
    exact .notify rfl
  | fresh => simp [step] at h
  | pending => simp [step] at h
  | ready => simp [step] at h
  | panicked => simp [step] at h

inductive RecvFuture.Does (ch : Channel α ω) (f : RecvFuture α) (cx : ω) :
    Channel α ω → RecvFuture α → Effect α ω → Prop
  | begin (hp : f.point = .start) (hk : f.optKey = none) :
      Does ch f cx ch { f with point := .trying () } .quiet
  | release {k slab} (hp : f.point = .start) (hk : f.optKey = some k)
      (hr : ch.recvWakers.slab.remove k = some slab) :
      Does ch f cx { ch with recvWakers := ⟨slab⟩ } ⟨none, .trying ()⟩ .quiet
  | vacant {k} (hp : f.point = .start) (hk : f.optKey = some k)
      (hr : ch.recvWakers.slab.remove k = none) : Does ch f cx ch ⟨none, .panicked⟩ .quiet
  | pop {msg inner} (hp : f.point = .trying ()) (hq : ch.inner.queue = msg :: inner.queue)
      (hcap : inner.cap = ch.inner.cap) (hc : inner.Connected) :
      Does ch f cx { ch with inner := inner } { f with point := .notifying msg } (.popped msg)
  | empty (hp : f.point = .trying ()) (hq : ch.inner.queue = []) :
      Does ch f cx ch { f with point := .inserting } .quiet
  | register {key slab} (hp : f.point = .inserting)
      (hr : ch.recvWakers.slab.insert key (some cx) = some slab) :
      Does ch f cx { ch with recvWakers := ⟨slab⟩ }
        { f with optKey := some key, point := .checking } .quiet
  | sleep (hp : f.point = .checking) (hq : ch.inner.queue = []) :
      Does ch f cx ch { f with point := .pending } .quiet
  | retry (hp : f.point = .checking) (hq : ch.inner.queue ≠ []) :
      Does ch f cx ch { f with point := .start } .quiet
  | notify {msg} (hp : f.point = .notifying msg) :
      Does ch f cx { ch with sendWakers := ⟨ch.sendWakers.slab.takeFirst.1⟩ }
        { f with point := .ready (.ok msg) } (.notified ch.sendWakers.slab.takeFirst.2)

theorem RecvFuture.step_does {ch ch' : Channel α ω} {f f' : RecvFuture α} {cx : ω} {key : ℕ}
    {e : Effect α ω} (hc : ch.inner.Connected) (h : f.step ch cx key = some (ch', f', e)) :
    f.Does ch cx ch' f' e := by
  obtain ⟨optKey, point⟩ := f
  cases point with
  | start =>
    cases optKey with
    | none =>
      simp only [step] at h
      cases h
      exact .begin rfl rfl
    | some k =>
      cases hr : ch.recvWakers.slab.remove k with
      | none =>
        simp only [step, WakerSet.remove, hr] at h
        cases h
        exact .vacant rfl rfl hr
      | some slab =>
        simp only [step, WakerSet.remove, hr] at h
        cases h
        exact .release rfl rfl hr
  | trying held =>
    rcases Crossbeam.tryRecv_cases hc with ⟨hq, hr⟩ | ⟨msg, inner, hr, hq, hcap, hc'⟩
    · simp only [step, Channel.tryRecv, hr] at h
      cases h
      exact .empty rfl hq
    · simp only [step, Channel.tryRecv, hr] at h
      cases h
      exact .pop rfl hq hcap hc'
  | inserting =>
    obtain ⟨ws, hws, heq⟩ := Option.map_eq_some_iff.mp h
    obtain ⟨slab, hslab, rfl⟩ := Option.map_eq_some_iff.mp hws
    cases heq
    exact .register rfl hslab
  | checking =>
    cases hq : ch.inner.queue.isEmpty with
    | true =>
      simp only [step, Channel.isEmpty, Crossbeam.isEmpty, Channel.isDisconnected, hq] at h
      cases h
      exact .sleep rfl (List.isEmpty_iff.mp hq)
    | false =>
      simp only [step, Channel.isEmpty, Crossbeam.isEmpty, Channel.isDisconnected, hq] at h
      cases h
      exact .retry rfl (by simpa using hq)
  | notifying held =>
    simp only [step, WakerSet.notify] at h
    cases h
    exact .notify rfl
  | fresh => simp [step] at h
  | pending => simp [step] at h
  | ready => simp [step] at h
  | panicked => simp [step] at h

end ChannelExecutor
