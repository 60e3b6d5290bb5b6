import ChannelExecutor.ChannelUse
import ChannelExecutor.Settled

/-!
The `crossbeam_async` driver over the code of `async_channel`. Each send and each receive is a future
of its channel, and the atomic steps of all polls interleave. A task may be polled at any time: the
waker that wakes it may be left over from an earlier future.
-/

set_option autoImplicit false

namespace ChannelExecutor.AsyncPipeline

open Lib (Call Net System)
open Experiment (Chan Message Op Panic Sending Forwarder Params crossbeamAsyncDriver newForwarder)
open ChannelSystem (Does DrivesSend DrivesRecv sendFuts recvFuts held received Shift Touches)

abbrev Channels := Chan → ChannelSystem.State Message

/-- Where a receive loop stands; `awaits` is the future that it awaits, once there is one. -/
inductive Loop
  | recv (awaits : Option ℕ)
  | handle (call : Sending Chan (Forwarder Chan)) (awaits : Option ℕ)
  -- the inner loop, at `r.try_recv()`
  | drain
  | over

structure Server where
  chan : Channels
  proc : Chan → Forwarder Chan
  loop : Chan → Loop
  main : List Op
  awaits : Option ℕ
  threads : List (List Chan)
  runs : ℕ

inductive Event
  | main (handle key : ℕ)
  | run
  | loop (thread handle key : ℕ)
  -- a handle is cloned or dropped
  | handle (c : Chan) (a : ChannelSystem.Act Message)

def driveSend (s : ChannelSystem.State Message) (i key : ℕ) : Option (ChannelSystem.State Message) :=
  match ChannelSystem.step s (.pollSend i) with
  | some t => some t
  | none => ChannelSystem.step s (.stepSend i key)

def driveRecv (s : ChannelSystem.State Message) (i key : ℕ) : Option (ChannelSystem.State Message) :=
  match ChannelSystem.step s (.pollRecv i) with
  | some t => some t
  | none => ChannelSystem.step s (.stepRecv i key)

def sendOutput (s : ChannelSystem.State Message) (i : ℕ) : Option Unit :=
  match (sendFuts s)[i]?.map SendFuture.point with
  | some (.ready out) => some out
  | _ => none

def recvOutput (s : ChannelSystem.State Message) (i : ℕ) : Option (Except RecvError Message) :=
  match (recvFuts s)[i]?.map RecvFuture.point with
  | some (.ready out) => some out
  | _ => none

def awaitSend {β : Type} (chan : Channels) (handle key : ℕ) (call : Sending Chan β)
    (awaits : Option ℕ) : Option (Channels × Sending Chan β × Option ℕ) :=
  match call, awaits with
  | .send dst msg rest, none =>
    (ChannelSystem.step (chan dst) (.send handle msg)).map fun s =>
      (Function.update chan dst s, .send dst msg rest, some (chan dst).sends.length)
  | .send dst msg rest, some i =>
    match sendOutput (chan dst) i with
    | some () => some (chan, rest, none)
    | none => (driveSend (chan dst) i key).map fun s =>
        (Function.update chan dst s, .send dst msg rest, some i)
  | _, _ => none

def awaitRecv (s : ChannelSystem.State Message) (handle key : ℕ) (awaits : Option ℕ) :
    Option (ChannelSystem.State Message × (ℕ ⊕ Except RecvError Message)) :=
  match awaits with
  | none => (ChannelSystem.step s (.recv handle)).map fun t => (t, .inl s.recvs.length)
  | some i =>
    match recvOutput s i with
    | some out => some (s, .inr out)
    | none => (driveRecv s i key).map fun t => (t, .inl i)

/-- No other driver of this kind detaches its sends, and neither does this one. -/
def stepMain (s : Server) (handle key : ℕ) : Option Server :=
  match s.main with
  | [] => none
  | .spawn recvs :: ops => some { s with main := ops, awaits := none, threads := s.threads ++ [recvs] }
  | .block (.done ()) :: ops => some { s with main := ops, awaits := none }
  | .block call :: ops =>
    (awaitSend s.chan handle key call s.awaits).map fun r =>
      { s with chan := r.1, main := .block r.2.1 :: ops, awaits := r.2.2 }
  | .recv c :: ops =>
    (awaitRecv (s.chan c) handle key s.awaits).map fun r =>
      match r.2 with
      | .inl i => { s with chan := Function.update s.chan c r.1, awaits := some i }
      -- `if executor::block_on(receiver.recv()).is_err() {}`
      | .inr _ => { s with chan := Function.update s.chan c r.1, main := ops, awaits := none }
  | .detach _ :: _ => none

def afterRecv (b : Forwarder Chan) : ℕ ⊕ Except RecvError Message → Loop
  | .inl i => .recv (some i)
  | .inr (.ok msg) => .handle (Experiment.AsyncForwarder.receive b msg) none
  | .inr (.error _) => .over

def afterTry (b : Forwarder Chan) : Except TryRecvError Message → Loop
  | .ok msg => .handle (Experiment.AsyncForwarder.receive b msg) none
  | .error _ => .recv none

def afterHandle : Chan → Loop
  | .concentrator => .recv none
  | _ => .drain

def stepLoop (s : Server) (c : Chan) (handle key : ℕ) : Option Server :=
  match s.loop c with
  | .recv awaits =>
    (awaitRecv (s.chan c) handle key awaits).map fun r =>
      { s with
        chan := Function.update s.chan c r.1
        loop := Function.update s.loop c (afterRecv (s.proc c) r.2) }
  | .handle (.done b) _ =>
    some { s with
      proc := Function.update s.proc c b
      loop := Function.update s.loop c (afterHandle c) }
  | .handle call awaits =>
    (awaitSend s.chan handle key call awaits).map fun r =>
      { s with chan := r.1, loop := Function.update s.loop c (.handle r.2.1 r.2.2) }
  | .drain =>
    (ChannelSystem.step (s.chan c) (.tryRecv handle)).map fun t =>
      { s with
        chan := Function.update s.chan c t
        loop := Function.update s.loop c (afterTry (s.proc c) (s.chan c).chan.tryRecv.2) }
  | .over => none

def step (k : Params) (s : Server) : Event → Option Server
  | .main handle key => stepMain s handle key
  | .run =>
    match s.main with
    | [] => some { s with
        main := crossbeamAsyncDriver.run (crossbeamAsyncDriver.setup k.pipelines k.lanes k.messages).1
        awaits := none
        runs := s.runs + 1 }
    | _ => none
  | .loop thread handle key =>
    match s.threads[thread]? with
    | some [c] => stepLoop s c handle key
    | _ => none
  | .handle c a =>
    if a.isHandle then
      (ChannelSystem.step (s.chan c) a).map fun t => { s with chan := Function.update s.chan c t }
    else none

def start (k : Params) : Server where
  chan c := ChannelSystem.start (ChannelSystem.channel (some (k.capacity c)))
  proc := newForwarder
  loop _ := .recv none
  main := (crossbeamAsyncDriver.setup k.pipelines k.lanes k.messages).2
  awaits := none
  threads := []
  runs := 0

def server (k : Params) : System Server Event := ⟨start k, step k⟩

section Channels

variable {k : Params} {chan chan' : Channels}

def Sound (k : Params) (chan : Channels) : Prop :=
  ∀ c, (ChannelSystem.system (some (k.capacity c))).Reachable (chan c)

theorem Sound.inv (h : Sound k chan) (c : Chan) : ChannelSystem.Inv (chan c) :=
  (ChannelSystem.reaches_inv (h c)).1

theorem Sound.update (h : Sound k chan) {c : Chan} {a : ChannelSystem.Act Message}
    {s : ChannelSystem.State Message} (hs : ChannelSystem.step (chan c) a = some s) :
    Sound k (Function.update chan c s) := by
  intro c'
  by_cases hc : c' = c
  · subst hc
    rw [Function.update_self]
    exact (h c').step trivial hs
  · rw [Function.update_of_ne hc]
    exact h c'

theorem Sound.does (h : Sound k chan) {c : Chan} {a : ChannelSystem.Act Message}
    {s : ChannelSystem.State Message} (hs : ChannelSystem.step (chan c) a = some s) :
    Does (chan c) a s := ChannelSystem.step_does (h.inv c).connected hs

theorem Sound.driveSend (h : Sound k chan) {c : Chan} {i key : ℕ} {s : ChannelSystem.State Message}
    (hs : AsyncPipeline.driveSend (chan c) i key = some s) :
    Sound k (Function.update chan c s) ∧ ∃ a, DrivesSend i a ∧ Does (chan c) a s := by
  unfold AsyncPipeline.driveSend at hs
  split at hs
  next t hpoll =>
    obtain rfl := Option.some.inj hs
    exact ⟨h.update hpoll, _, .poll, h.does hpoll⟩
  next => exact ⟨h.update hs, _, .step, h.does hs⟩

theorem Sound.driveRecv (h : Sound k chan) {c : Chan} {i key : ℕ} {s : ChannelSystem.State Message}
    (hs : AsyncPipeline.driveRecv (chan c) i key = some s) :
    Sound k (Function.update chan c s) ∧ ∃ a, DrivesRecv i a ∧ Does (chan c) a s := by
  unfold AsyncPipeline.driveRecv at hs
  split at hs
  next t hpoll =>
    obtain rfl := Option.some.inj hs
    exact ⟨h.update hpoll, _, .poll, h.does hpoll⟩
  next => exact ⟨h.update hs, _, .step, h.does hs⟩

/-- What `awaitSend` does: the future is made, driven without effect, driven to the point where its
message enters the queue, or it returns. -/
inductive SendStep {β : Type} (chan : Channels) :
    Sending Chan β → Option ℕ → Channels → Sending Chan β → Option ℕ → Prop
  | create {dst msg rest s handle} (hd : Does (chan dst) (.send handle msg) s)
      (hs : Shift (chan dst) s [] []) (ht : Touches (chan dst) s none none)
      (hlen : s.sends.length = (chan dst).sends.length + 1)
      (hnew : held s (.send (chan dst).sends.length) = some msg) :
      SendStep chan (.send dst msg rest) none (Function.update chan dst s) (.send dst msg rest)
        (some (chan dst).sends.length)
  | quiet {dst msg rest i s a} (hd : Does (chan dst) a s) (ha : DrivesSend i a)
      (hs : Shift (chan dst) s [] []) (ht : Touches (chan dst) s none none) :
      SendStep chan (.send dst msg rest) (some i) (Function.update chan dst s) (.send dst msg rest)
        (some i)
  | put {dst msg msg' rest i s a} (hd : Does (chan dst) a s) (ha : DrivesSend i a)
      (hmsg : held (chan dst) (.send i) = some msg')
      (hfull : (chan dst).chan.inner.isFull = false) (hs : Shift (chan dst) s [msg'] [])
      (ht : Touches (chan dst) s (some i) none) (hgone : held s (.send i) = none) :
      SendStep chan (.send dst msg rest) (some i) (Function.update chan dst s) (.send dst msg rest)
        (some i)
  | back {dst msg rest i f} (hf : (sendFuts (chan dst))[i]? = some f) (hp : f.point = .ready ())
      (hnone : held (chan dst) (.send i) = none) :
      SendStep chan (.send dst msg rest) (some i) chan rest none

theorem awaitSend_cases {β : Type} {handle key : ℕ} {call call' : Sending Chan β}
    {awaits awaits' : Option ℕ} (hc : Sound k chan)
    (h : awaitSend chan handle key call awaits = some (chan', call', awaits')) :
    Sound k chan' ∧ SendStep chan call awaits chan' call' awaits' := by
  unfold awaitSend at h
  split at h
  next dst msg rest =>
    obtain ⟨s, hs, heq⟩ := Option.map_eq_some_iff.mp h
    cases heq
    have hd := hc.does hs
    obtain ⟨hshift, htouch, hlen, hnew⟩ := hd.created_send
    exact ⟨hc.update hs, .create hd hshift htouch hlen hnew⟩
  next dst msg rest i =>
    split at h
    next hout =>
      cases h
      unfold sendOutput at hout
      split at hout
      next hpoint =>
        obtain ⟨f, hf, hp⟩ := Option.map_eq_some_iff.mp hpoint
        exact ⟨hc, .back hf hp (ChannelSystem.held_of_ready (hc.inv dst) hf hp)⟩
      next => cases hout
    next =>
      obtain ⟨s, hs, heq⟩ := Option.map_eq_some_iff.mp h
      cases heq
      obtain ⟨hsound, a, ha, hd⟩ := hc.driveSend hs
      refine ⟨hsound, ?_⟩
      cases ha.moves hd (hc.inv dst) with
      | quiet hshift htouch => exact .quiet hd ha hshift htouch
      | put msg' hmsg hfull hshift htouch hgone => exact .put hd ha hmsg hfull hshift htouch hgone
  next => cases h

inductive RecvStep (s : ChannelSystem.State Message) :
    Option ℕ → ChannelSystem.State Message → ℕ ⊕ Except RecvError Message → Prop
  | create {t handle} (hd : Does s (.recv handle) t) (hs : Shift s t [] []) (ht : Touches s t none none)
      (hlen : t.recvs.length = s.recvs.length + 1)
      (hnew : received t (.recv s.recvs.length) = none) :
      RecvStep s none t (.inl s.recvs.length)
  | quiet {i t a} (hd : Does s a t) (ha : DrivesRecv i a) (hs : Shift s t [] [])
      (ht : Touches s t none none) : RecvStep s (some i) t (.inl i)
  | got {i msg t a} (hd : Does s a t) (ha : DrivesRecv i a) (hnone : received s (.recv i) = none)
      (hs : Shift s t [] [msg]) (ht : Touches s t none (some i))
      (htaken : received t (.recv i) = some msg) : RecvStep s (some i) t (.inl i)
  | back {i msg f} (hf : (recvFuts s)[i]? = some f) (hp : f.point = .ready (.ok msg))
      (htaken : received s (.recv i) = some msg) : RecvStep s (some i) s (.inr (.ok msg))

theorem awaitRecv_cases {handle key : ℕ} {awaits : Option ℕ} {c : Chan}
    {t : ChannelSystem.State Message} {out : ℕ ⊕ Except RecvError Message} (hc : Sound k chan)
    (h : awaitRecv (chan c) handle key awaits = some (t, out)) :
    Sound k (Function.update chan c t) ∧ RecvStep (chan c) awaits t out := by
  unfold awaitRecv at h
  split at h
  next =>
    obtain ⟨s, hs, heq⟩ := Option.map_eq_some_iff.mp h
    cases heq
    have hd := hc.does hs
    obtain ⟨hshift, htouch, hlen, hnew⟩ := hd.created_recv
    exact ⟨hc.update hs, .create hd hshift htouch hlen hnew⟩
  next i =>
    split at h
    next out hout =>
      cases h
      refine ⟨by rwa [Function.update_eq_self], ?_⟩
      unfold recvOutput at hout
      split at hout
      next res hpoint =>
        obtain ⟨f, hf, hp⟩ := Option.map_eq_some_iff.mp hpoint
        obtain rfl := Option.some.inj hout
        cases res with
        | error e =>
          exact absurd hp (ChannelSystem.reaches_noError (hc c) f (List.mem_of_getElem? hf) e)
        | ok msg => exact .back hf hp (by simp [received, hf, ChannelSystem.takenBy, hp])
      next => cases hout
    next =>
      obtain ⟨s, hs, heq⟩ := Option.map_eq_some_iff.mp h
      cases heq
      obtain ⟨hsound, a, ha, hd⟩ := hc.driveRecv hs
      refine ⟨hsound, ?_⟩
      cases ha.moves hd with
      | quiet hshift htouch => exact .quiet hd ha hshift htouch
      | got msg hnone hshift htouch htaken => exact .got hd ha hnone hshift htouch htaken

end Channels

def mainAfter (c : Chan) (ops : List Op) : ℕ ⊕ Except RecvError Message → List Op × Option ℕ
  | .inl i => (.recv c :: ops, some i)
  | .inr _ => (ops, none)

inductive Moves (k : Params) (s : Server) : Event → Server → Prop
  | spawn {handle key recvs ops} (hm : s.main = .spawn recvs :: ops) :
      Moves k s (.main handle key)
        { s with main := ops, awaits := none, threads := s.threads ++ [recvs] }
  | sent {handle key ops} (hm : s.main = .block (.done ()) :: ops) :
      Moves k s (.main handle key) { s with main := ops, awaits := none }
  | send {handle key call call' ops chan' awaits'} (hm : s.main = .block call :: ops)
      (hsound : Sound k chan') (hs : SendStep s.chan call s.awaits chan' call' awaits') :
      Moves k s (.main handle key)
        { s with chan := chan', main := .block call' :: ops, awaits := awaits' }
  | recv {handle key c ops u out} (hm : s.main = .recv c :: ops)
      (hsound : Sound k (Function.update s.chan c u)) (hs : RecvStep (s.chan c) s.awaits u out) :
      Moves k s (.main handle key) { s with
        chan := Function.update s.chan c u
        main := (mainAfter c ops out).1
        awaits := (mainAfter c ops out).2 }
  | run (hm : s.main = []) :
      Moves k s .run { s with
        main := crossbeamAsyncDriver.run (crossbeamAsyncDriver.setup k.pipelines k.lanes k.messages).1
        awaits := none
        runs := s.runs + 1 }
  | loopRecv {thread handle key c awaits u out} (hthread : s.threads[thread]? = some [c])
      (hl : s.loop c = .recv awaits) (hsound : Sound k (Function.update s.chan c u))
      (hs : RecvStep (s.chan c) awaits u out) :
      Moves k s (.loop thread handle key) { s with
        chan := Function.update s.chan c u
        loop := Function.update s.loop c (afterRecv (s.proc c) out) }
  | handled {thread handle key c b awaits} (hthread : s.threads[thread]? = some [c])
      (hl : s.loop c = .handle (.done b) awaits) :
      Moves k s (.loop thread handle key) { s with
        proc := Function.update s.proc c b
        loop := Function.update s.loop c (afterHandle c) }
  | loopSend {thread handle key c call call' chan' awaits awaits'}
      (hthread : s.threads[thread]? = some [c]) (hl : s.loop c = .handle call awaits)
      (hsound : Sound k chan') (hs : SendStep s.chan call awaits chan' call' awaits') :
      Moves k s (.loop thread handle key)
        { s with chan := chan', loop := Function.update s.loop c (.handle call' awaits') }
  | tryRecv {thread handle key c u} (hthread : s.threads[thread]? = some [c])
      (hl : s.loop c = .drain) (hsound : Sound k (Function.update s.chan c u))
      (hd : Does (s.chan c) (.tryRecv handle) u) :
      Moves k s (.loop thread handle key) { s with
        chan := Function.update s.chan c u
        loop := Function.update s.loop c (afterTry (s.proc c) (s.chan c).chan.tryRecv.2) }
  | handle {c a u} (ha : a.isHandle = true) (hsound : Sound k (Function.update s.chan c u))
      (hd : Does (s.chan c) a u) :
      Moves k s (.handle c a) { s with chan := Function.update s.chan c u }

section Moves

variable {k : Params} {s t : Server}

theorem stepMain_moves {handle key : ℕ} (hc : Sound k s.chan) (h : stepMain s handle key = some t) :
    Moves k s (.main handle key) t := by
  unfold stepMain at h
  split at h
  next => cases h
  next hm =>
    cases h
    exact .spawn hm
  next hm =>
    cases h
    exact .sent hm
  next hm =>
    obtain ⟨⟨chan', call', awaits'⟩, hsend, rfl⟩ := Option.map_eq_some_iff.mp h
    obtain ⟨hsound, hs⟩ := awaitSend_cases hc hsend
    exact .send hm hsound hs
  next c ops hm =>
    obtain ⟨⟨u, out⟩, hrecv, rfl⟩ := Option.map_eq_some_iff.mp h
    obtain ⟨hsound, hs⟩ := awaitRecv_cases hc hrecv
    have hmoves : Moves k s (.main handle key) _ := .recv hm hsound hs
    cases out with
    | inl i => simpa only [mainAfter, ← hm] using hmoves
    | inr res => exact hmoves
  next => cases h

theorem stepLoop_moves {thread handle key : ℕ} {c : Chan} (hc : Sound k s.chan)
    (hthread : s.threads[thread]? = some [c]) (h : stepLoop s c handle key = some t) :
    Moves k s (.loop thread handle key) t := by
  unfold stepLoop at h
  split at h
  next hl =>
    obtain ⟨⟨u, out⟩, hrecv, rfl⟩ := Option.map_eq_some_iff.mp h
    obtain ⟨hsound, hs⟩ := awaitRecv_cases hc hrecv
    exact .loopRecv hthread hl hsound hs
  next hl =>
    cases h
    exact .handled hthread hl
  next hl =>
    obtain ⟨⟨chan', call', awaits'⟩, hsend, rfl⟩ := Option.map_eq_some_iff.mp h
    obtain ⟨hsound, hs⟩ := awaitSend_cases hc hsend
    exact .loopSend hthread hl hsound hs
  next hl =>
    obtain ⟨u, hu, rfl⟩ := Option.map_eq_some_iff.mp h
    exact .tryRecv hthread hl (hc.update hu) (hc.does hu)
  next => cases h

theorem step_moves {e : Event} (hc : Sound k s.chan) (h : step k s e = some t) : Moves k s e t := by
  cases e with
  | main handle key => exact stepMain_moves hc h
  | run =>
    simp only [step] at h
    split at h
    next hm =>
      cases h
      exact .run hm
    next => cases h
  | loop thread handle key =>
    simp only [step] at h
    split at h
    next c hthread => exact stepLoop_moves hc hthread h
    next => cases h
  | handle c a =>
    obtain ⟨ha, h⟩ := Option.ite_none_right_eq_some.mp h
    obtain ⟨u, hu, rfl⟩ := Option.map_eq_some_iff.mp h
    exact .handle ha (hc.update hu) (hc.does hu)

end Moves

end ChannelExecutor.AsyncPipeline
