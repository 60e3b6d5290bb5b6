import ChannelExecutor.ForwarderSteps
import ChannelExecutor.BackPressure

/-!
The sender handles of the experiment: which of them `setup` makes, keeps and lets go of, where they
are while the lanes run, and what `teardown` sets off. A receive loop ends when its channel is empty
and nobody holds a sender of it.
-/

set_option autoImplicit false

namespace ChannelExecutor.Experiment

open Lib (Call Net System)

inductive Stmt
  | op (o : Op)
  -- `let (s, r) = bounded(..)`
  | create (sender : Sender)
  -- `self.heads.push(s.clone())`
  | keep (sender : Sender)
  -- the local variable goes out of scope, or is moved into the message that is sent next
  | leave (sender : Sender)
  -- `self.heads.clear()`
  | clear
  -- the receiver is dropped
  | close (chan : Chan)
  deriving DecidableEq, Repr

def Stmt.op? : Stmt → Option Op
  | .op o => some o
  | _ => none

def opsOf (prog : List Stmt) : List Op := prog.filterMap Stmt.op?

structure Tracking where
  prog : List Stmt
  prev : Option Sender
  recvs : List (List Chan)

namespace Tracking

section Loops

variable (flavour : Chan → Sender) (post : Sender → Message → Op)
variable (connect : Chan → Tracking → Tracking)

def element (l : ℕ) (b : Tracking) (id : ℕ) : Tracking :=
  let s := flavour (.lane l id)
  let b := connect (.lane l id) { b with prog := b.prog ++ [.create s] }
  match b.prev with
  | some sender =>
    { b with prog := b.prog ++ [.op (post sender (.addSender s)), .leave sender], prev := some s }
  | none => { b with prog := b.prog ++ [.keep s], prev := some s }

def addLane (pipelines messages : ℕ) (b : Tracking) (l : ℕ) : Tracking :=
  let b := (List.range' 1 pipelines).foldl (element flavour post connect l) { b with prev := none }
  match b.prev with
  | some sender =>
    { b with
      prog := b.prog ++ [.op (post sender (.notify (flavour .concentrator) messages)), .leave sender]
      prev := none }
  | none => { b with prog := b.prog ++ [.op (.block (.panic .unwrapNone))] }

def setupWith (launch : Tracking → List Stmt) (recvs : List (List Chan))
    (pipelines lanes messages : ℕ) : List Stmt :=
  let b := (List.range lanes).foldl (addLane flavour post connect pipelines messages)
    ⟨[.create (flavour .concentrator), .op (.spawn [.concentrator])], none, recvs⟩
  b.prog ++ launch b ++ [.create (flavour .notifier), .leave (flavour .notifier),
    .op (post (flavour .concentrator) (.notify (flavour .notifier) lanes)),
    .leave (flavour .concentrator)]

end Loops

def spawnTask (chan : Chan) (b : Tracking) : Tracking :=
  { b with prog := b.prog ++ [.op (.spawn [chan])] }

def pushRecv (chan : Chan) (b : Tracking) : Tracking :=
  match chan with
  | .lane _ id => { b with recvs := b.recvs.modify (id - 1) (· ++ [chan]) }
  | _ => b

def setupTasks (pipelines lanes messages : ℕ) : List Stmt :=
  setupWith .flumeSender awaitCmd spawnTask (fun _ => []) [] pipelines lanes messages

def crossbeamSetup (pipelines lanes messages : ℕ) : List Stmt :=
  setupWith .crossbeamSender (fun sender cmd => .block (sendCmd sender cmd)) pushRecv
    (fun b => b.recvs.map fun recv => .op (.spawn recv)) (List.replicate pipelines [])
    pipelines lanes messages

end Tracking

structure TrackedDriver where
  driver : Driver
  flavour : Chan → Sender
  setup : (pipelines lanes messages : ℕ) → List Stmt

namespace TrackedDriver

def flumeTokio : TrackedDriver := ⟨flumeTokioDriver, .flumeSender, Tracking.setupTasks⟩

def flumeAsyncStd : TrackedDriver := ⟨flumeAsyncStdDriver, .flumeSender, Tracking.setupTasks⟩

def crossbeam : TrackedDriver := ⟨crossbeamDriver, .crossbeamSender, Tracking.crossbeamSetup⟩

def all : List TrackedDriver := [flumeTokio, flumeAsyncStd, crossbeam]

end TrackedDriver

structure Life where
  net : Net Chan Message (Panic Chan) (Forwarder Chan)
  -- what the main thread still has to do of `setup`, `run` or `teardown`
  prog : List Stmt
  threads : List (List Chan)
  runs : ℕ
  torn : Bool
  locals : List Sender
  heads : List Sender
  -- the threads that have left their loop
  left : List ℕ
  -- the channels whose receiver, whose forwarder and whose queue is gone
  closed : List Chan
  dropped : List Chan
  freed : List Chan

def Forwarder.handles (f : Forwarder Chan) : List Sender := f.senders ++ f.notifySender.toList

inductive Holder
  | local
  | head (index : ℕ)
  -- the message that the main thread is sending
  | hand
  | queued (chan : Chan) (msg : Message)
  | forwarder (chan : Chan)
  deriving DecidableEq, Repr

namespace Life

variable (s : Life)

def state : State := ⟨s.net, opsOf s.prog, [], s.threads, s.runs⟩

def inHand : List Sender :=
  match s.prog with
  | .op (.block (.send _ msg _)) :: _ => msg.handles
  | _ => []

def forwarder (c : Chan) : Forwarder Chan :=
  match (s.net.current c).result with
  | .ok f => f
  | .error _ => s.net.proc c

def sending (c : Chan) : List Sender :=
  match s.net.call c with
  | some (.send _ msg _) => msg.handles
  | _ => []

def queuedHandles (c : Chan) : List (Holder × Sender) :=
  if c ∈ s.freed then []
  else (s.net.queue c).flatMap fun msg => msg.handles.map fun x => (.queued c msg, x)

def ownHandles (c : Chan) : List (Holder × Sender) :=
  if c ∈ s.dropped then []
  else ((s.forwarder c).handles ++ s.sending c).map fun x => (.forwarder c, x)

/-- The live handles with the places that hold them. There is no forwarder behind the notifier. -/
def handles (k : Params) : List (Holder × Sender) :=
  s.locals.map (fun x => (.local, x)) ++ s.heads.zipIdx.map (fun p => (.head p.2, p.1)) ++
    s.inHand.map (fun x => (.hand, x)) ++ s.queuedHandles .notifier ++
    k.channels.flatMap fun c => s.queuedHandles c ++ s.ownHandles c

def holders (k : Params) (c : Chan) : List Holder :=
  ((s.handles k).filter fun p => p.2.chan = c).map Prod.fst

def Ended (c : Chan) : Prop := ∃ thread ∈ s.left, c ∈ s.threads[thread]?.getD []

instance (c : Chan) : Decidable (s.Ended c) := inferInstanceAs (Decidable (∃ _ ∈ _, _))

end Life

inductive Event
  | main
  | run
  | teardown
  | receive (thread index : ℕ)
  | advance (chan : Chan)
  -- the loop finds the channel at `index` disconnected
  | leave (thread index : ℕ)
  | close (chan : Chan)
  | drop (chan : Chan)
  | free (chan : Chan)
  deriving DecidableEq, Repr

section Step

variable (o : TrackedDriver) (k : Params)

/-- A send to a channel without a receiver fails, and the message is dropped. -/
def Life.refused {β : Type} (s : Life) (call : Sending Chan β) : Option (Sending Chan β) :=
  match call with
  | .send c _ rest => if c ∈ s.closed then some rest else none
  | _ => none

def stepOp (s : Life) (o : Op) (rest : List Stmt) : Option Life :=
  (stepMain k { s.state with main := [o] }).map fun t =>
    { s with net := t.net, threads := t.threads, prog := t.main.map .op ++ rest }

def stepStmt (s : Life) : Option Life :=
  match s.prog with
  | [] => none
  -- the drivers that are tracked detach nothing
  | .op (.detach _) :: _ => none
  | .op (.block call) :: rest =>
    match s.refused call with
    | some call => some { s with prog := .op (.block call) :: rest }
    | none => stepOp k s (.block call) rest
  | .op o :: rest => stepOp k s o rest
  | .create x :: rest => some { s with prog := rest, locals := x :: s.locals }
  | .keep x :: rest => some { s with prog := rest, heads := s.heads ++ [x] }
  | .leave x :: rest => some { s with prog := rest, locals := s.locals.erase x }
  | .clear :: rest =>
    match s.heads with
    | [] => some { s with prog := rest }
    | _ :: heads => some { s with heads := heads }
  | .close c :: rest => some { s with prog := rest, closed := c :: s.closed }

def stepAdvance (s : Life) (c : Chan) : Option Life :=
  match (s.net.call c).bind s.refused with
  | some call => some { s with net := { s.net with call := Function.update s.net.call c (some call) } }
  | none => (s.net.advance k.capacity c).map fun net => { s with net := net }

def stepLeave (s : Life) (thread index : ℕ) : Option Life :=
  match s.threads[thread]? with
  | some recvs =>
    if thread ∉ s.left ∧ recvs.all fun c => (s.net.call c).isNone then
      match recvs[index]? with
      | some c =>
        if s.net.queue c = [] ∧ s.holders k c = [] then some { s with left := thread :: s.left }
        else none
      | none => none
    else none
  | none => none

/-- `eager` libraries free a queue with its receiver, the others once no sender is left either. -/
def stepLife (eager : Bool) (s : Life) : Event → Option Life
  | .main => stepStmt k s
  | .run =>
    if s.prog = [] ∧ s.torn = false then
      some { s with
        prog := (o.driver.run (o.driver.setup k.pipelines k.lanes k.messages).1).map .op
        runs := s.runs + 1 }
    else none
  | .teardown =>
    if s.prog = [] ∧ s.torn = false then
      some { s with prog := [.clear, .close .notifier], torn := true }
    else none
  | .receive thread index =>
    if thread ∈ s.left then none
    else (stepReceive o.driver s.state thread index).map fun t => { s with net := t.net }
  | .advance c => stepAdvance k s c
  | .leave thread index => stepLeave k s thread index
  -- what the closure of a thread has moved in goes out of scope, in any order
  | .close c => if s.Ended c ∧ c ∉ s.closed then some { s with closed := c :: s.closed } else none
  | .drop c => if s.Ended c ∧ c ∉ s.dropped then some { s with dropped := c :: s.dropped } else none
  | .free c =>
    if c ∈ s.closed ∧ c ∉ s.freed ∧ (eager = true ∨ s.holders k c = []) then
      some { s with freed := c :: s.freed }
    else none

def birth : Life :=
  ⟨.start newForwarder, o.setup k.pipelines k.lanes k.messages, [], 0, false, [], [], [], [], [], []⟩

def lifeSystem (eager : Bool) : System Life Event := ⟨birth o k, stepLife o k eager⟩

end Step

end ChannelExecutor.Experiment
