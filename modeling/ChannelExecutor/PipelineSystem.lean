import ChannelExecutor.DriverPrograms
import ChannelExecutor.Lib.TransitionSystem

/-!
The experiment under a driver: the main thread going through `setup` and the calls of `run`, the
tasks it has detached, and the threads that serve the receive loops, in any order of steps. The channels
are FIFO queues at which a blocked send goes on once there is room. Those of `crossbeam_async` need not
let it; `AsyncPipeline` is that driver over its own channels.
-/

set_option autoImplicit false

namespace ChannelExecutor.Experiment

open Lib (Call Net System)

structure State where
  net : Net Chan Message (Panic Chan) (Forwarder Chan)
  main : List Op
  tasks : List (Sending Chan Unit)
  -- the channels that each thread serves
  threads : List (List Chan)
  -- how often `run` was called
  runs : ℕ

inductive Act
  | main
  | run
  -- a thread takes the next message of the channel at `index`
  | receive (thread index : ℕ)
  -- a step of the `receive` call of a forwarder
  | advance (c : Chan)
  | task (j : ℕ)
  deriving DecidableEq, Repr

def newForwarder (c : Chan) : Forwarder Chan := .new c.position

def start (d : Driver) (k : Params) : State :=
  ⟨.start newForwarder, (d.setup k.pipelines k.lanes k.messages).2, [], [], 0⟩

def stepMain (k : Params) (s : State) : Option State :=
  match s.main with
  | [] => none
  | .spawn recvs :: ops => some { s with main := ops, threads := s.threads ++ [recvs] }
  | .block (.done ()) :: ops => some { s with main := ops }
  | .block call :: ops =>
    (s.net.deliver k.capacity call).map fun (net, rest) =>
      { s with net := net, main := .block rest :: ops }
  | .detach call :: ops => some { s with main := ops, tasks := s.tasks ++ [call] }
  -- not modelled: it gives up on a channel without senders, which before `teardown` takes a panic
  | .recv c :: ops => (s.net.take c).map fun net => { s with net := net, main := ops }

/-- A thread that is in no `receive` call starts on a message of one of its channels. -/
def stepReceive (d : Driver) (s : State) (thread index : ℕ) : Option State :=
  match s.threads[thread]? with
  | some recvs =>
    if recvs.all fun c => (s.net.call c).isNone then
      match recvs[index]? with
      | some c => (s.net.accept d.receive c).map fun net => { s with net := net }
      | none => none
    else none
  | none => none

def stepTask (k : Params) (s : State) (j : ℕ) : Option State :=
  match s.tasks[j]? with
  | some call =>
    (s.net.deliver k.capacity call).map fun (net, rest) =>
      { s with net := net, tasks := s.tasks.set j rest }
  | none => none

/-- `main` calls `run` again only after the notification. -/
def step (d : Driver) (k : Params) (s : State) : Act → Option State
  | .main => stepMain k s
  | .run =>
    match s.main with
    | [] => some { s with
        main := d.run (d.setup k.pipelines k.lanes k.messages).1, runs := s.runs + 1 }
    | _ => none
  | .receive thread index => stepReceive d s thread index
  | .advance c => (s.net.advance k.capacity c).map fun net => { s with net := net }
  | .task j => stepTask k s j

def system (d : Driver) (k : Params) : System State Act := ⟨start d k, step d k⟩

def State.Panics (s : State) (e : Panic Chan) : Prop :=
  (∃ c, s.net.call c = some (Call.panic e)) ∨ (∃ ops, s.main = .block (Call.panic e) :: ops) ∨
    ∃ j : ℕ, s.tasks[j]? = some (Call.panic e)

def State.puts (s : State) : Act → Option (Chan × Message)
  | .main =>
    match s.main with
    | .block (.send c msg _) :: _ => some (c, msg)
    | _ => none
  | .advance c =>
    match s.net.call c with
    | some (.send dst msg _) => some (dst, msg)
    | _ => none
  | .task j =>
    match s.tasks[j]? with
    | some (.send c msg _) => some (c, msg)
    | _ => none
  | _ => none

/-- The step puts no data into a channel of `K` that has not been told its configuration. -/
def ConfigFirst (K : Chan → Prop) (s : State) (a : Act) : Prop :=
  ∀ c seq, s.puts a = some (c, .testData seq) → K c → configs (s.net.put c) ≠ []

inductive Does (d : Driver) (k : Params) (s : State) : Act → State → Prop
  | spawn {recvs : List Chan} {ops : List Op} (h : s.main = .spawn recvs :: ops) :
      Does d k s .main { s with main := ops, threads := s.threads ++ [recvs] }
  | sent {ops : List Op} (h : s.main = .block (.done ()) :: ops) :
      Does d k s .main { s with main := ops }
  | send {c : Chan} {msg : Message} {rest : Sending Chan Unit} {ops : List Op}
      (h : s.main = .block (.send c msg rest) :: ops)
      (hroom : (s.net.queue c).length < k.capacity c) :
      Does d k s .main { s with net := s.net.push c msg, main := .block rest :: ops }
  | detach {call : Sending Chan Unit} {ops : List Op} (h : s.main = .detach call :: ops) :
      Does d k s .main { s with main := ops, tasks := s.tasks ++ [call] }
  | recv {c : Chan} {ops : List Op} {net : Net Chan Message (Panic Chan) (Forwarder Chan)}
      (h : s.main = .recv c :: ops) (hn : s.net.take c = some net) :
      Does d k s .main { s with net := net, main := ops }
  | run (h : s.main = []) :
      Does d k s .run { s with
        main := d.run (d.setup k.pipelines k.lanes k.messages).1, runs := s.runs + 1 }
  | accept {thread index : ℕ} {recvs : List Chan} {c : Chan}
      {net : Net Chan Message (Panic Chan) (Forwarder Chan)} (ht : s.threads[thread]? = some recvs)
      (hidle : ∀ c' ∈ recvs, s.net.call c' = none) (hc : recvs[index]? = some c)
      (hn : s.net.accept d.receive c = some net) :
      Does d k s (.receive thread index) { s with net := net }
  | advance {c : Chan} {net : Net Chan Message (Panic Chan) (Forwarder Chan)}
      (hn : s.net.advance k.capacity c = some net) : Does d k s (.advance c) { s with net := net }
  | task {j : ℕ} {c : Chan} {msg : Message} {rest : Sending Chan Unit}
      (h : s.tasks[j]? = some (.send c msg rest))
      (hroom : (s.net.queue c).length < k.capacity c) :
      Does d k s (.task j) { s with net := s.net.push c msg, tasks := s.tasks.set j rest }

section Steps

variable {d : Driver} {k : Params} {s t : State}

theorem stepMain_does (h : stepMain k s = some t) : Does d k s .main t := by
  unfold stepMain at h
  split at h
  next => cases h
  next hm =>
    cases h
    exact .spawn hm
  next hm =>
    cases h
    exact .sent hm
  next call ops _ hm =>
    obtain ⟨⟨net, rest⟩, hd, rfl⟩ := Option.map_eq_some_iff.mp h
    obtain ⟨c, msg, rfl, hroom, rfl⟩ := Net.deliver_cases hd
    exact .send hm hroom
  next hm =>
    cases h
    exact .detach hm
  next hm =>
    obtain ⟨net, hn, rfl⟩ := Option.map_eq_some_iff.mp h
    exact .recv hm hn

theorem stepReceive_does {thread index : ℕ} (h : stepReceive d s thread index = some t) :
    Does d k s (.receive thread index) t := by
  unfold stepReceive at h
  split at h
  next recvs ht =>
    split at h
    next hidle =>
      split at h
      next c hc =>
        obtain ⟨net, hn, rfl⟩ := Option.map_eq_some_iff.mp h
        exact .accept ht (by simpa using hidle) hc hn
      next => cases h
    next => cases h
  next => cases h

theorem stepTask_does {j : ℕ} (h : stepTask k s j = some t) : Does d k s (.task j) t := by
  unfold stepTask at h
  split at h
  next call hj =>
    obtain ⟨⟨net, rest⟩, hd, rfl⟩ := Option.map_eq_some_iff.mp h
    obtain ⟨c, msg, rfl, hroom, rfl⟩ := Net.deliver_cases hd
    exact .task hj hroom
  next => cases h

theorem step_does {a : Act} (h : step d k s a = some t) : Does d k s a t := by
  cases a with
  | main => exact stepMain_does h
  | run =>
    simp only [step] at h
    split at h
    next hm =>
      cases h
      exact .run hm
    next => cases h
  | receive thread index => exact stepReceive_does h
  | advance c =>
    obtain ⟨net, hn, rfl⟩ := Option.map_eq_some_iff.mp h
    exact .advance hn
  | task j => exact stepTask_does h

end Steps

end ChannelExecutor.Experiment
