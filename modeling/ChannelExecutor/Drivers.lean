import ChannelExecutor.Forwarder

/-!
`setup` and `run` of the drivers, as the programs their main thread goes through: the receive loops
they start, the sends they wait for or detach, and the wait for the notification.
-/

set_option autoImplicit false

namespace ChannelExecutor.Experiment

/-- The channels of the experiment; `position` is the forwarder's id. -/
inductive Chan
  | lane (lane position : ℕ)
  | concentrator
  | notifier
  deriving DecidableEq, Repr

abbrev Sender := TestMessageSender Chan

abbrev Receiver := TestMessageReceiver Chan

abbrev Message := TestMessage Chan

abbrev Send := Sender → Message → Sending Chan Unit

inductive Op
  -- start a thread or task that serves these channels, each with its own forwarder
  | spawn (recvs : List Chan)
  -- go through the sends on the main thread
  | block (call : Sending Chan Unit)
  -- hand the sends to a task of their own
  | detach (call : Sending Chan Unit)
  -- take a message from the channel
  | recv (chan : Chan)
  deriving DecidableEq, Repr

structure ServerSimulator where
  messages : ℕ
  heads : List Sender
  notifier : Option Receiver
  deriving DecidableEq, Repr

structure Driver where
  receive : Forwarder Chan → Message → Sending Chan (Forwarder Chan)
  setup : (pipelines lanes messages : ℕ) → ServerSimulator × List Op
  run : ServerSimulator → List Op

structure Building where
  ops : List Op
  heads : List Sender
  prev : Option Sender
  recvs : List (List Chan)

section Loops

variable (flavour : Chan → Sender) (post : Sender → Message → Op)
variable (connect : Chan → Building → Building)

def element (l : ℕ) (b : Building) (id : ℕ) : Building :=
  let b := connect (.lane l id) b
  let s := flavour (.lane l id)
  match b.prev with
  | some sender => { b with ops := b.ops ++ [post sender (.addSender s)], prev := some s }
  | none => { b with heads := b.heads ++ [s], prev := some s }

def addLane (pipelines messages : ℕ) (b : Building) (l : ℕ) : Building :=
  let b := (List.range' 1 pipelines).foldl (element flavour post connect l) { b with prev := none }
  match b.prev with
  | some sender =>
    { b with ops := b.ops ++ [post sender (.notify (flavour .concentrator) messages)] }
  | none => { b with ops := b.ops ++ [.block (.panic .unwrapNone)] }

def spawnTask (chan : Chan) (b : Building) : Building := { b with ops := b.ops ++ [.spawn [chan]] }

def setupTasks (receiver : Chan → Receiver) (pipelines lanes messages : ℕ) :
    ServerSimulator × List Op :=
  let b := (List.range lanes).foldl (addLane flavour post spawnTask pipelines messages)
    ⟨[.spawn [.concentrator]], [], none, []⟩
  (⟨messages, b.heads, some (receiver .notifier)⟩,
    b.ops ++ [post (flavour .concentrator) (.notify (flavour .notifier) lanes)])

end Loops

def sendData (send : Send) (sim : ServerSimulator) : Sending Chan Unit :=
  (List.range sim.messages).foldlM
    (fun _ id => sim.heads.foldlM (fun _ head => send head (.testData id)) ()) ()

def runWith (send : Send) (post : Sending Chan Unit → Op) (wait : Receiver → List Op)
    (sim : ServerSimulator) : List Op :=
  post (sendData send sim) ::
    match sim.notifier with
    | some receiver => wait receiver
    | none => []

def unexpectedReceiver : List Op := [.block (.panic (.text "unexpected receiver"))]

def awaitCmd (sender : Sender) (cmd : Message) : Op := .block (sendCmdAsync sender cmd)

def flumeTokioDriver : Driver where
  receive := AsyncForwarder.receive
  setup := setupTasks .flumeSender awaitCmd .flumeReceiver
  run := runWith sendCmdAsync .block fun
    | .flumeReceiver chan => [.recv chan]
    | _ => unexpectedReceiver

def flumeAsyncStdDriver : Driver where
  receive := AsyncForwarder.receive
  setup := setupTasks .flumeSender awaitCmd .flumeReceiver
  run := runWith sendCmdAsync .block fun
    | .flumeReceiver chan => [.recv chan]
    | _ => unexpectedReceiver

def smolDriver : Driver where
  receive := AsyncForwarder.receive
  setup := setupTasks .smolSender awaitCmd .smolReceiver
  run := runWith sendCmdAsync .block fun
    | .smolReceiver chan => [.recv chan]
    | _ => unexpectedReceiver

def crossbeamAsyncDriver : Driver where
  receive := AsyncForwarder.receive
  setup := setupTasks .asyncCrossbeamSender awaitCmd .asyncCrossbeamReceiver
  run := runWith sendCmdAsync .block fun
    | .asyncCrossbeamReceiver chan => [.recv chan]
    | _ => unexpectedReceiver

def d3Driver : Driver where
  receive := SyncForwarder.receive
  setup := setupTasks .d3Sender (fun sender cmd => .block (sendCmd sender cmd)) .d3Receiver
  run := runWith sendCmd .block fun
    | .d3Receiver chan => [.recv chan]
    | _ => []

/-- The configuration and the data are sent by tasks that nobody waits for. -/
def tokioDriver : Driver where
  receive := AsyncForwarder.receive
  setup := setupTasks .tokioSender (fun sender cmd => .detach (sendCmdAsync sender cmd)) .tokioReceiver
  run := runWith sendCmdAsync .detach fun
    | .tokioReceiver chan => [.recv chan]
    | _ => unexpectedReceiver

def pushRecv (chan : Chan) (b : Building) : Building :=
  match chan with
  -- `recvs[id].push(r)` and `forwarders[id].push(forwarder)`, where the id of the forwarder is `id + 1`
  | .lane _ id => { b with recvs := b.recvs.modify (id - 1) (· ++ [chan]) }
  | _ => b

/-- One thread for each position, started only when all lanes are configured. -/
def crossbeamSetup (pipelines lanes messages : ℕ) : ServerSimulator × List Op :=
  let post := fun sender cmd => Op.block (sendCmd sender cmd)
  let b := (List.range lanes).foldl (addLane .crossbeamSender post pushRecv pipelines messages)
    ⟨[.spawn [.concentrator]], [], none, List.replicate pipelines []⟩
  let ops := b.ops ++ b.recvs.map .spawn
  (⟨messages, b.heads, some (.crossbeamReceiver .notifier)⟩,
    ops ++ [post (.crossbeamSender .concentrator) (.notify (.crossbeamSender .notifier) lanes)])

def crossbeamDriver : Driver where
  receive := SyncForwarder.receive
  setup := crossbeamSetup
  run := runWith sendCmd .block fun
    | .crossbeamReceiver chan => [.recv chan]
    | _ => []

def awaitingDrivers : List Driver :=
  [flumeTokioDriver, flumeAsyncStdDriver, smolDriver, crossbeamAsyncDriver, crossbeamDriver, d3Driver]

/-- Those whose channels come from a library. At the channels of `crossbeam_async`, which are its own, a
send may sleep for ever although there is room. -/
def libraryDrivers : List Driver :=
  [flumeTokioDriver, flumeAsyncStdDriver, smolDriver, crossbeamDriver, d3Driver]

theorem awaiting_of_library {d : Driver} (hd : d ∈ libraryDrivers) : d ∈ awaitingDrivers := by
  simp only [libraryDrivers, awaitingDrivers, List.mem_cons, List.not_mem_nil, or_false] at hd ⊢
  tauto

end ChannelExecutor.Experiment
