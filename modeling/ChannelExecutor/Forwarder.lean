import ChannelExecutor.Support

/-!
`async_forwarder.rs` and `sync_forwarder.rs`. The two forwarders have the same fields and differ in
how they send and in what `handle_action` does with a message that is not data.
-/

set_option autoImplicit false

namespace ChannelExecutor.Experiment

variable {κ : Type}

structure Forwarder (κ : Type) where
  id : ℕ
  senders : List (TestMessageSender κ)
  receivedCount : ℕ
  sendCount : ℕ
  notifyCount : ℕ
  notifySender : Option (TestMessageSender κ)
  forwardingMultiplier : ℕ
  nextSeq : ℕ
  deriving DecidableEq, Repr

namespace Forwarder

def new (id : ℕ) : Forwarder κ := ⟨id, [], 0, 0, 0, none, 1, 0⟩

def countReceived (f : Forwarder κ) : Forwarder κ := { f with receivedCount := f.receivedCount + 1 }

def validateSequence (f : Forwarder κ) (msg : TestMessage κ) :
    Forwarder κ × Except (TestMessage κ) (TestMessage κ) :=
  if f.senders.isEmpty then (f.countReceived, .ok msg)
  else
    match msg with
    | .testData seq =>
      if seq = f.nextSeq then ({ f with nextSeq := f.nextSeq + 1 }.countReceived, .ok msg)
      else if seq = 0 then ({ f with nextSeq := 1 }.countReceived, .ok msg)
      else (f, .error msg)
    | _ => (f.countReceived, .ok msg)

def handleConfig (f : Forwarder κ) (msg : TestMessage κ) : Except (TestMessage κ) (Forwarder κ) :=
  match msg with
  | .notify sender onReceiveCount =>
    .ok { f with notifySender := some sender, notifyCount := onReceiveCount }
  | .addSender sender => .ok { f with senders := f.senders ++ [sender] }
  | msg => .error msg

def getAndClearReceivedCount (f : Forwarder κ) : Forwarder κ × ℕ :=
  ({ f with receivedCount := 0, sendCount := 0 }, f.receivedCount)

section Send

variable (send : TestMessageSender κ → TestMessage κ → Sending κ Unit)

def forward (f : Forwarder κ) (sender : TestMessageSender κ) : Sending κ (Forwarder κ) :=
  (List.range f.forwardingMultiplier).foldlM
    (fun f _ => do
      send sender (.testData f.sendCount)
      pure { f with sendCount := f.sendCount + 1 }) f

/-- `other` is the arm for a message that is not data. -/
def handleAction (other : Forwarder κ → TestMessage κ → Sending κ (Forwarder κ)) (f : Forwarder κ)
    (cmd : TestMessage κ) : Sending κ (Forwarder κ) :=
  match cmd with
  | .testData _ => f.senders.foldlM (forward send) f
  | cmd => other f cmd

def handleNotification (f : Forwarder κ) : Sending κ (Forwarder κ) :=
  if f.receivedCount = f.notifyCount then
    match f.getAndClearReceivedCount with
    | (f, count) =>
      match f.notifySender with
      | some notifier => do
        send notifier (.testData count)
        pure f
      | none => pure f
  else pure f

end Send

/-- What a driver does with a message. -/
def receive (handleConfig : Forwarder κ → TestMessage κ → Except (TestMessage κ) (Forwarder κ))
    (validateSequence : Forwarder κ → TestMessage κ →
      Forwarder κ × Except (TestMessage κ) (TestMessage κ))
    (handleAction : Forwarder κ → TestMessage κ → Sending κ (Forwarder κ))
    (handleNotification : Forwarder κ → Sending κ (Forwarder κ)) (f : Forwarder κ)
    (cmd : TestMessage κ) : Sending κ (Forwarder κ) :=
  match handleConfig f cmd with
  | .ok f => pure f
  | .error msg =>
    match validateSequence f msg with
    | (f, .ok msg) => do
      let f ← handleAction f msg
      handleNotification f
    | (f, .error msg) => .panic (.sequence f.id msg)

end Forwarder

namespace AsyncForwarder

def new : ℕ → Forwarder κ := Forwarder.new

def validateSequence : Forwarder κ → TestMessage κ →
    Forwarder κ × Except (TestMessage κ) (TestMessage κ) :=
  Forwarder.validateSequence

def handleConfig : Forwarder κ → TestMessage κ → Except (TestMessage κ) (Forwarder κ) :=
  Forwarder.handleConfig

def getAndClearReceivedCount : Forwarder κ → Forwarder κ × ℕ := Forwarder.getAndClearReceivedCount

def unhandledAction (_ : Forwarder κ) (_ : TestMessage κ) : Sending κ (Forwarder κ) :=
  .panic (.text "unhandled action")

def handleAction : Forwarder κ → TestMessage κ → Sending κ (Forwarder κ) :=
  Forwarder.handleAction sendCmdAsync unhandledAction

def handleNotification : Forwarder κ → Sending κ (Forwarder κ) :=
  Forwarder.handleNotification sendCmdAsync

def receive : Forwarder κ → TestMessage κ → Sending κ (Forwarder κ) :=
  Forwarder.receive handleConfig validateSequence handleAction handleNotification

end AsyncForwarder

namespace SyncForwarder

def new : ℕ → Forwarder κ := Forwarder.new

def validateSequence : Forwarder κ → TestMessage κ →
    Forwarder κ × Except (TestMessage κ) (TestMessage κ) :=
  Forwarder.validateSequence

def handleConfig : Forwarder κ → TestMessage κ → Except (TestMessage κ) (Forwarder κ) :=
  Forwarder.handleConfig

def getAndClearReceivedCount : Forwarder κ → Forwarder κ × ℕ := Forwarder.getAndClearReceivedCount

def forwardCmd (f : Forwarder κ) (cmd : TestMessage κ) : Sending κ (Forwarder κ) := do
  f.senders.foldlM
    (fun _ sender => (List.range f.forwardingMultiplier).foldlM (fun _ _ => sendCmd sender cmd) ()) ()
  pure f

def handleAction : Forwarder κ → TestMessage κ → Sending κ (Forwarder κ) :=
  Forwarder.handleAction sendCmd forwardCmd

def handleNotification : Forwarder κ → Sending κ (Forwarder κ) :=
  Forwarder.handleNotification sendCmd

def receive : Forwarder κ → TestMessage κ → Sending κ (Forwarder κ) :=
  Forwarder.receive handleConfig validateSequence handleAction handleNotification

end SyncForwarder

end ChannelExecutor.Experiment
