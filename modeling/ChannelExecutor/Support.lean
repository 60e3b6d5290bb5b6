import Mathlib.Algebra.GroupWithZero.Nat
import ChannelExecutor.Lib.Call

/-!
`support.rs`: the messages of the experiment, the flavours of senders and receivers, and the two
ways to send. The channel libraries are behind the handles: a handle names its channel, and a send
to it ends once the channel has taken the message.
-/

set_option autoImplicit false

namespace ChannelExecutor.Experiment

open Lib (Call)

inductive TestMessageSender (κ : Type)
  | crossbeamSender (chan : κ)
  | d3Sender (chan : κ)
  | tokioSender (chan : κ)
  | flumeSender (chan : κ)
  | asyncCrossbeamSender (chan : κ)
  | futuresSender (chan : κ)
  | smolSender (chan : κ)
  deriving DecidableEq, Repr

inductive TestMessageReceiver (κ : Type)
  | crossbeamReceiver (chan : κ)
  | d3Receiver (chan : κ)
  | tokioReceiver (chan : κ)
  | flumeReceiver (chan : κ)
  | asyncCrossbeamReceiver (chan : κ)
  | futuresReceiver (chan : κ)
  | smolReceiver (chan : κ)
  deriving DecidableEq, Repr

inductive TestMessage (κ : Type)
  | testData (seq : ℕ)
  | addSender (sender : TestMessageSender κ)
  | notify (sender : TestMessageSender κ) (onReceiveCount : ℕ)
  deriving DecidableEq, Repr

/-- `sequence` is `panic!("sequence error fwd {}, msg {:#?}", ..)`, which prints its two fields. -/
inductive Panic (κ : Type)
  | text (message : String)
  | sequence (id : ℕ) (msg : TestMessage κ)
  | unwrapNone
  deriving DecidableEq, Repr

abbrev Sending (κ β : Type) := Call κ (TestMessage κ) (Panic κ) β

variable {κ : Type}

def sendCmd (sender : TestMessageSender κ) (cmd : TestMessage κ) : Sending κ Unit :=
  match sender with
  | .crossbeamSender chan => .send chan cmd (.done ())
  | .d3Sender chan => .send chan cmd (.done ())
  | _ => .panic (.text "unhandled sync sender")

/-- The arm for `FuturesSender` drops the message. -/
def sendCmdAsync (sender : TestMessageSender κ) (cmd : TestMessage κ) : Sending κ Unit :=
  match sender with
  | .tokioSender chan => .send chan cmd (.done ())
  | .flumeSender chan => .send chan cmd (.done ())
  | .futuresSender _ => .done ()
  | .asyncCrossbeamSender chan => .send chan cmd (.done ())
  | .smolSender chan => .send chan cmd (.done ())
  | _ => .panic (.text "unhandled async sender")

def Delivers (send : TestMessageSender κ → TestMessage κ → Sending κ Unit)
    (flavour : κ → TestMessageSender κ) : Prop :=
  ∀ chan cmd, send (flavour chan) cmd = .send chan cmd (.done ())

theorem sendCmd_crossbeam : Delivers (κ := κ) sendCmd .crossbeamSender := fun _ _ => rfl

theorem sendCmd_d3 : Delivers (κ := κ) sendCmd .d3Sender := fun _ _ => rfl

theorem sendCmdAsync_tokio : Delivers (κ := κ) sendCmdAsync .tokioSender := fun _ _ => rfl

theorem sendCmdAsync_flume : Delivers (κ := κ) sendCmdAsync .flumeSender := fun _ _ => rfl

theorem sendCmdAsync_asyncCrossbeam : Delivers (κ := κ) sendCmdAsync .asyncCrossbeamSender :=
  fun _ _ => rfl

theorem sendCmdAsync_smol : Delivers (κ := κ) sendCmdAsync .smolSender := fun _ _ => rfl

def TestMessage.seq? : TestMessage κ → Option ℕ
  | .testData seq => some seq
  | _ => none

def seqs (msgs : List (TestMessage κ)) : List ℕ := msgs.filterMap TestMessage.seq?

def configs (msgs : List (TestMessage κ)) : List (TestMessage κ) :=
  msgs.filter fun msg => msg.seq?.isNone

@[simp] theorem seqs_nil : seqs ([] : List (TestMessage κ)) = [] := rfl

@[simp] theorem configs_nil : configs ([] : List (TestMessage κ)) = [] := rfl

@[simp] theorem seqs_append (msgs msgs' : List (TestMessage κ)) :
    seqs (msgs ++ msgs') = seqs msgs ++ seqs msgs' := List.filterMap_append

@[simp] theorem configs_append (msgs msgs' : List (TestMessage κ)) :
    configs (msgs ++ msgs') = configs msgs ++ configs msgs' := List.filter_append _ _

@[simp] theorem seqs_testData (seq : ℕ) (msgs : List (TestMessage κ)) :
    seqs (.testData seq :: msgs) = seq :: seqs msgs := rfl

@[simp] theorem configs_testData (seq : ℕ) (msgs : List (TestMessage κ)) :
    configs (.testData seq :: msgs) = configs msgs := rfl

theorem seqs_config {msg : TestMessage κ} (h : msg.seq? = none) (msgs : List (TestMessage κ)) :
    seqs (msg :: msgs) = seqs msgs := by
  simp [seqs, h]

theorem configs_seqs_length (msgs : List (TestMessage κ)) :
    (configs msgs).length + (seqs msgs).length = msgs.length := by
  induction msgs with
  | nil => rfl
  | cons msg msgs ih =>
    simp only [configs, seqs, List.length_cons, List.filter_cons, List.filterMap_cons] at ih ⊢
    cases msg.seq? <;> simp <;> omega

theorem configs_config {msg : TestMessage κ} (h : msg.seq? = none) (msgs : List (TestMessage κ)) :
    configs (msg :: msgs) = msg :: configs msgs := by
  simp [configs, h]

@[simp] theorem seqs_map_testData (l : List ℕ) :
    seqs (l.map (TestMessage.testData (κ := κ))) = l := by
  induction l with
  | nil => rfl
  | cons seq l ih => simp [ih]

@[simp] theorem configs_map_testData (l : List ℕ) :
    configs (l.map (TestMessage.testData (κ := κ))) = [] := by
  induction l with
  | nil => rfl
  | cons seq l ih => simp [ih]

theorem eq_map_testData {msgs : List (TestMessage κ)} (h : configs msgs = []) :
    msgs = (seqs msgs).map .testData := by
  induction msgs with
  | nil => rfl
  | cons msg msgs ih =>
    cases msg with
    | testData seq => simp [← ih (by simpa using h)]
    | addSender sender => simp [configs_config (by rfl : TestMessage.seq? (.addSender sender) = none)] at h
    | notify sender count =>
      simp [configs_config (by rfl : TestMessage.seq? (.notify sender count) = none)] at h

end ChannelExecutor.Experiment
