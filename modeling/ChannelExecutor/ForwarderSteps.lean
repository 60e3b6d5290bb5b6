import ChannelExecutor.ForwarderRuns
import ChannelExecutor.Lib.CallRules

set_option autoImplicit false

namespace ChannelExecutor.Experiment

open Lib (Call)
open Lib.Net (feed)

variable {κ : Type}

inductive ForwarderKind
  | sync
  | async
  deriving DecidableEq, Repr

namespace ForwarderKind

def send : ForwarderKind → TestMessageSender κ → TestMessage κ → Sending κ Unit
  | .sync => sendCmd
  | .async => sendCmdAsync

def handleAction : ForwarderKind → Forwarder κ → TestMessage κ → Sending κ (Forwarder κ)
  | .sync => SyncForwarder.handleAction
  | .async => AsyncForwarder.handleAction

def receive : ForwarderKind → Forwarder κ → TestMessage κ → Sending κ (Forwarder κ)
  | .sync => SyncForwarder.receive
  | .async => AsyncForwarder.receive

def unhandled : ForwarderKind → Forwarder κ → TestMessage κ → Sending κ (Forwarder κ)
  | .sync => SyncForwarder.forwardCmd
  | .async => AsyncForwarder.unhandledAction

theorem receive_eq (k : ForwarderKind) :
    k.receive (κ := κ) = Forwarder.receiveBy k.send k.unhandled := by cases k <;> rfl

theorem handleAction_eq (k : ForwarderKind) :
    k.handleAction (κ := κ) = Forwarder.handleAction k.send k.unhandled := by cases k <;> rfl

end ForwarderKind

def TestMessageSender.chan : TestMessageSender κ → κ
  | .crossbeamSender chan => chan
  | .d3Sender chan => chan
  | .tokioSender chan => chan
  | .flumeSender chan => chan
  | .asyncCrossbeamSender chan => chan
  | .futuresSender chan => chan
  | .smolSender chan => chan

def Deliverable (send : TestMessageSender κ → TestMessage κ → Sending κ Unit)
    (sender : TestMessageSender κ) : Prop :=
  ∀ cmd, send sender cmd = .send sender.chan cmd (.done ())

def TestMessage.handles : TestMessage κ → List (TestMessageSender κ)
  | .testData _ => []
  | .addSender sender => [sender]
  | .notify sender _ => [sender]

def numbered (senders : List (TestMessageSender κ)) (n : ℕ) : List (κ × TestMessage κ) :=
  (senders.zipIdx n).map fun p => (p.1.chan, .testData p.2)

theorem numbered_cons (sender : TestMessageSender κ) (senders : List (TestMessageSender κ)) (n : ℕ) :
    numbered (sender :: senders) n = (sender.chan, .testData n) :: numbered senders (n + 1) := by
  simp [numbered, List.zipIdx_cons]

section SendsTo

variable [DecidableEq κ]

def sendsTo (c : κ) (l : List (κ × TestMessage κ)) : List (TestMessage κ) :=
  (l.filter fun p => p.1 = c).map Prod.snd

@[simp] theorem sendsTo_nil (c : κ) : sendsTo c ([] : List (κ × TestMessage κ)) = [] := rfl

@[simp] theorem sendsTo_append (c : κ) (l l' : List (κ × TestMessage κ)) :
    sendsTo c (l ++ l') = sendsTo c l ++ sendsTo c l' := by
  simp [sendsTo]

@[simp] theorem sendsTo_single (c : κ) (msg : TestMessage κ) : sendsTo c [(c, msg)] = [msg] := by
  simp [sendsTo]

theorem sendsTo_flatMap {α : Type} (c : κ) (l : List α) (blocks : α → List (κ × TestMessage κ)) :
    sendsTo c (l.flatMap blocks) = l.flatMap fun a => sendsTo c (blocks a) := by
  induction l with
  | nil => rfl
  | cons a l ih => rw [List.flatMap_cons, sendsTo_append, ih, List.flatMap_cons]

theorem sendsTo_numbered {c : κ} {senders : List (TestMessageSender κ)}
    (h : ∀ sender ∈ senders, sender.chan ≠ c) (n : ℕ) : sendsTo c (numbered senders n) = [] := by
  induction senders generalizing n with
  | nil => rfl
  | cons sender senders ih =>
    have hne : sender.chan ≠ c := h sender List.mem_cons_self
    have hrest := ih (fun s hs => h s (List.mem_cons_of_mem _ hs)) (n + 1)
    rw [numbered_cons]
    simpa [sendsTo, hne] using hrest

end SendsTo

namespace Forwarder

variable {send : TestMessageSender κ → TestMessage κ → Sending κ Unit}
variable {other : Forwarder κ → TestMessage κ → Sending κ (Forwarder κ)} {f g : Forwarder κ}

/-- All handles of `f` work. The multiplier is 1 in `new`, and nothing changes it. -/
structure Serves (send : TestMessageSender κ → TestMessage κ → Sending κ Unit) (f : Forwarder κ) :
    Prop where
  senders : ∀ sender ∈ f.senders, Deliverable send sender
  notifier : ∀ sender, f.notifySender = some sender → Deliverable send sender
  multiplier : f.forwardingMultiplier = 1

def forwarded (f : Forwarder κ) (nextSeq : ℕ) : Forwarder κ :=
  { f with
    receivedCount := f.receivedCount + 1
    sendCount := f.sendCount + f.senders.length
    nextSeq := nextSeq }

def notified (f : Forwarder κ) : Forwarder κ :=
  if f.receivedCount = f.notifyCount then { f with receivedCount := 0, sendCount := 0 } else f

def notifications (f : Forwarder κ) : List (κ × TestMessage κ) :=
  if f.receivedCount = f.notifyCount then
    f.notifySender.toList.map fun sender => (sender.chan, .testData f.receivedCount)
  else []

theorem validateSequence_cases (f : Forwarder κ) (seq : ℕ) :
    (∃ nextSeq, f.validateSequence (.testData seq) =
      ({ f with receivedCount := f.receivedCount + 1, nextSeq := nextSeq }, .ok (.testData seq))) ∨
    f.validateSequence (.testData seq) = (f, .error (.testData seq)) := by
  simp only [validateSequence]
  split_ifs
  · exact .inl ⟨f.nextSeq, rfl⟩
  · exact .inl ⟨f.nextSeq + 1, rfl⟩
  · exact .inl ⟨1, rfl⟩
  · exact .inr rfl

theorem forward_eq (hm : f.forwardingMultiplier = 1) {sender : TestMessageSender κ}
    (hs : Deliverable send sender) : forward send f sender =
      .send sender.chan (.testData f.sendCount) (.done { f with sendCount := f.sendCount + 1 }) := by
  simp [forward, hm, hs (.testData f.sendCount), List.range_succ]

theorem foldlM_forward (hm : f.forwardingMultiplier = 1) {senders : List (TestMessageSender κ)}
    (hs : ∀ sender ∈ senders, Deliverable send sender) : senders.foldlM (forward send) f =
      .after (numbered senders f.sendCount)
        (.done { f with sendCount := f.sendCount + senders.length }) := by
  induction senders generalizing f with
  | nil => rfl
  | cons sender senders ih =>
    have hrest := ih (f := { f with sendCount := f.sendCount + 1 }) hm
      fun s h => hs s (List.mem_cons_of_mem _ h)
    rw [List.foldlM_cons, forward_eq hm (hs sender List.mem_cons_self), Call.send_bind,
      Call.done_bind, hrest, numbered_cons, Call.after_cons]
    simp [Nat.add_assoc, Nat.add_comm 1]

theorem handleAction_eq (other : Forwarder κ → TestMessage κ → Sending κ (Forwarder κ))
    (hf : Serves send f) (seq : ℕ) :
    handleAction send other f (.testData seq) = .after (numbered f.senders f.sendCount)
      (.done { f with sendCount := f.sendCount + f.senders.length }) :=
  foldlM_forward hf.multiplier hf.senders

theorem handleNotification_eq
    (hs : ∀ sender, f.notifySender = some sender → Deliverable send sender) :
    handleNotification send f = .after (notifications f) (.done (notified f)) := by
  unfold handleNotification notifications notified
  by_cases hcount : f.receivedCount = f.notifyCount
  · rw [if_pos hcount, if_pos hcount, if_pos hcount]
    cases hn : f.notifySender with
    | none => simp [getAndClearReceivedCount, hn]
    | some sender => simp [getAndClearReceivedCount, hn, hs sender hn (.testData f.receivedCount)]
  · rw [if_neg hcount, if_neg hcount, if_neg hcount]
    rfl

theorem receive_data_cases (other : Forwarder κ → TestMessage κ → Sending κ (Forwarder κ))
    (hf : Serves send f) (seq : ℕ) :
    (∃ nextSeq, f.validateSequence (.testData seq) =
        ({ f with receivedCount := f.receivedCount + 1, nextSeq := nextSeq }, .ok (.testData seq)) ∧
      receiveBy send other f (.testData seq) =
        .after (numbered f.senders f.sendCount ++ notifications (forwarded f nextSeq))
          (.done (notified (forwarded f nextSeq)))) ∨
    receiveBy send other f (.testData seq) = .panic (.sequence f.id (.testData seq)) := by
  rcases validateSequence_cases f seq with ⟨nextSeq, hv⟩ | hv
  · left
    refine ⟨nextSeq, hv, ?_⟩
    have haction := handleAction_eq other (f := { f with
      receivedCount := f.receivedCount + 1, nextSeq := nextSeq })
      ⟨hf.senders, hf.notifier, hf.multiplier⟩ seq
    have hnotify := handleNotification_eq (f := forwarded f nextSeq) hf.notifier
    simp only [receiveBy, receive, handleConfig, hv, haction, Call.after_bind, Call.done_bind,
      Call.after_append]
    exact congrArg _ hnotify
  · right
    simp only [receiveBy, receive, handleConfig, hv]

def Sent (f g : Forwarder κ) : Prop := ∃ sent, g = { f with sendCount := sent }

theorem Sent.refl (f : Forwarder κ) : Sent f f := ⟨f.sendCount, rfl⟩

theorem Sent.trans (a b c : Forwarder κ) : Sent a b → Sent b c → Sent a c := by
  rintro ⟨_, rfl⟩ ⟨sent, rfl⟩
  exact ⟨sent, rfl⟩

theorem forward_ok {sender : TestMessageSender κ} (h : (forward send f sender).result = .ok g) :
    Sent f g := by
  apply Call.foldlM_ok Sent.refl Sent.trans ?_ h
  intro b _ b' hb
  obtain ⟨-, -, hb⟩ := Call.bind_ok_iff.mp hb
  exact ⟨_, (Except.ok.inj hb).symm⟩

theorem handleAction_ok {seq : ℕ} (h : (handleAction send other f (.testData seq)).result = .ok g) :
    Sent f g :=
  Call.foldlM_ok Sent.refl Sent.trans (fun _ _ _ => forward_ok) h

theorem handleNotification_ok (h : (handleNotification send f).result = .ok g) : g = notified f := by
  unfold handleNotification at h
  unfold notified
  split at h
  next hcount =>
    rw [if_pos hcount]
    cases hn : f.notifySender with
    | none => simpa [getAndClearReceivedCount, hn] using h.symm
    | some sender =>
      simp only [getAndClearReceivedCount, hn] at h
      obtain ⟨-, -, hg⟩ := Call.bind_ok_iff.mp h
      simpa [hn] using hg.symm
  next hcount =>
    rw [if_neg hcount]
    exact (Except.ok.inj h).symm

theorem receive_data_ok {seq : ℕ} (h : (receiveBy send other f (.testData seq)).result = .ok g) :
    ∃ sent nextSeq, g = notified { f with
      receivedCount := f.receivedCount + 1, sendCount := sent, nextSeq := nextSeq } := by
  simp only [receiveBy, receive, handleConfig] at h
  rcases validateSequence_cases f seq with ⟨nextSeq, hv⟩ | hv
  · rw [hv] at h
    obtain ⟨f', hf', hg⟩ := Call.bind_ok_iff.mp h
    obtain ⟨sent, rfl⟩ := handleAction_ok hf'
    exact ⟨sent, nextSeq, handleNotification_ok hg⟩
  · rw [hv] at h
    cases h

theorem handleNotification_sends (hdue : f.receivedCount = f.notifyCount)
    {sender : TestMessageSender κ} (hn : f.notifySender = some sender) :
    (handleNotification send f).sends = (send sender (.testData f.receivedCount)).sends := by
  rw [handleNotification, if_pos hdue]
  simp only [getAndClearReceivedCount, hn]
  exact Call.sends_bind_pure _ _

theorem receive_due_sends {seq : ℕ} (h : (receiveBy send other f (.testData seq)).result = .ok g)
    {sender : TestMessageSender κ} (hn : f.notifySender = some sender)
    (hdue : f.receivedCount + 1 = f.notifyCount) :
    (receiveBy send other f (.testData seq)).sends =
      (handleAction send other (f.validateSequence (.testData seq)).1 (.testData seq)).sends ++
        (send sender (.testData (f.receivedCount + 1))).sends := by
  simp only [receiveBy, receive, handleConfig] at h ⊢
  rcases validateSequence_cases f seq with ⟨nextSeq, hv⟩ | hv
  · rw [hv] at h ⊢
    obtain ⟨f', hf', hg⟩ := Call.bind_ok_iff.mp h
    rw [Call.sends_bind hf']
    obtain ⟨sent, rfl⟩ := handleAction_ok hf'
    exact congrArg _ (handleNotification_sends hdue hn)
  · rw [hv] at h
    cases h

theorem Serves.receive (hf : Serves send f) {msg : TestMessage κ}
    (hm : ∀ sender ∈ msg.handles, Deliverable send sender)
    (h : (receiveBy send other f msg).result = .ok g) : Serves send g := by
  cases msg with
  | addSender sender =>
    obtain rfl : _ = g := Except.ok.inj h
    constructor
    case senders =>
      intro s hs
      rcases List.mem_append.mp hs with hs | hs
      · exact hf.senders s hs
      · exact hm s hs
    case notifier => exact hf.notifier
    case multiplier => exact hf.multiplier
  | notify sender count =>
    obtain rfl : _ = g := Except.ok.inj h
    constructor
    case senders => exact hf.senders
    case notifier =>
      rintro s hs
      obtain rfl := Option.some.inj hs
      exact hm _ List.mem_cons_self
    case multiplier => exact hf.multiplier
  | testData seq =>
    rcases receive_data_cases other hf seq with ⟨nextSeq, -, hr⟩ | hr
    · rw [hr, Call.result_after] at h
      obtain rfl : _ = g := Except.ok.inj h
      unfold notified
      split
      · exact ⟨hf.senders, hf.notifier, hf.multiplier⟩
      · exact ⟨hf.senders, hf.notifier, hf.multiplier⟩
    · rw [hr] at h
      cases h

end Forwarder

end ChannelExecutor.Experiment
