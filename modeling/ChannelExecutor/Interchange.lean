import ChannelExecutor.ForwarderSteps

set_option autoImplicit false

namespace ChannelExecutor.Experiment

open Lib (Call)
open Lib.Net (feed)

variable {κ : Type}

structure Corresponds (s a : TestMessageSender κ) : Prop where
  chan : s.chan = a.chan
  sync : Deliverable sendCmd s
  async : Deliverable sendCmdAsync a

inductive SameMessage : TestMessage κ → TestMessage κ → Prop
  | testData (seq : ℕ) : SameMessage (.testData seq) (.testData seq)
  | addSender {s a : TestMessageSender κ} (h : Corresponds s a) :
      SameMessage (.addSender s) (.addSender a)
  | notify {s a : TestMessageSender κ} (h : Corresponds s a) (onReceiveCount : ℕ) :
      SameMessage (.notify s onReceiveCount) (.notify a onReceiveCount)

structure SameFields (f g : Forwarder κ) : Prop where
  id : f.id = g.id
  senders : List.Forall₂ Corresponds f.senders g.senders
  receivedCount : f.receivedCount = g.receivedCount
  sendCount : f.sendCount = g.sendCount
  notifyCount : f.notifyCount = g.notifyCount
  notifySender : Option.Rel Corresponds f.notifySender g.notifySender
  forwardingMultiplier : f.forwardingMultiplier = g.forwardingMultiplier
  nextSeq : f.nextSeq = g.nextSeq

namespace SameFields

variable {f g : Forwarder κ}

theorem new (id : ℕ) : SameFields (SyncForwarder.new id : Forwarder κ) (AsyncForwarder.new id) :=
  ⟨rfl, .nil, rfl, rfl, rfl, .none, rfl, rfl⟩

theorem countReceived (h : SameFields f g) : SameFields f.countReceived g.countReceived :=
  { h with receivedCount := congrArg (· + 1) h.receivedCount }

theorem nextSeq_eq (h : SameFields f g) (n : ℕ) :
    SameFields { f with nextSeq := n } { g with nextSeq := n } :=
  { h with nextSeq := rfl }

theorem countSent (h : SameFields f g) : SameFields { f with sendCount := f.sendCount + 1 }
    { g with sendCount := g.sendCount + 1 } :=
  { h with sendCount := congrArg (· + 1) h.sendCount }

theorem isEmpty_senders (h : SameFields f g) : f.senders.isEmpty = g.senders.isEmpty := by
  generalize f.senders = ss, g.senders = as, h.senders = hs
  cases hs <;> rfl

theorem validateSequence (h : SameFields f g) (seq : ℕ) :
    SameFields (SyncForwarder.validateSequence f (.testData seq)).1
      (AsyncForwarder.validateSequence g (.testData seq)).1 ∧
    (SyncForwarder.validateSequence f (.testData seq)).2 =
      (AsyncForwarder.validateSequence g (.testData seq)).2 := by
  simp only [SyncForwarder.validateSequence, AsyncForwarder.validateSequence,
    Forwarder.validateSequence, h.isEmpty_senders, h.nextSeq]
  by_cases hempty : g.senders.isEmpty
  · rw [if_pos hempty, if_pos hempty]
    exact ⟨h.countReceived, rfl⟩
  rw [if_neg hempty, if_neg hempty]
  by_cases hnext : seq = g.nextSeq
  · rw [if_pos hnext, if_pos hnext]
    exact ⟨(h.nextSeq_eq _).countReceived, rfl⟩
  rw [if_neg hnext, if_neg hnext]
  by_cases h0 : seq = 0
  · rw [if_pos h0, if_pos h0]
    exact ⟨(h.nextSeq_eq 1).countReceived, rfl⟩
  · rw [if_neg h0, if_neg h0]
    exact ⟨h, rfl⟩

theorem forward (h : SameFields f g) {s a : TestMessageSender κ} (hs : Corresponds s a) :
    Call.Matches SameFields (Forwarder.forward sendCmd f s) (Forwarder.forward sendCmdAsync g a) := by
  unfold Forwarder.forward
  rw [h.forwardingMultiplier]
  refine Call.Matches.foldlM (A := Eq) (List.forall₂_refl _) ?_ h
  rintro b c _ _ hbc rfl
  rw [hs.sync, hs.async, hs.chan, hbc.sendCount]
  have := hbc.countSent
  rw [hbc.sendCount] at this
  exact .send (.done this)

theorem handleAction (h : SameFields f g) (seq : ℕ) : Call.Matches SameFields
    (SyncForwarder.handleAction f (.testData seq)) (AsyncForwarder.handleAction g (.testData seq)) :=
  Call.Matches.foldlM h.senders (fun _ _ _ _ hbc hs => hbc.forward hs) h

theorem cleared (h : SameFields f g) :
    SameFields (SyncForwarder.getAndClearReceivedCount f).1
      (AsyncForwarder.getAndClearReceivedCount g).1 :=
  { h with receivedCount := rfl, sendCount := rfl }

theorem handleNotification (h : SameFields f g) : Call.Matches SameFields
    (SyncForwarder.handleNotification f) (AsyncForwarder.handleNotification g) := by
  unfold SyncForwarder.handleNotification AsyncForwarder.handleNotification
    Forwarder.handleNotification
  rw [h.receivedCount, h.notifyCount]
  by_cases hcount : g.receivedCount = g.notifyCount
  · rw [if_pos hcount, if_pos hcount]
    simp only [Forwarder.getAndClearReceivedCount, h.receivedCount]
    have hcleared : SameFields f.getAndClearReceivedCount.1 g.getAndClearReceivedCount.1 := h.cleared
    have hsender := h.notifySender
    cases hf : f.notifySender <;> cases hg : g.notifySender <;> rw [hf, hg] at hsender
    case none.none => exact .done (by simpa [Forwarder.getAndClearReceivedCount, hf, hg] using hcleared)
    case some.some s a =>
      have hs : Corresponds s a := by cases hsender; assumption
      simp only [hs.sync (.testData g.receivedCount), hs.async (.testData g.receivedCount), hs.chan]
      exact .send (.done (by simpa [Forwarder.getAndClearReceivedCount, hf, hg] using hcleared))
    all_goals cases hsender
  · rw [if_neg hcount, if_neg hcount]
    exact .done h

theorem receive (h : SameFields f g) {msg msg' : TestMessage κ} (hm : SameMessage msg msg') :
    Call.Matches SameFields (SyncForwarder.receive f msg) (AsyncForwarder.receive g msg') := by
  cases hm with
  | addSender hs => exact .done { h with senders := List.rel_append h.senders (.cons hs .nil) }
  | notify hs n => exact .done { h with notifySender := .some hs, notifyCount := rfl }
  | testData seq =>
    obtain ⟨hfields, hresult⟩ := h.validateSequence seq
    simp only [SyncForwarder.receive, AsyncForwarder.receive, Forwarder.receive,
      SyncForwarder.handleConfig, AsyncForwarder.handleConfig, Forwarder.handleConfig]
    simp only [SyncForwarder.validateSequence, AsyncForwarder.validateSequence] at hfields hresult ⊢
    rcases Forwarder.validateSequence_cases f seq with ⟨nextSeq, hf⟩ | hf <;>
      rcases Forwarder.validateSequence_cases g seq with ⟨nextSeq', hg⟩ | hg <;>
      rw [hf, hg] at hfields hresult ⊢
    case inl.inl => exact (hfields.handleAction seq).bind fun _ _ hbc => hbc.handleNotification
    case inr.inr =>
      -- both panic, and the panic shows the same id and message
      simp only [h.id]
      exact .panic
    all_goals cases hresult

theorem feed (h : SameFields f g) {msgs msgs' : List (TestMessage κ)}
    (hm : List.Forall₂ SameMessage msgs msgs') :
    Call.Matches SameFields (Lib.Net.feed SyncForwarder.receive f msgs)
      (Lib.Net.feed AsyncForwarder.receive g msgs') :=
  Call.Matches.foldlM hm (fun _ _ _ _ hbc hs => hbc.receive hs) h

end SameFields

/-- The fallback arm of `handle_action` is dead: `handle_config` takes every message that is not data. -/
theorem Forwarder.receive_fallback (other other' : Forwarder κ → TestMessage κ → Sending κ (Forwarder κ))
    (send : TestMessageSender κ → TestMessage κ → Sending κ Unit) :
    receiveBy send other = receiveBy send other' := by
  funext f msg
  cases msg with
  | addSender sender => rfl
  | notify sender count => rfl
  | testData seq =>
    simp only [receiveBy, receive, handleConfig]
    rcases validateSequence_cases f seq with ⟨nextSeq, hv⟩ | hv
    · rw [hv]
      rfl
    · rw [hv]

theorem forwarders_interchangeable (id : ℕ) (msgs msgs' : List (TestMessage κ))
    (hm : List.Forall₂ SameMessage msgs msgs') (n : ℕ) :
    let s := feed SyncForwarder.receive (.new id) (msgs.take n)
    let a := feed AsyncForwarder.receive (.new id) (msgs'.take n)
    s.sends = a.sends ∧
    ((∃ f g, s.result = .ok f ∧ a.result = .ok g ∧ SameFields f g) ∨
      ∃ e, s.result = .error e ∧ a.result = .error e) ∧
    (∀ other, SyncForwarder.receive = Forwarder.receiveBy (κ := κ) sendCmd other) ∧
    (∀ other, AsyncForwarder.receive = Forwarder.receiveBy (κ := κ) sendCmdAsync other) := by
  intro s a
  have h : Call.Matches SameFields s a := (SameFields.new id).feed (List.forall₂_take n hm)
  exact ⟨h.sends, h.result, fun other => Forwarder.receive_fallback _ other _,
    fun other => Forwarder.receive_fallback _ other _⟩

theorem forwarders_interchangeable_sends :
    (feed AsyncForwarder.receive (.new 1) [.addSender (.tokioSender 7), .notify (.smolSender 5) 2,
      .addSender (.flumeSender 8), .testData 0, .testData 1]).sends =
    [(7, TestMessage.testData 0), (8, .testData 1), (7, .testData 2), (8, .testData 3),
      (5, .testData 2)] := by
  have hc : ∀ chan : ℕ, Corresponds (.crossbeamSender chan) (.tokioSender chan) :=
    fun _ => ⟨rfl, fun _ => rfl, fun _ => rfl⟩
  have hd : ∀ chan : ℕ, Corresponds (.d3Sender chan) (.smolSender chan) :=
    fun _ => ⟨rfl, fun _ => rfl, fun _ => rfl⟩
  have hf : ∀ chan : ℕ, Corresponds (.crossbeamSender chan) (.flumeSender chan) :=
    fun _ => ⟨rfl, fun _ => rfl, fun _ => rfl⟩
  have h := (forwarders_interchangeable 1 _ _ (.cons (.addSender (hc 7)) (.cons (.notify (hd 5) 2)
    (.cons (.addSender (hf 8)) (.cons (.testData 0) (.cons (.testData 1) .nil))))) 5).1
  exact h.symm

end ChannelExecutor.Experiment
