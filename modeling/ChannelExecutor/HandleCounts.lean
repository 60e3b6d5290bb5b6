import ChannelExecutor.ChannelInvariant

set_option autoImplicit false

namespace ChannelExecutor.ChannelSystem

open Lib

variable {α : Type}

def liveSenders (s : State α) : ℕ := s.senders.count true

def liveReceivers (s : State α) : ℕ := s.receivers.count true

structure Exact (count live : ℕ) (refuses : Prop) : Prop where
  counted : count = live
  last : count = 0 ↔ live = 0
  guarded : refuses ↔ isizeMax < live

def ExactSenders (s : State α) : Prop :=
  Exact s.chan.senderCount (liveSenders s) (s.chan.cloneSender = none)

def ExactReceivers (s : State α) : Prop :=
  Exact s.chan.receiverCount (liveReceivers s) (s.chan.cloneReceiver = none)

theorem exactSenders_iff (s : State α) : ExactSenders s ↔ s.chan.senderCount = liveSenders s := by
  constructor
  · exact Exact.counted
  · intro hc
    refine ⟨hc, by rw [hc], ?_⟩
    simp [Channel.cloneSender, hc]

theorem exactReceivers_iff (s : State α) :
    ExactReceivers s ↔ s.chan.receiverCount = liveReceivers s := by
  constructor
  · exact Exact.counted
  · intro hc
    refine ⟨hc, by rw [hc], ?_⟩
    simp [Channel.cloneReceiver, hc]

structure Counted (s : State α) : Prop where
  sender : s.chan.senderCount = liveSenders s
  receiver : s.chan.receiverCount = s.receivers.length

theorem sendFuture_counts {ω : Type} {ch ch' : Channel α ω} {f f' : SendFuture α} {cx : ω}
    {e : Effect α ω} (h : f.Does ch cx ch' f' e) :
    ch'.senderCount = ch.senderCount ∧ ch'.receiverCount = ch.receiverCount := by
  cases h <;> exact ⟨rfl, rfl⟩

theorem recvFuture_counts {ω : Type} {ch ch' : Channel α ω} {f f' : RecvFuture α} {cx : ω}
    {e : Effect α ω} (h : f.Does ch cx ch' f' e) :
    ch'.senderCount = ch.senderCount ∧ ch'.receiverCount = ch.receiverCount := by
  cases h <;> exact ⟨rfl, rfl⟩

@[simp] theorem afterSend_handles (s : State α) (i : ℕ) (e : Effect α Ticket) :
    (s.afterSend i e).senders = s.senders ∧ (s.afterSend i e).receivers = s.receivers := by
  cases e <;> exact ⟨rfl, rfl⟩

@[simp] theorem afterRecv_handles (s : State α) (i : ℕ) (e : Effect α Ticket) :
    (s.afterRecv i e).senders = s.senders ∧ (s.afterRecv i e).receivers = s.receivers := by
  cases e <;> exact ⟨rfl, rfl⟩

theorem count_drop {handles : List Bool} {handle : ℕ} (h : handles[handle]? = some true) :
    (handles.set handle false).count true + 1 = handles.count true := by
  have := WaitSet.countP_set_some h (· == true) false
  simpa [List.count] using this

theorem Does.counted {s t : State α} {a : Act α} (h : Does s a t) (hc : Counted s) : Counted t := by
  obtain ⟨hs, hr⟩ := hc
  cases h with
  | @stepSend i key d ch f e hd hl hf =>
    obtain ⟨hs', hr'⟩ := sendFuture_counts hf
    constructor
    · simpa [liveSenders, State.putSend, hs'] using hs
    · simpa [State.putSend, hr'] using hr
  | @stepRecv i key d ch f e hd hl hf =>
    obtain ⟨hs', hr'⟩ := recvFuture_counts hf
    constructor
    · simpa [liveSenders, State.putRecv, hs'] using hs
    · simpa [State.putRecv, hr'] using hr
  | cloneSender hh => exact ⟨by simp [liveSenders, hs], hr⟩
  | cloneReceiver hh => exact ⟨hs, by simp [hr]⟩
  | @dropSender handle hh hb =>
    refine ⟨?_, hr⟩
    have := count_drop hh
    simp only [liveSenders] at hs ⊢
    omega
  | dropReceiver hh hb => exact ⟨hs, by simpa using hr⟩
  | _ => exact ⟨hs, hr⟩

theorem reaches_counted {cap : Option ℕ} {ok : State α → Act α → Prop} {s : State α}
    (h : (system cap).ReachableBy ok s) : Counted s := by
  refine (h.invariant (I := fun s => Inv s ∧ Counted s) ⟨inv_start cap, ?_⟩ ?_).2
  · cases cap <;> exact ⟨rfl, rfl⟩
  · rintro s a t ⟨hi, hc⟩ - hstep
    exact ⟨step_inv hi hstep, (step_does hi.connected hstep).counted hc⟩

theorem exactReceivers_iff_none_dropped {s : State α} (h : Counted s) :
    ExactReceivers s ↔ false ∉ s.receivers := by
  rw [exactReceivers_iff, h.receiver, liveReceivers, eq_comm, List.count_eq_length]
  constructor
  · intro hall hmem
    cases hall false hmem
  · intro hnot b hb
    cases b with
    | true => rfl
    | false => exact absurd hb hnot

def keepsReceivers (_ : State α) : Act α → Bool
  | .dropReceiver _ => false
  | _ => true

theorem Does.receivers_kept {s t : State α} {a : Act α} (h : Does s a t)
    (ha : keepsReceivers s a = true) (hn : false ∉ s.receivers) : false ∉ t.receivers := by
  cases h with
  | dropReceiver hh hb => cases ha
  | cloneReceiver hh => simpa using hn
  | stepSend hd hl hf => simpa [State.putSend] using hn
  | stepRecv hd hl hf => simpa [State.putRecv] using hn
  | _ => exact hn

theorem reaches_none_dropped {cap : Option ℕ} {s : State α}
    (h : (system cap).ReachableBy (fun s a => keepsReceivers s a = true) s) :
    false ∉ s.receivers := by
  refine (h.invariant (I := fun s => Inv s ∧ false ∉ s.receivers) ⟨inv_start cap, ?_⟩ ?_).2
  · simp [system, start]
  · rintro s a t ⟨hi, hn⟩ ha hstep
    exact ⟨step_inv hi hstep, (step_does hi.connected hstep).receivers_kept ha hn⟩

/-- The count of senders is exact in every state; the count of receivers is exact in just those
states in which no `Receiver` was dropped yet. -/
theorem handle_counts_exact_iff (cap : Option ℕ) :
    (∀ s : State α, (system cap).Reachable s →
      ExactSenders s ∧ (ExactReceivers s ↔ false ∉ s.receivers)) ∧
    (∀ s : State α, (system cap).ReachableBy (fun s a => keepsReceivers s a = true) s →
      ExactSenders s ∧ ExactReceivers s) := by
  constructor
  · intro s h
    have hc := reaches_counted h
    exact ⟨(exactSenders_iff s).mpr hc.sender, exactReceivers_iff_none_dropped hc⟩
  · intro s h
    have hc := reaches_counted h
    exact ⟨(exactSenders_iff s).mpr hc.sender,
      (exactReceivers_iff_none_dropped hc).mpr (reaches_none_dropped h)⟩

theorem handle_counts_exact_iff_run : ∃ s : State ℕ, ExactSenders s ∧ ExactReceivers s ∧
    s.chan.senderCount = 1 ∧ s.chan.receiverCount = 2 :=
  have h := System.exec_get (system (some 1)) keepsReceivers (start (channel (some 1)))
    [.cloneSender 0, .cloneReceiver 0, .dropSender 0] rfl
  ⟨_, ((handle_counts_exact_iff _).2 _ h).1, ((handle_counts_exact_iff _).2 _ h).2, rfl, rfl⟩

theorem dropped_receiver_counted : ∃ s t : State ℕ, (system (some 1)).Reachable s ∧
    step s (.dropReceiver 0) = some t ∧ liveReceivers t = 0 ∧ t.chan.receiverCount = 1 ∧
    ¬ ExactReceivers t := by
  refine ⟨_, _, .refl, rfl, rfl, rfl, ?_⟩
  intro h
  exact absurd h.counted (by decide)

section Leaks

def State.leakReceiver (s : State α) : State α :=
  { s with
    chan := { s.chan with receiverCount := s.chan.receiverCount + 1 }
    receivers := s.receivers ++ [false] }

theorem leaks {cap : Option ℕ} {s : State α} (h : s.receivers[0]? = some true) (hr : s.recvs = [])
    (hc : s.chan.receiverCount ≤ isizeMax) :
    (system cap).Reaches System.Anything s s.leakReceiver := by
  have hguard : ¬ s.chan.receiverCount > isizeMax := Nat.not_lt.mpr hc
  have hclone : (system cap).step s (.cloneReceiver 0) =
      some { s.leakReceiver with receivers := s.receivers ++ [true] } := by
    simp [system, step, h, Channel.cloneReceiver, hguard, State.leakReceiver]
  have hdrop : (system cap).step { s.leakReceiver with receivers := s.receivers ++ [true] }
      (.dropReceiver s.receivers.length) = some s.leakReceiver := by
    simp [system, step, hr, State.leakReceiver]
  exact (System.Reaches.single trivial hclone).step trivial hdrop

theorem exists_leaked (cap : Option ℕ) {n : ℕ} (hn : n ≤ isizeMax) : ∃ s : State α,
    (system cap).Reachable s ∧ s.recvs = [] ∧ s.chan.receiverCount = n + 1 ∧
    s.receivers = true :: List.replicate n false := by
  induction n with
  | zero => exact ⟨start (channel cap), .refl, rfl, by cases cap <;> rfl, rfl⟩
  | succ n ih =>
    obtain ⟨s, hs, hr, hc, hl⟩ := ih (Nat.le_of_succ_le hn)
    refine ⟨s.leakReceiver, hs.trans (leaks (by simp [hl]) hr (by omega)), hr, ?_, ?_⟩
    · rw [← hc]
      rfl
    · simp [State.leakReceiver, hl, List.replicate_succ']

end Leaks

theorem guard_refuses_single (cap : Option ℕ) : ∃ s : State α, (system cap).Reachable s ∧
    liveReceivers s = 1 ∧ s.chan.cloneReceiver = none := by
  obtain ⟨s, hs, -, hc, hl⟩ := exists_leaked (α := α) cap (Nat.le_refl isizeMax)
  refine ⟨s, hs, ?_, ?_⟩
  · simp [liveReceivers, hl, List.count_replicate]
  · simp [Channel.cloneReceiver, hc]

end ChannelExecutor.ChannelSystem
