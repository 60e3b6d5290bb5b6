import ChannelExecutor.ForwarderSteps
import ChannelExecutor.PipelineProgress

set_option autoImplicit false

namespace ChannelExecutor.Experiment

open Lib (Call Net System)
open Lib.Net (feed feed_cons feed_append)

variable {κ : Type}

def NotMissed (f : Forwarder κ) : Prop := f.notifySender.isSome → f.receivedCount < f.notifyCount

namespace Forwarder

variable {send : TestMessageSender κ → TestMessage κ → Sending κ Unit}
variable {other : Forwarder κ → TestMessage κ → Sending κ (Forwarder κ)} {f g : Forwarder κ}

theorem notMissed_data_iff {seq : ℕ}
    (h : (receiveBy send other f (.testData seq)).result = .ok g) : NotMissed g ↔ NotMissed f := by
  obtain ⟨sent, nextSeq, rfl⟩ := receive_data_ok h
  unfold notified
  by_cases hcount : f.receivedCount + 1 = f.notifyCount
  · -- the counters were cleared
    rw [if_pos hcount]
    simp only [NotMissed]
    constructor
    · intro _ _
      omega
    · intro _ _
      omega
  · rw [if_neg hcount]
    simp only [NotMissed]
    constructor
    · intro hg hs
      have := hg hs
      omega
    · intro hf hs
      have := hf hs
      omega

theorem feed_append_ok {msgs msgs' : List (TestMessage κ)} {receive : Forwarder κ → TestMessage κ →
      Sending κ (Forwarder κ)} (h : (feed receive f (msgs ++ msgs')).result = .ok g) :
    ∃ f', (feed receive f msgs).result = .ok f' ∧ (feed receive f' msgs').result = .ok g := by
  rw [feed_append] at h
  exact Call.bind_ok_iff.mp h

theorem feed_data_ok {seq : ℕ} {pre post : List (TestMessage κ)}
    (h : (feed (receiveBy send other) f (pre ++ .testData seq :: post)).result = .ok g) :
    ∃ before after, (feed (receiveBy send other) f pre).result = .ok before ∧
      (feed (receiveBy send other) f (pre ++ [.testData seq])).result = .ok after ∧
      (receiveBy send other before (.testData seq)).result = .ok after := by
  obtain ⟨before, hbefore, hrest⟩ := feed_append_ok h
  rw [feed_cons] at hrest
  obtain ⟨after, hafter, -⟩ := Call.bind_ok_iff.mp hrest
  refine ⟨before, after, hbefore, ?_, hafter⟩
  rw [feed_append, Call.bind_ok_iff]
  refine ⟨before, hbefore, ?_⟩
  rw [feed_cons, Call.bind_ok_iff]
  exact ⟨after, hafter, rfl⟩

/-- The last configuration in `msgs`, if there is one, comes while fewer than its `n` messages are
counted. -/
def LastInTime (receive : Forwarder κ → TestMessage κ → Sending κ (Forwarder κ)) (f : Forwarder κ)
    (msgs : List (TestMessage κ)) : Prop :=
  ∀ pre sender n mid b, msgs = pre ++ .notify sender n :: mid →
    (∀ sender' n', .notify sender' n' ∉ mid) → (feed receive f pre).result = .ok b →
    b.receivedCount < n

theorem lastInTime_cons {receive : Forwarder κ → TestMessage κ → Sending κ (Forwarder κ)}
    {msg : TestMessage κ} {msgs : List (TestMessage κ)} (hg : (receive f msg).result = .ok g) :
    LastInTime receive f (msg :: msgs) ↔
      (∀ sender n, msg = .notify sender n → (∀ sender' n', .notify sender' n' ∉ msgs) →
        f.receivedCount < n) ∧ LastInTime receive g msgs := by
  constructor
  · intro h
    constructor
    · rintro sender n rfl hlast
      exact h [] sender n msgs f rfl hlast rfl
    · rintro pre sender n mid b rfl hlast hb
      apply h (msg :: pre) sender n mid b rfl hlast
      rw [feed_cons, Call.bind_ok_iff]
      exact ⟨g, hg, hb⟩
  · rintro ⟨hfirst, hrest⟩ pre sender n mid b hmsgs hlast hb
    cases pre with
    | nil =>
      obtain ⟨rfl, rfl⟩ := List.cons.inj hmsgs
      obtain rfl : f = b := Except.ok.inj hb
      exact hfirst sender n rfl hlast
    | cons m pre =>
      obtain ⟨rfl, rfl⟩ := List.cons.inj hmsgs
      rw [feed_cons] at hb
      obtain ⟨b', hb', hpre⟩ := Call.bind_ok_iff.mp hb
      obtain rfl := Except.ok.inj (hg.symm.trans hb')
      exact hrest pre sender n mid b rfl hlast hpre

theorem notMissed_feed_iff {msgs : List (TestMessage κ)}
    (h : (feed (receiveBy send other) f msgs).result = .ok g) :
    NotMissed g ↔ ((∀ sender n, .notify sender n ∉ msgs) → NotMissed f) ∧
      LastInTime (receiveBy send other) f msgs := by
  induction msgs generalizing f with
  | nil =>
    obtain rfl : f = g := Except.ok.inj h
    simp [LastInTime]
  | cons msg msgs ih =>
    rw [feed_cons] at h
    obtain ⟨b, hb, hg⟩ := Call.bind_ok_iff.mp h
    rw [ih hg, lastInTime_cons hb]
    cases msg with
    | testData seq => simp [notMissed_data_iff hb]
    | addSender sender =>
      obtain rfl : _ = b := Except.ok.inj hb
      simp [NotMissed]
    | notify sender n =>
      obtain rfl : _ = b := Except.ok.inj hb
      have hset : NotMissed { f with notifySender := some sender, notifyCount := n } ↔
          f.receivedCount < n := by
        simp [NotMissed]
      constructor
      · rintro ⟨hfirst, hrest⟩
        refine ⟨fun hnone => absurd List.mem_cons_self (hnone sender n), ?_, hrest⟩
        rintro _ _ ⟨⟩ hlast
        exact hset.mp (hfirst hlast)
      · rintro ⟨-, hfirst, hrest⟩
        exact ⟨fun hlast => hset.mpr (hfirst sender n rfl hlast), hrest⟩

theorem notMissed_new (id : ℕ) : NotMissed (new id : Forwarder κ) := by
  intro h
  cases h

end Forwarder

section Drivers

variable {d : Driver} {k : Params} {send : Send} {flavour : Chan → Sender}
variable {mode : Sending Chan Unit → Op} {s : State}

theorem reaches_sound (hw : d.Wires k send flavour mode) (h : (system d k).Reachable s) :
    s.net.Sound d.receive newForwarder (· ∈ k.channels) := by
  refine (h.invariant (I := fun s => s.net.Sound d.receive newForwarder (· ∈ k.channels) ∧
    ∀ c, .recv c ∈ s.main → c = .notifier) ⟨Net.sound_start, ?_⟩ ?_).1
  · intro c hc
    exact absurd rfl (hw.configures.no_recv _ hc c)
  · rintro s a t ⟨hs, hrecv⟩ - hstep
    cases step_does hstep with
    | spawn hm => exact ⟨hs, fun c hc => hrecv c (hm ▸ List.mem_cons_of_mem _ hc)⟩
    | sent hm => exact ⟨hs, fun c hc => hrecv c (hm ▸ List.mem_cons_of_mem _ hc)⟩
    | send hm hroom =>
      refine ⟨hs.push _ _, fun c hc => ?_⟩
      have hmem := (List.mem_cons.mp hc).resolve_left (by simp)
      exact hrecv c (hm ▸ List.mem_cons_of_mem _ hmem)
    | detach hm => exact ⟨hs, fun c hc => hrecv c (hm ▸ List.mem_cons_of_mem _ hc)⟩
    | recv hm hn =>
      have hc := hrecv _ (hm ▸ List.mem_cons_self)
      subst hc
      exact ⟨hs.take k.notifier_not_mem hn, fun c hc => hrecv c (hm ▸ List.mem_cons_of_mem _ hc)⟩
    | run hm =>
      refine ⟨hs, fun c hc => ?_⟩
      rw [hw.run] at hc
      rcases hw.mode_cases with rfl | rfl <;> simpa using hc
    | accept ht hidle hc hn => exact ⟨hs.accept hn, hrecv⟩
    | advance hn => exact ⟨hs.advance hn, hrecv⟩
    | task hj hroom => exact ⟨hs.push _ _, hrecv⟩

end Drivers

section Runs

variable (k : ForwarderKind) (id : ℕ) (msgs : List (TestMessage κ))

def AfterData (P : Forwarder κ → Prop) : Prop :=
  ∀ pre seq post f, msgs = pre ++ .testData seq :: post →
    (feed k.receive (.new id) (pre ++ [.testData seq])).result = .ok f → P f

/-- A data message at a forwarder with a notifier for which `Due` holds is answered, after all that is
forwarded, with the notification. -/
def Notifies (Due : Forwarder κ → Prop) : Prop :=
  ∀ pre seq post f sender, msgs = pre ++ .testData seq :: post →
    (feed k.receive (.new id) pre).result = .ok f → f.notifySender = some sender → Due f →
    (k.receive f (.testData seq)).sends =
      (k.handleAction (f.validateSequence (.testData seq)).1 (.testData seq)).sends ++
        (k.send sender (.testData (f.receivedCount + 1))).sends

structure NeverMissed : Prop where
  below : AfterData k id msgs NotMissed
  sent : Notifies k id msgs fun f => f.notifyCount ≤ f.receivedCount + 1

def ConfiguredInTime : Prop :=
  ∀ pre seq post, msgs = pre ++ .testData seq :: post →
    Forwarder.LastInTime k.receive (.new id) pre

end Runs

section Exact

variable (k : ForwarderKind) {id : ℕ} {msgs : List (TestMessage κ)} {g : Forwarder κ}

theorem inTime_iff_notMissed (hok : (feed k.receive (.new id) msgs).result = .ok g) :
    ConfiguredInTime k id msgs ↔ ∀ pre seq post f, msgs = pre ++ .testData seq :: post →
      (feed k.receive (.new id) pre).result = .ok f → NotMissed f := by
  have hpre : ∀ {pre : List (TestMessage κ)} {f}, (feed k.receive (.new id) pre).result = .ok f →
      (NotMissed f ↔ Forwarder.LastInTime k.receive (.new id) pre) := by
    intro pre f hf
    rw [k.receive_eq] at hf ⊢
    rw [Forwarder.notMissed_feed_iff hf]
    exact and_iff_right fun _ => Forwarder.notMissed_new id
  constructor
  · intro htime pre seq post f hmsgs hf
    exact (hpre hf).mpr (htime pre seq post hmsgs)
  · rintro hbefore pre seq post rfl
    obtain ⟨f, hf, -⟩ := Forwarder.feed_append_ok hok
    exact (hpre hf).mp (hbefore pre seq post f rfl hf)

theorem afterData_iff_inTime (hok : (feed k.receive (.new id) msgs).result = .ok g) :
    AfterData k id msgs NotMissed ↔ ConfiguredInTime k id msgs := by
  rw [inTime_iff_notMissed k hok]
  simp only [AfterData]
  rw [k.receive_eq] at hok ⊢
  constructor
  · rintro hafter pre seq post f rfl hf
    obtain ⟨b, a, hb, ha, hstep⟩ := Forwarder.feed_data_ok hok
    obtain rfl := Except.ok.inj (hb.symm.trans hf)
    exact (Forwarder.notMissed_data_iff hstep).mp (hafter pre seq post a rfl ha)
  · rintro hbefore pre seq post f rfl hf
    obtain ⟨b, a, hb, ha, hstep⟩ := Forwarder.feed_data_ok hok
    obtain rfl := Except.ok.inj (ha.symm.trans hf)
    exact (Forwarder.notMissed_data_iff hstep).mpr (hbefore pre seq post b rfl hb)

theorem notifies_due (hok : (feed k.receive (.new id) msgs).result = .ok g) :
    Notifies k id msgs fun f => f.receivedCount + 1 = f.notifyCount := by
  rintro pre seq post f sender rfl hf hn hdue
  rw [k.receive_eq] at hok hf ⊢
  obtain ⟨b, a, hb, -, hstep⟩ := Forwarder.feed_data_ok hok
  obtain rfl := Except.ok.inj (hb.symm.trans hf)
  rw [k.handleAction_eq]
  exact Forwarder.receive_due_sends hstep hn hdue

theorem neverMissed_iff_inTime (hok : (feed k.receive (.new id) msgs).result = .ok g) :
    NeverMissed k id msgs ↔ ConfiguredInTime k id msgs := by
  constructor
  · intro h
    exact (afterData_iff_inTime k hok).mp h.below
  · intro htime
    refine ⟨(afterData_iff_inTime k hok).mpr htime, ?_⟩
    intro pre seq post f sender hmsgs hf hn hdue
    -- it is found below its threshold, so the count does not jump over it
    have hbelow := (inTime_iff_notMissed k hok).mp htime pre seq post f hmsgs hf (by simp [hn])
    exact notifies_due k hok pre seq post f sender hmsgs hf hn (by omega)

end Exact

/-- A notification is missed just where data comes after a configuration that came too late, in any
list of messages and in any run of the tokio driver. -/
theorem never_missed_iff (k : ForwarderKind) (id : ℕ) (msgs : List (TestMessage κ)) (g : Forwarder κ)
    (hok : (feed k.receive (.new id) msgs).result = .ok g) :
    ((NeverMissed k id msgs ↔ ConfiguredInTime k id msgs) ∧
      (AfterData k id msgs NotMissed ↔ ConfiguredInTime k id msgs) ∧
      Notifies k id msgs fun f => f.receivedCount + 1 = f.notifyCount) ∧
    (∀ (p : Params) (s : State), (system tokioDriver p).Reachable s → ∀ c ∈ p.channels, ∀ f,
      (s.net.current c).result = .ok f →
      (NeverMissed .async c.position (s.net.got c) ↔ ConfiguredInTime .async c.position (s.net.got c)) ∧
      (AfterData .async c.position (s.net.got c) NotMissed ↔
        ConfiguredInTime .async c.position (s.net.got c)) ∧
      Notifies .async c.position (s.net.got c) fun f => f.receivedCount + 1 = f.notifyCount) := by
  refine ⟨⟨neverMissed_iff_inTime k hok, afterData_iff_inTime k hok, notifies_due k hok⟩, ?_⟩
  intro p s h c hc f hf
  have hreplay := (reaches_sound (wires_tokio p) h).replay c hc
  have hresult := congrArg Call.result hreplay
  rw [Call.result_after, hf] at hresult
  exact ⟨neverMissed_iff_inTime .async hresult, afterData_iff_inTime .async hresult,
    notifies_due .async hresult⟩

def lateEnough : List (TestMessage ℕ) :=
  [.testData 0, .testData 1, .notify (.tokioSender 9) 3, .testData 2]

theorem configuredInTime_lateEnough : ConfiguredInTime .async 0 lateEnough := by
  rintro pre seq post hmsgs pre' sender n mid f rfl - hf
  obtain ⟨rfl, rfl⟩ : pre' = [.testData 0, .testData 1] ∧ n = 3 := by
    rcases pre' with _ | ⟨a, _ | ⟨b, _ | ⟨c, _ | ⟨d, pre'⟩⟩⟩⟩ <;> simp_all [lateEnough]
  obtain rfl := Except.ok.inj hf
  decide

theorem never_missed_iff_late_enough : NeverMissed .async 0 lateEnough ∧
    (feed AsyncForwarder.receive (.new 0) lateEnough).sends = [(9, .testData 3)] :=
  ⟨(never_missed_iff .async 0 lateEnough _ rfl).1.1.mpr configuredInTime_lateEnough, rfl⟩

theorem once_capacity_pos (_ : Chan) : 0 < 250 := Nat.succ_pos 249

def once : Params :=
  ⟨1, 1, 1, fun _ => 250, Nat.one_pos, Nat.one_pos, Nat.one_pos, once_capacity_pos⟩

def dataFirst : List Act := List.replicate 4 .main ++ [
  .run, .main, .task 2, .receive 1 0, .advance (.lane 0 1), .task 0, .receive 1 0,
  .advance (.lane 0 1), .task 1, .receive 0 0, .advance .concentrator]

def afterDataFirst : State :=
  ((system tokioDriver once).exec (fun _ _ => true) (start tokioDriver once) dataFirst).get rfl

/-- A threshold of 1 that comes after the first message is missed at the second one as well; under
the tokio driver the run then waits for ever. -/
theorem late_notify_missed :
    (∀ k ∈ [ForwarderKind.sync, .async], ∃ f : Forwarder ℕ,
      (feed k.receive (.new 0) [.testData 0, .notify (.tokioSender 9) 1, .testData 1]).result = .ok f ∧
      (feed k.receive (.new 0) [.testData 0, .notify (.tokioSender 9) 1, .testData 1]).sends = [] ∧
      ¬ NotMissed f) ∧
    (system tokioDriver once).Reachable afterDataFirst ∧
    (afterDataFirst.net.got (.lane 0 1) = [.testData 0, .notify (.tokioSender .concentrator) 1] ∧
      afterDataFirst.net.out (.lane 0 1) = [] ∧ afterDataFirst.main = [.recv .notifier] ∧
      ¬ NotMissed (afterDataFirst.net.proc (.lane 0 1))) := by
  refine ⟨?_, System.Reaches.mono (fun _ _ _ => trivial) (System.exec_get _ _ _ _ rfl), rfl, rfl,
    rfl, ?_⟩
  · intro k _
    cases k with
    | sync => exact ⟨_, rfl, rfl, fun h => absurd (h rfl) (by decide)⟩
    | async => exact ⟨_, rfl, rfl, fun h => absurd (h rfl) (by decide)⟩
  · intro h
    exact absurd (h rfl) (by decide)

end ChannelExecutor.Experiment
