import ChannelExecutor.ChannelInvariant
import ChannelExecutor.Lib.Amortized

set_option autoImplicit false

namespace ChannelExecutor.ChannelSystem

open Lib Lib.WaitSet

variable {α : Type}

/-- The steps a poll still makes at most as long as no message moves; `blocked` says that the channel
is full for a sender, or empty for a receiver. -/
def effort (blocked : Bool) : Stage → ℕ
  | .start => if blocked then 4 else 3
  | .trying => if blocked then 3 else 2
  | .inserting => if blocked then 2 else 5
  | .checking => if blocked then 1 else 4
  | .notifying => 1
  | _ => 0

def strain (blocked : Bool) (stages : List Stage) : ℕ := (stages.map (effort blocked)).sum

def sendStages (s : State α) : List Stage := s.sends.map fun d => d.fut.point.stage

def recvStages (s : State α) : List Stage := s.recvs.map fun d => d.fut.point.stage

def inPoll (s : State α) : ℕ :=
  (sendStages s).countP Stage.inPoll + (recvStages s).countP Stage.inPoll

def moved (s : State α) : ℕ := s.history.enqueued.length + s.history.handedOut.length

def exertion (full empty : Bool) (s : State α) : ℕ :=
  strain full (sendStages s) + strain empty (recvStages s)

def isPoll : Act α → Bool
  | .pollSend _ | .pollRecv _ => true
  | _ => false

def isPollStep : Act α → Bool
  | .stepSend _ _ | .stepRecv _ _ => true
  | _ => false

theorem strain_switch (b b' : Bool) (stages : List Stage) :
    strain b stages ≤ strain b' stages + 3 * stages.countP Stage.inPoll := by
  induction stages with
  | nil => simp [strain]
  | cons st stages ih =>
    simp only [strain, List.map_cons, List.sum_cons, List.countP_cons] at ih ⊢
    have hone : effort b st ≤ effort b' st + 3 * if st.inPoll then 1 else 0 := by
      cases st <;> cases b <;> cases b' <;> decide
    omega

theorem strain_le (b : Bool) (stages : List Stage) :
    strain b stages ≤ 5 * stages.countP Stage.inPoll := by
  induction stages with
  | nil => simp [strain]
  | cons st stages ih =>
    simp only [strain, List.map_cons, List.sum_cons, List.countP_cons] at ih ⊢
    have hone : effort b st ≤ 5 * if st.inPoll then 1 else 0 := by
      cases st <;> cases b <;> decide
    omega

theorem exertion_switch (full empty full' empty' : Bool) (s : State α) :
    exertion full empty s ≤ exertion full' empty' s + 3 * inPoll s := by
  have hsend := strain_switch full full' (sendStages s)
  have hrecv := strain_switch empty empty' (recvStages s)
  simp only [exertion, inPoll]
  omega

theorem exertion_le (full empty : Bool) (s : State α) : exertion full empty s ≤ 5 * inPoll s := by
  have hsend := strain_le full (sendStages s)
  have hrecv := strain_le empty (recvStages s)
  simp only [exertion, inPoll]
  omega

theorem effort_start (b : Bool) : effort b .trying + 1 ≤ effort b .start := by cases b <;> decide

theorem effort_inserting (b : Bool) : effort b .checking + 1 ≤ effort b .inserting := by
  cases b <;> decide

theorem effort_panic (b : Bool) : effort b .panicked + 1 ≤ effort b .start := by cases b <;> decide

theorem sendFuture_effort {ω : Type} {ch ch' : Channel α ω} {f f' : SendFuture α} {cx : ω} {e : Effect α ω}
    (h : f.Does ch cx ch' f' e) :
    effort ch.inner.isFull f'.point.stage + 1 ≤ effort ch.inner.isFull f.point.stage := by
  cases h with
  | unwrap hp hm => simpa only [hp, Point.stage] using effort_panic _
  | begin hp hm hk => simpa only [hp, Point.stage] using effort_start _
  | release hp hm hk hr => simpa only [hp, Point.stage] using effort_start _
  | vacant hp hm hk hr => simpa only [hp, Point.stage] using effort_panic _
  | push hp hfull hq hcap hc => simp [hp, hfull, Point.stage, effort]
  | full hp hfull => simp [hp, hfull, Point.stage, effort]
  | register hp hr => simpa only [hp, Point.stage] using effort_inserting _
  | sleep hp hfull => simp [hp, hfull, Point.stage, effort]
  | retry hp hfull => simp [hp, hfull, Point.stage, effort]
  | notify hp => simp [hp, Point.stage, effort]

theorem recvFuture_effort {ω : Type} {ch ch' : Channel α ω} {f f' : RecvFuture α} {cx : ω} {e : Effect α ω}
    (h : f.Does ch cx ch' f' e) :
    effort ch.inner.isEmpty f'.point.stage + 1 ≤ effort ch.inner.isEmpty f.point.stage := by
  cases h with
  | begin hp hk => simpa only [hp, Point.stage] using effort_start _
  | release hp hk hr => simpa only [hp, Point.stage] using effort_start _
  | vacant hp hk hr => simpa only [hp, Point.stage] using effort_panic _
  | pop hp hq hcap hc => simp [hp, hq, Crossbeam.isEmpty, Point.stage, effort]
  | empty hp hq => simp [hp, hq, Crossbeam.isEmpty, Point.stage, effort]
  | register hp hr => simpa only [hp, Point.stage] using effort_inserting _
  | sleep hp hq => simp [hp, hq, Crossbeam.isEmpty, Point.stage, effort]
  | retry hp hq => simp [hp, hq, Crossbeam.isEmpty, Point.stage, effort]
  | notify hp => simp [hp, Point.stage, effort]

section Steps

variable {s t : State α} {i : ℕ}

theorem strain_set {b : Bool} {stages : List Stage} {x y : Stage} (hx : stages[i]? = some x) :
    strain b (stages.set i y) + effort b x = strain b stages + effort b y :=
  sum_map_set (effort b) hx y

theorem strain_append (b : Bool) (stages : List Stage) (x : Stage) :
    strain b (stages ++ [x]) = strain b stages + effort b x := by
  simp [strain]

theorem sendStages_get {d : Driven (SendFuture α)} (hd : s.sends[i]? = some d) :
    (sendStages s)[i]? = some d.fut.point.stage := by simp [sendStages, hd]

theorem recvStages_get {d : Driven (RecvFuture α)} (hd : s.recvs[i]? = some d) :
    (recvStages s)[i]? = some d.fut.point.stage := by simp [recvStages, hd]

theorem sendStages_putSend (d : Driven (SendFuture α)) :
    sendStages (s.putSend i d) = (sendStages s).set i d.fut.point.stage := by
  simp [sendStages, State.putSend, List.map_set]

theorem recvStages_putRecv (d : Driven (RecvFuture α)) :
    recvStages (s.putRecv i d) = (recvStages s).set i d.fut.point.stage := by
  simp [recvStages, State.putRecv, List.map_set]

theorem sendStages_join (s : State α) (msg : α) (handle : ℕ) (h : History α) :
    sendStages { s with sends := s.sends ++ [.new (.new msg) handle], history := h } =
      sendStages s ++ [.fresh] := by
  simp only [sendStages, List.map_append]
  rfl

theorem recvStages_join (s : State α) (handle : ℕ) :
    recvStages { s with recvs := s.recvs ++ [.new .new handle] } = recvStages s ++ [.fresh] := by
  simp only [recvStages, List.map_append]
  rfl

theorem sendStages_eq (s : State α) : sendStages s = (sendFuts s).map fun f => f.point.stage := by
  simp [sendStages, sendFuts]

theorem recvStages_eq (s : State α) : recvStages s = (recvFuts s).map fun f => f.point.stage := by
  simp [recvStages, recvFuts]

theorem stages_afterSend (s : State α) (i : ℕ) (e : Effect α Ticket) :
    sendStages (s.afterSend i e) = sendStages s ∧ recvStages (s.afterSend i e) = recvStages s := by
  simp [sendStages_eq, recvStages_eq]

theorem stages_afterRecv (s : State α) (i : ℕ) (e : Effect α Ticket) :
    sendStages (s.afterRecv i e) = sendStages s ∧ recvStages (s.afterRecv i e) = recvStages s := by
  simp [sendStages_eq, recvStages_eq]

theorem stages_stepSend (s : State α) (ch : Channel α Ticket) (i : ℕ) (d : Driven (SendFuture α))
    (f : SendFuture α) (e : Effect α Ticket) :
    sendStages ((({ s with chan := ch }).putSend i { d with fut := f }).afterSend i e) =
        (sendStages s).set i f.point.stage ∧
      recvStages ((({ s with chan := ch }).putSend i { d with fut := f }).afterSend i e) =
        recvStages s := by
  obtain ⟨hsend, hrecv⟩ := stages_afterSend (({ s with chan := ch }).putSend i { d with fut := f }) i e
  rw [hsend, hrecv]
  exact ⟨sendStages_putSend _, rfl⟩

theorem stages_stepRecv (s : State α) (ch : Channel α Ticket) (i : ℕ) (d : Driven (RecvFuture α))
    (f : RecvFuture α) (e : Effect α Ticket) :
    sendStages ((({ s with chan := ch }).putRecv i { d with fut := f }).afterRecv i e) =
        sendStages s ∧
      recvStages ((({ s with chan := ch }).putRecv i { d with fut := f }).afterRecv i e) =
        (recvStages s).set i f.point.stage := by
  obtain ⟨hsend, hrecv⟩ := stages_afterRecv (({ s with chan := ch }).putRecv i { d with fut := f }) i e
  rw [hsend, hrecv]
  exact ⟨rfl, recvStages_putRecv _⟩

theorem Does.exertion {a : Act α} (h : Does s a t) :
    (isPollStep a).toNat + exertion s.chan.inner.isFull s.chan.inner.isEmpty t ≤
      exertion s.chan.inner.isFull s.chan.inner.isEmpty s + 4 * (isPoll a).toNat := by
  cases h with
  | send hh =>
    simp [ChannelSystem.exertion, sendStages_join, recvStages, strain_append, effort, isPoll, isPollStep]
  | recv hh =>
    simp [ChannelSystem.exertion, recvStages_join, sendStages, strain_append, effort, isPoll, isPollStep]
  | @pollSend i d hd hl hp =>
    have hset := strain_set (b := s.chan.inner.isFull) (y := .start) (sendStages_get hd)
    have hstart : effort s.chan.inner.isFull .start ≤ 4 := by simp only [effort]; split <;> decide
    have hput := sendStages_putSend (s := s) (i := i)
      { d with fut := { d.fut with point := .start }, polls := d.polls + 1, woken := false }
    have hrecv : recvStages (s.putSend i { d with
        fut := { d.fut with point := .start }, polls := d.polls + 1, woken := false }) = recvStages s := rfl
    simp only [ChannelSystem.exertion, hput, hrecv, Point.stage, isPoll, isPollStep, Bool.toNat_true,
      Bool.toNat_false]
    omega
  | @pollRecv i d hd hl hp =>
    have hset := strain_set (b := s.chan.inner.isEmpty) (y := .start) (recvStages_get hd)
    have hstart : effort s.chan.inner.isEmpty .start ≤ 4 := by simp only [effort]; split <;> decide
    have hput := recvStages_putRecv (s := s) (i := i)
      { d with fut := { d.fut with point := .start }, polls := d.polls + 1, woken := false }
    have hsend : sendStages (s.putRecv i { d with
        fut := { d.fut with point := .start }, polls := d.polls + 1, woken := false }) = sendStages s := rfl
    simp only [ChannelSystem.exertion, hput, hsend, Point.stage, isPoll, isPollStep, Bool.toNat_true,
      Bool.toNat_false]
    omega
  | @stepSend i key d ch f e hd hl hf =>
    have hset := strain_set (b := s.chan.inner.isFull) (y := f.point.stage) (sendStages_get hd)
    have hone := sendFuture_effort hf
    obtain ⟨hsend, hrecv⟩ := stages_stepSend s ch i d f e
    simp only [ChannelSystem.exertion, hsend, hrecv, isPoll, isPollStep, Bool.toNat_true,
      Bool.toNat_false]
    omega
  | @stepRecv i key d ch f e hd hl hf =>
    have hset := strain_set (b := s.chan.inner.isEmpty) (y := f.point.stage) (recvStages_get hd)
    have hone := recvFuture_effort hf
    obtain ⟨hsend, hrecv⟩ := stages_stepRecv s ch i d f e
    simp only [ChannelSystem.exertion, hsend, hrecv, isPoll, isPollStep, Bool.toNat_true,
      Bool.toNat_false]
    omega
  | @dropSend i d hd hl hp =>
    have hput : sendStages (s.putSend i { d with dropped := true }) = sendStages s := by
      rw [sendStages_eq, sendStages_eq]
      exact congrArg _ (set_futs hd rfl)
    have hrecv : recvStages (s.putSend i { d with dropped := true }) = recvStages s := rfl
    simp [ChannelSystem.exertion, hput, hrecv, isPoll, isPollStep]
  | @dropRecv i d hd hl hp =>
    have hput : recvStages (s.putRecv i { d with dropped := true }) = recvStages s := by
      rw [recvStages_eq, recvStages_eq]
      exact congrArg _ (set_futs hd rfl)
    have hsend : sendStages (s.putRecv i { d with dropped := true }) = sendStages s := rfl
    simp [ChannelSystem.exertion, hput, hsend, isPoll, isPollStep]
  | _ => simp [ChannelSystem.exertion, sendStages, recvStages, isPoll, isPollStep]

theorem Does.moved {a : Act α} (h : Does s a t) :
    t.chan.inner = s.chan.inner ∧ moved t = moved s ∨
      moved t = moved s + 1 ∧ inPoll t ≤ inPoll s := by
  cases h with
  | @stepSend i key d ch f e hd hl hf =>
    obtain ⟨hsend, hrecv⟩ := stages_stepSend s ch i d f e
    cases hf with
    | push hp hfull hq hcap hc =>
      refine .inr ⟨?_, ?_⟩
      · simp only [ChannelSystem.moved, State.afterSend, State.putSend, History.push, List.length_append,
          List.length_singleton]
        omega
      · have hcount := countP_set_some (sendStages_get hd) Stage.inPoll .notifying
        simp only [hp, Point.stage, Stage.inPoll, if_true] at hcount
        simp only [inPoll, hsend, hrecv, Point.stage]
        omega
    | _ => exact .inl ⟨rfl, rfl⟩
  | @stepRecv i key d ch f e hd hl hf =>
    obtain ⟨hsend, hrecv⟩ := stages_stepRecv s ch i d f e
    cases hf with
    | pop hp hq hcap hc =>
      refine .inr ⟨?_, ?_⟩
      · simp only [ChannelSystem.moved, State.afterRecv, State.putRecv, History.pop, List.length_append,
          List.length_singleton]
        omega
      · have hcount := countP_set_some (recvStages_get hd) Stage.inPoll .notifying
        simp only [hp, Point.stage, Stage.inPoll, if_true] at hcount
        simp only [inPoll, hsend, hrecv, Point.stage]
        omega
    | _ => exact .inl ⟨rfl, rfl⟩
  | trySendOk hh hfull hq hcap hc =>
    refine .inr ⟨?_, Nat.le_refl _⟩
    simp only [ChannelSystem.moved, List.length_append, List.length_singleton]
    omega
  | tryRecvOk hh hq hcap hc =>
    refine .inr ⟨?_, Nat.le_refl _⟩
    simp only [ChannelSystem.moved, List.length_append, List.length_singleton]
    omega
  | _ => exact .inl ⟨rfl, rfl⟩

def pressure (s : State α) : ℕ := exertion s.chan.inner.isFull s.chan.inner.isEmpty s

/-- A message that moves sends each of the polls under way round once more, which is three steps. -/
theorem Does.pressure {a : Act α} (h : Does s a t) {n : ℕ} (hn : inPoll s ≤ n) :
    (isPollStep a).toNat + pressure t + 3 * n * ChannelSystem.moved s ≤
      pressure s + 4 * (isPoll a).toNat + 3 * n * ChannelSystem.moved t := by
  have hpay := h.exertion
  rcases h.moved with ⟨hinner, hmoved⟩ | ⟨hmoved, hpolls⟩
  · rw [hmoved, ChannelSystem.pressure, ChannelSystem.pressure, hinner]
    omega
  · have hswitch := exertion_switch t.chan.inner.isFull t.chan.inner.isEmpty s.chan.inner.isFull
      s.chan.inner.isEmpty t
    have hmul : 3 * n * ChannelSystem.moved t = 3 * n * ChannelSystem.moved s + 3 * n := by
      rw [hmoved, Nat.mul_succ]
    simp only [ChannelSystem.pressure]
    omega

end Steps

theorem exists_insert {β : Type} (s : Slab β) (a : β) : ∃ k t, s.insert k a = some t :=
  ⟨s.slots.length, _, Slab.insert_eq_some.mpr ⟨by simp [Slab.get], rfl⟩⟩

theorem sendFuture_steps {ω : Type} {f : SendFuture α} (h : f.point.stage.inPoll = true)
    (ch : Channel α ω) (cx : ω) : ∃ key r, f.step ch cx key = some r := by
  obtain ⟨msg, optKey, point⟩ := f
  cases point with
  | start =>
    refine ⟨0, ?_⟩
    cases msg with
    | none => exact ⟨_, rfl⟩
    | some msg =>
      cases optKey with
      | none => exact ⟨_, rfl⟩
      | some k => cases hr : ch.sendWakers.remove k <;> simp [SendFuture.step, hr]
  | trying msg =>
    refine ⟨0, ?_⟩
    rcases hr : ch.trySend msg with ⟨ch', out⟩
    rcases out with e | u
    · cases e <;> simp [SendFuture.step, hr]
    · simp [SendFuture.step, hr]
  | inserting =>
    obtain ⟨key, slab, hs⟩ := exists_insert ch.sendWakers.slab (some cx)
    exact ⟨key, _, by simp [SendFuture.step, WakerSet.insert, hs]; rfl⟩
  | checking =>
    refine ⟨0, ?_⟩
    simp only [SendFuture.step]
    split <;> exact ⟨_, rfl⟩
  | notifying u => exact ⟨0, _, rfl⟩
  | fresh => cases h
  | pending => cases h
  | ready => cases h
  | panicked => cases h

theorem recvFuture_steps {ω : Type} {f : RecvFuture α} (h : f.point.stage.inPoll = true)
    (ch : Channel α ω) (cx : ω) : ∃ key r, f.step ch cx key = some r := by
  obtain ⟨optKey, point⟩ := f
  cases point with
  | start =>
    refine ⟨0, ?_⟩
    cases optKey with
    | none => exact ⟨_, rfl⟩
    | some k => cases hr : ch.recvWakers.remove k <;> simp [RecvFuture.step, hr]
  | trying u =>
    refine ⟨0, ?_⟩
    rcases hr : ch.tryRecv with ⟨ch', out⟩
    rcases out with e | msg
    · cases e <;> simp [RecvFuture.step, hr]
    · simp [RecvFuture.step, hr]
  | inserting =>
    obtain ⟨key, slab, hs⟩ := exists_insert ch.recvWakers.slab (some cx)
    exact ⟨key, _, by simp [RecvFuture.step, WakerSet.insert, hs]; rfl⟩
  | checking =>
    refine ⟨0, ?_⟩
    simp only [RecvFuture.step]
    split <;> exact ⟨_, rfl⟩
  | notifying msg => exact ⟨0, _, rfl⟩
  | fresh => cases h
  | pending => cases h
  | ready => cases h
  | panicked => cases h

/-- In a run with never more than `n` futures in the middle of a poll, the polls begun and the messages
moved pay for all the steps of polls. -/
theorem poll_steps_bounded {cap : Option ℕ} {s : State α} (h : (system cap).Reachable s) {n : ℕ}
    {as : List (Act α)} {t : State α}
    (hrun : (system cap).exec (fun s _ => decide (inPoll s ≤ n)) s as = some t) :
    as.countP isPollStep ≤ 5 * inPoll s + 4 * as.countP isPoll + 3 * n * (moved t - moved s) := by
  have hpaid := System.exec_tally (S := system cap) (I := Inv) (p := isPollStep) (q := fun _ => isPoll)
    (k := 4) (w := pressure) (c := fun s => 3 * n * moved s)
    (fun s a t hi hok hstep => ⟨step_inv hi hstep,
      (step_does hi.connected hstep).pressure (of_decide_eq_true hok)⟩) (reaches_inv h).1 hrun
  have hle := exertion_le s.chan.inner.isFull s.chan.inner.isEmpty s
  rw [System.tally_countP hrun] at hpaid
  rw [Nat.mul_sub]
  simp only [pressure] at hpaid
  omega

def goneRound : State ℕ :=
  ((system (some 1)).exec (fun _ _ => true) (start (channel (some 1))) [.recv 0, .pollRecv 0,
    .stepRecv 0 0, .stepRecv 0 0, .stepRecv 0 0, .trySend 0 7, .stepRecv 0 0]).get rfl

theorem goneRound_reachable : (system (some 1)).Reachable goneRound :=
  System.ReachableBy.reachable (System.exec_get _ _ _ _ rfl)

def handedOver : State ℕ :=
  ((system (some 1)).exec (fun s _ => decide (inPoll s ≤ 1)) goneRound
    [.stepRecv 0 0, .stepRecv 0 0, .stepRecv 0 0]).get rfl

theorem poll_steps_bounded_run : inPoll goneRound = 1 ∧ moved handedOver = 2 ∧
    [Act.stepRecv (α := ℕ) 0 0, .stepRecv 0 0, .stepRecv 0 0].countP isPollStep ≤
      5 * inPoll goneRound + 4 * 0 + 3 * 1 * (moved handedOver - moved goneRound) :=
  ⟨rfl, rfl, poll_steps_bounded goneRound_reachable (Option.some_get _).symm⟩

end ChannelExecutor.ChannelSystem
