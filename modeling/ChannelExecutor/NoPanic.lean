import ChannelExecutor.PipelineSteps

set_option autoImplicit false

namespace ChannelExecutor.Experiment

open Lib (Call Net System)
open State

/-- Nothing is detached, and no configuration is left to send once data is sent. -/
structure Awaited (s : State) : Prop where
  tasks : s.tasks = []
  no_detach : ∀ op ∈ s.main, ∀ call, op ≠ .detach call
  early : s.runs ≠ 0 → ∀ c, configs (addressed c s.pending) = []

section Awaited

variable {d : Driver} {k : Params} {send : Send} {flavour : Chan → Sender}
variable {mode : Sending Chan Unit → Op} {K : Chan → Prop} {s t : State} {a : Act}

theorem awaited_start (hw : d.Wires k send flavour .block) : Awaited (start d k) :=
  ⟨rfl, hw.awaits rfl, fun h => absurd rfl h⟩

theorem Does.awaited (hs : Awaited s) (hw : d.Wires k send flavour .block) (h : Does d k s a t) :
    Awaited t := by
  have hearly : a ≠ .run → t.runs ≠ 0 → ∀ c, configs (addressed c t.pending) = [] := by
    intro ha hruns c
    obtain ⟨hturn, hr⟩ := does_turn h ha
    have hnil := hs.early (hr ▸ hruns) c
    have hsub : ∀ p ∈ t.pending, p ∈ s.pending := by
      cases hturn with
      | post hs hputs hnet => exact fun p hp => hs.pending_perm.mem_iff.mpr (List.mem_cons_of_mem _ hp)
      | quiet hs hnet => exact fun p hp => hs.pending_perm.mem_iff.mpr hp
      | take hs hc hnet => exact fun p hp => hs.pending_perm.mem_iff.mpr hp
      | accept hs hc hnet => exact fun p hp => hs.pending_perm.mem_iff.mpr hp
      | advance hs ha hnet => exact fun p hp => hs.pending_perm.mem_iff.mpr hp
    rw [configs, List.filter_eq_nil_iff] at hnil ⊢
    exact fun msg hmsg => hnil msg (mem_addressed.mpr (hsub _ (mem_addressed.mp hmsg)))
  have htail : ∀ {op ops}, s.main = op :: ops → ∀ op' ∈ ops, ∀ call, op' ≠ .detach call := by
    intro op ops hm op' hop'
    exact hs.no_detach op' (by simp [hm, hop'])
  cases h with
  | spawn h => exact ⟨hs.tasks, htail h, hearly (by simp)⟩
  | sent h => exact ⟨hs.tasks, htail h, hearly (by simp)⟩
  | send h hroom =>
    refine ⟨hs.tasks, ?_, hearly (by simp)⟩
    intro op hop
    rcases List.mem_cons.mp hop with rfl | hop
    · simp
    · exact htail h op hop
  | @detach call ops h => exact absurd rfl (hs.no_detach (.detach call) (by simp [h]) call)
  | recv h hn => exact ⟨hs.tasks, htail h, hearly (by simp)⟩
  | run hm =>
    refine ⟨hs.tasks, by simp [hw.run], ?_⟩
    intro _ c
    have hpending : State.pending { s with
        main := d.run (d.setup k.pipelines k.lanes k.messages).1, runs := s.runs + 1 } = k.data := by
      simp [State.pending, scripts, hw.run, hs.tasks]
    rw [hpending]
    exact configs_addressed_data k c
  | accept ht hidle hc hn => exact ⟨hs.tasks, hs.no_detach, hearly (by simp)⟩
  | advance hn => exact ⟨hs.tasks, hs.no_detach, hearly (by simp)⟩
  | @task j c msg rest h hroom =>
    rw [hs.tasks] at h
    simp at h

theorem Inv.config_first (hi : Inv d k flavour K s) (hs : Awaited s)
    (hw : d.Wires k send flavour mode) (hK : ∀ c ∈ k.channels, k.relays c → K c) :
    ConfigFirst (· ∈ k.channels) s a := by
  intro c seq hputs hc
  by_cases hr : s.runs = 0
  · -- there is no data to put into a channel
    obtain ⟨hline, hnone⟩ := hi.no_data hw hK hr
    exfalso
    unfold State.puts at hputs
    split at hputs
    next =>
      split at hputs
      next hm =>
        cases hputs
        have hmem : (c, TestMessage.testData seq) ∈ s.line := by
          rw [line_eq, mem_dataOf]
          exact ⟨by simp [State.pending, scripts, hm], seq, rfl⟩
        simp [hline] at hmem
      next => cases hputs
    next c' =>
      split at hputs
      next hcall =>
        cases hputs
        have := (hnone c' (hi.active c' (by simp [hcall]))).2
        simp [State.sends, Net.current, hcall] at this
      next => cases hputs
    next j =>
      rw [hs.tasks] at hputs
      simp at hputs
    next => cases hputs
  · intro hnil
    have := (hi.told c).length_eq
    simp [hnil, hs.early hr c, hc] at this

theorem reaches_awaited (hw : d.Wires k send flavour .block) (h : (system d k).Reachable s) :
    Inv d k flavour (· ∈ k.channels) s ∧ Awaited s := by
  refine System.Reaches.invariant (I := fun s => Inv d k flavour (· ∈ k.channels) s ∧ Awaited s) h
    ⟨inv_start hw, awaited_start hw⟩ ?_
  rintro s a t ⟨hi, hs⟩ - hstep
  have hK : ∀ c ∈ k.channels, k.relays c → c ∈ k.channels := fun _ hc _ => hc
  exact ⟨step_inv hi hw hK (hi.config_first hs hw hK) hstep, (step_does hstep).awaited hs hw⟩

theorem Inv.no_panic (hi : Inv d k flavour K s) (hw : d.Wires k send flavour mode)
    (hK : ∀ c ∈ k.channels, k.relays c → K c) (e : Panic Chan) : ¬ s.Panics e := by
  rintro (⟨c, hc⟩ | ⟨ops, hm⟩ | ⟨j, hj⟩)
  · obtain ⟨f, hf⟩ := (hi.sends_next hw hK (hi.active c (by simp [hc]))).2
    simp [Net.current, hc] at hf
  · have := hi.calm.1 (.block (.panic e)) (by simp [hm])
    simp [Op.result] at this
  · have := hi.calm.2 (.panic e) (List.mem_of_getElem? hj)
    simp at this

end Awaited

theorem never_panics {d : Driver} (hd : d ∈ awaitingDrivers) {k : Params} {s : State}
    (h : (system d k).Reachable s) (e : Panic Chan) : ¬ s.Panics e := by
  obtain ⟨send, flavour, hw⟩ := wires_awaiting hd k
  exact (reaches_awaited hw h).1.no_panic hw (fun _ hc _ => hc) e

def small : Params :=
  ⟨2, 1, 1, fun _ => 1, Nat.two_pos, Nat.one_pos, Nat.one_pos, fun _ => Nat.one_pos⟩

def smallRun : List Act := List.replicate 9 .main ++ [
  .receive 1 0, .advance (.lane 0 1), .receive 2 0, .advance (.lane 0 2),
  .receive 0 0, .advance .concentrator, .run, .main, .main,
  .receive 1 0, .advance (.lane 0 1), .advance (.lane 0 1),
  .receive 2 0, .advance (.lane 0 2), .advance (.lane 0 2),
  .receive 0 0, .advance .concentrator, .advance .concentrator, .main]

def afterSmallRun : State :=
  ((system crossbeamDriver small).exec (fun _ _ => true) (start crossbeamDriver small) smallRun).get rfl

theorem afterSmallRun_reachable : (system crossbeamDriver small).Reachable afterSmallRun :=
  System.Reaches.mono (fun _ _ _ => trivial) (System.exec_get _ _ _ _ rfl)

theorem never_panics_small :
    (afterSmallRun.runs = 1 ∧ afterSmallRun.main = []) ∧ ∀ e, ¬ afterSmallRun.Panics e :=
  ⟨⟨rfl, rfl⟩, never_panics (by simp [awaitingDrivers]) afterSmallRun_reachable⟩

end ChannelExecutor.Experiment
