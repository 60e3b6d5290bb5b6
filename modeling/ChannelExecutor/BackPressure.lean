import ChannelExecutor.EndOfRun

set_option autoImplicit false

namespace ChannelExecutor.Experiment

open Lib (Call Net System)
open State

section BackPressure

variable {d : Driver} {k : Params} {send : Send} {flavour : Chan → Sender}
variable {mode : Sending Chan Unit → Op} {s t : State}

theorem Inv.takes_step (hi : Inv d k flavour (· ∈ k.channels) s) (hs : Awaited s)
    (hw : d.Wires k send flavour mode) (hm : s.main ≠ []) :
    ∃ a t, a ≠ .run ∧ step d k s a = some t := by
  by_contra hnone
  apply hm
  apply hi.halted_rests hs hw
  intro a ha
  by_contra hstep
  obtain ⟨t, ht⟩ := Option.ne_none_iff_exists'.mp hstep
  exact hnone ⟨a, t, ha, ht⟩

theorem Awaited.config_send (hs : Awaited s) {c : Chan} {msg : Message}
    {rest : Sending Chan Unit} {ops : List Op}
    (hm : s.main = .block (.send c msg rest) :: ops) (hmsg : msg.seq? = none) : s.runs = 0 := by
  by_contra hr
  have hnil := hs.early hr c
  have hmem : msg ∈ configs (addressed c s.pending) := by
    refine List.mem_filter.mpr ⟨mem_addressed.mpr ?_, by simp [hmsg]⟩
    simp [State.pending, scripts, hm]
  rw [hnil] at hmem
  cases hmem

end BackPressure

theorem back_pressure_ends {k : Params} {s : State} (h : (system crossbeamDriver k).Reachable s) :
    (s.main ≠ [] → ∃ a t, a ≠ .run ∧ step crossbeamDriver k s a = some t) ∧
    (∀ a t, a ≠ .run → step crossbeamDriver k s a = some t → t.work k < s.work k) ∧
    (∀ c msg rest ops, s.main = .block (.send c msg rest) :: ops → msg.seq? = none →
      step crossbeamDriver k s .main ≠ none) ∧
    (∀ t, (system crossbeamDriver k).Reaches WithinRun s t →
      (system crossbeamDriver k).Stuck WithinRun t →
      t.main = [] ∧ t.runs = s.runs ∧ (t.net.got .notifier).length = s.runs) := by
  have hw := wires_crossbeam k
  have hK : ∀ c ∈ k.channels, k.relays c → c ∈ k.channels := fun _ hc _ => hc
  obtain ⟨hi, hs⟩ := reaches_awaited hw h
  refine ⟨hi.takes_step hs hw, fun a t ha hstep => hi.work_lt hw hK ha hstep, ?_, ?_⟩
  · intro c msg rest ops hm hmsg
    exact hi.setup_steps hw hK (hs.config_send hm hmsg) (by simp [hm])
  · intro t ht hstuck
    obtain ⟨hit, hm, hruns⟩ := run_ends hw h ht hstuck
    refine ⟨hm, hruns, ?_⟩
    cases hit.phase with
    | rest hne hg hr => exact hg.trans hruns
    | wait hm' hops hg => simp [hm] at hm'

theorem back_pressure_ends_small :
    withinSmallRun.main = [.recv .notifier] ∧
    (∃ a t, a ≠ .run ∧ step crossbeamDriver small withinSmallRun a = some t ∧
      t.work small < withinSmallRun.work small) ∧
    ∀ t, (system crossbeamDriver small).Reaches WithinRun withinSmallRun t →
      (system crossbeamDriver small).Stuck WithinRun t → t.main = [] ∧ t.runs = 1 := by
  have h := back_pressure_ends withinSmallRun_reachable
  obtain ⟨a, t, ha, hstep⟩ := h.1 (by simp [show withinSmallRun.main = [.recv .notifier] from rfl])
  refine ⟨rfl, ⟨a, t, ha, hstep, h.2.1 a t ha hstep⟩, ?_⟩
  intro t ht hstuck
  exact ⟨(h.2.2.2 t ht hstuck).1, (h.2.2.2 t ht hstuck).2.1⟩

end ChannelExecutor.Experiment
