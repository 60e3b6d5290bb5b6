import ChannelExecutor.PipelineSteps

set_option autoImplicit false

namespace ChannelExecutor.Experiment

open Lib (Call Net System)
open State

def Halted (d : Driver) (k : Params) (s : State) : Prop := ∀ a, a ≠ .run → step d k s a = none

section Progress

variable {d : Driver} {k : Params} {send : Send} {flavour : Chan → Sender}
variable {mode : Sending Chan Unit → Op} {K : Chan → Prop} {s : State}

theorem Inv.got_notifier_ge (hi : Inv d k flavour K s) :
    s.runs ≤ (s.net.got .notifier).length + 1 := by
  cases hi.phase with
  | rest hne hg hr => omega
  | wait hm hops hg => omega

theorem Inv.notifier_room (hi : Inv d k flavour K s) (hw : d.Wires k send flavour mode)
    (hK : ∀ c ∈ k.channels, k.relays c → K c) (hdue : (s.net.current .concentrator).sends ≠ []) :
    s.net.queue .notifier = [] := by
  have hsends := hi.notifications_le hw hK
  have hput := congrArg List.length hi.notified
  have hfifo := congrArg List.length (hi.sound.fifo .notifier)
  have hgot := hi.got_notifier_ge
  have hpos := List.length_pos_iff.mpr hdue
  simp only [State.sends, List.length_append, List.length_map] at hsends hput hfifo
  exact List.length_eq_zero_iff.mp (by omega)

theorem Inv.call_none (hi : Inv d k flavour K s) (hw : d.Wires k send flavour mode)
    (hK : ∀ c ∈ k.channels, k.relays c → K c) {c : Chan} (hc : c ∈ k.channels)
    (hh : s.net.advance k.capacity c = none)
    (hnext : c ≠ .concentrator → s.net.queue (k.next c) = []) : s.net.call c = none := by
  by_contra hcall
  obtain ⟨call, hcall⟩ := Option.ne_none_iff_exists'.mp hcall
  have hcur : s.net.current c = call := by simp [Net.current, hcall]
  obtain ⟨hsends, f, hf⟩ := hi.sends_next hw hK hc
  rcases Net.advance_none hh hcall with ⟨e, rfl⟩ | ⟨dst, msg, rest, rfl, hfull⟩
  · simp [hcur] at hf
  · obtain ⟨seq, hp⟩ := hsends (dst, msg) (by simp [State.sends, hcur])
    obtain ⟨rfl, -⟩ := Prod.mk.inj hp
    have hempty : s.net.queue (k.next c) = [] := by
      by_cases hcon : c = .concentrator
      · subst hcon
        exact hi.notifier_room hw hK (by simp [hcur])
      · exact hnext hcon
    have := k.capacity_pos (k.next c)
    rw [hempty, List.length_nil] at hfull
    omega

theorem stepReceive_none {thread index : ℕ} {recvs : List Chan} {c : Chan}
    (ht : s.threads[thread]? = some recvs) (hidle : ∀ c' ∈ recvs, s.net.call c' = none)
    (hc : recvs[index]? = some c) (h : step d k s (.receive thread index) = none) :
    s.net.queue c = [] := by
  have hall : (recvs.all fun c => (s.net.call c).isNone) = true := by simpa using hidle
  simp only [step, stepReceive, ht, hall, if_true, hc, Option.map_eq_none_iff] at h
  exact Net.accept_none h (hidle c (List.mem_of_getElem? hc))

theorem Inv.queue_nil_of_idle (hi : Inv d k flavour K s) (hh : Halted d k s)
    (hstarted : ∀ recvs, .spawn recvs ∉ s.main) {c : Chan} (hc : c ∈ k.channels)
    (hidle : ∀ c' ∈ k.channels, c'.position = c.position → s.net.call c' = none) :
    s.net.queue c = [] := by
  obtain ⟨recvs, hr, hmem⟩ := hi.serves c hc
  have hr := hr.resolve_right (hstarted recvs)
  obtain ⟨thread, ht⟩ := List.mem_iff_getElem?.mp hr
  obtain ⟨index, hindex⟩ := List.mem_iff_getElem?.mp hmem
  have hranks := hi.ranks recvs (.inl hr) c hmem
  refine stepReceive_none ht ?_ hindex (hh (.receive thread index) (by simp))
  intro c' hc'
  exact hidle c' (hi.ranks recvs (.inl hr) c' hc').1 (hranks.2 c' hc')

theorem Inv.position_drained (hi : Inv d k flavour K s) (hw : d.Wires k send flavour mode)
    (hK : ∀ c ∈ k.channels, k.relays c → K c) (hh : Halted d k s)
    (hstarted : ∀ recvs, .spawn recvs ∉ s.main) {i : ℕ} (hi0 : 0 < i) (hip : i ≤ k.pipelines)
    (hnext : ∀ l < k.lanes, s.net.queue (k.next (.lane l i)) = []) :
    ∀ l < k.lanes, s.net.call (.lane l i) = none ∧ s.net.queue (.lane l i) = [] := by
  have hmem : ∀ l < k.lanes, .lane l i ∈ k.channels := fun l hl =>
    k.mem_channels_lane.mpr ⟨hl, hi0, hip⟩
  have hcall : ∀ l < k.lanes, s.net.call (.lane l i) = none := by
    intro l hl
    apply hi.call_none hw hK (hmem l hl)
    · simpa [step] using hh (.advance (.lane l i)) (by simp)
    · exact fun _ => hnext l hl
  intro l hl
  refine ⟨hcall l hl, hi.queue_nil_of_idle hh hstarted (hmem l hl) ?_⟩
  intro c hc hp
  cases c with
  | lane l' i' =>
    obtain rfl : i' = i := hp
    exact hcall l' (k.mem_channels_lane.mp hc).1
  | concentrator => exact absurd hp (Nat.ne_of_lt hi0)
  | notifier => exact absurd hc k.notifier_not_mem

theorem Inv.concentrator_drained (hi : Inv d k flavour K s) (hw : d.Wires k send flavour mode)
    (hK : ∀ c ∈ k.channels, k.relays c → K c) (hh : Halted d k s)
    (hstarted : ∀ recvs, .spawn recvs ∉ s.main) :
    s.net.call .concentrator = none ∧ s.net.queue .concentrator = [] := by
  have hcall : s.net.call .concentrator = none := by
    apply hi.call_none hw hK k.concentrator_mem
    · simpa [step] using hh (.advance .concentrator) (by simp)
    · exact fun h => absurd rfl h
  refine ⟨hcall, hi.queue_nil_of_idle hh hstarted k.concentrator_mem ?_⟩
  intro c hc hp
  cases c with
  | lane l i => exact absurd hp (Nat.ne_of_gt (k.mem_channels_lane.mp hc).2.1)
  | concentrator => exact hcall
  | notifier => exact absurd hc k.notifier_not_mem

theorem Inv.drained (hi : Inv d k flavour K s) (hw : d.Wires k send flavour mode)
    (hK : ∀ c ∈ k.channels, k.relays c → K c) (hh : Halted d k s)
    (hstarted : ∀ recvs, .spawn recvs ∉ s.main) :
    ∀ c ∈ k.channels, s.net.call c = none ∧ s.net.queue c = [] := by
  have hcon := hi.concentrator_drained hw hK hh hstarted
  have hlane : ∀ j < k.pipelines, ∀ l < k.lanes,
      s.net.call (.lane l (k.pipelines - j)) = none ∧ s.net.queue (.lane l (k.pipelines - j)) = [] := by
    intro j
    induction j with
    | zero =>
      intro _
      apply hi.position_drained hw hK hh hstarted k.pipelines_pos (Nat.le_refl _)
      intro l _
      rw [k.next_last]
      exact hcon.2
    | succ j ih =>
      intro hj
      apply hi.position_drained hw hK hh hstarted (by omega) (by omega)
      intro l hl
      rw [k.next_relay (by omega), show k.pipelines - (j + 1) + 1 = k.pipelines - j by omega]
      exact (ih (by omega) l hl).2
  intro c hc
  cases c with
  | lane l i =>
    obtain ⟨hl, hi0, hip⟩ := k.mem_channels_lane.mp hc
    have := hlane (k.pipelines - i) (by omega) l hl
    rwa [show k.pipelines - (k.pipelines - i) = i by omega] at this
  | concentrator => exact hcon
  | notifier => exact absurd hc k.notifier_not_mem

theorem Inv.setup_steps (hi : Inv d k flavour K s) (hw : d.Wires k send flavour mode)
    (hK : ∀ c ∈ k.channels, k.relays c → K c) (hr : s.runs = 0) (hm : s.main ≠ []) :
    step d k s .main ≠ none := by
  obtain ⟨op, ops, hmain⟩ := List.exists_cons_of_ne_nil hm
  have hop : op ∈ s.main := by simp [hmain]
  simp only [step, stepMain, hmain]
  cases op with
  | spawn recvs => simp
  | detach call => simp
  | recv c =>
    cases hi.phase with
    | rest hne hg hr' => exact absurd rfl (hne _ hop c)
    | wait hm hops hg => omega
  | block call =>
    cases call with
    | done => simp
    | panic e =>
      have := hi.calm.1 _ hop
      simp [Op.result] at this
    | send c msg rest =>
      have hmem : (c, msg) ∈ s.pending := by simp [State.pending, scripts, hmain]
      obtain ⟨hline, hdata⟩ := hi.no_data hw hK hr
      rcases hi.pending_cases hmem with ⟨l, hl, rfl, seq, rfl⟩ | ⟨hc, rfl⟩
      · have : (Chan.lane l 1, TestMessage.testData seq) ∈ s.line := by
          rw [line_eq, mem_dataOf]
          exact ⟨hmem, seq, rfl⟩
        simp [hline] at this
      · have hconfigs : configs (s.net.put c) = [] := by
          have hlen := (hi.told c).length_eq
          have hpos : 0 < (configs (addressed c s.pending)).length := by
            apply List.length_pos_of_mem (a := config flavour k c)
            exact List.mem_filter.mpr ⟨mem_addressed.mpr hmem, by simp [config_seq?]⟩
          rw [if_pos hc, List.length_append, List.length_singleton] at hlen
          exact List.length_eq_zero_iff.mp (by omega)
        have hput : s.net.put c = [] := by rw [eq_map_testData hconfigs, (hdata c hc).1]; rfl
        have hqueue : s.net.queue c = [] := by
          have := hi.sound.fifo c
          rw [hput] at this
          exact (List.append_eq_nil_iff.mp this.symm).2
        have := k.capacity_pos c
        simp [Net.deliver, hqueue, this]

theorem Inv.halted_main (hi : Inv d k flavour K s) (hw : d.Wires k send flavour mode)
    (hK : ∀ c ∈ k.channels, k.relays c → K c) (hh : Halted d k s) :
    (∀ recvs, .spawn recvs ∉ s.main) ∧
      (s.main = [] ∨ ∃ ops, s.main = ops ++ [.recv .notifier] ∧ ∀ op ∈ ops, ∀ c, op ≠ .recv c) := by
  cases hi.phase with
  | rest hne hg hr =>
    have hm : s.main = [] := by
      rcases hr with hr | hm
      · by_contra hm
        exact hi.setup_steps hw hK hr hm (hh .main (by simp))
      · exact hm
    exact ⟨by simp [hm], .inl hm⟩
  | @wait ops hm hops hg =>
    refine ⟨?_, .inr ⟨ops, hm, fun op hop => (hops op hop).1⟩⟩
    intro recvs hr
    rw [hm, List.mem_append, List.mem_singleton] at hr
    rcases hr with hr | hr
    · exact absurd rfl ((hops _ hr).2 recvs)
    · cases hr

theorem Inv.script_done (hi : Inv d k flavour K s) {call : Sending Chan Unit}
    (hsends : call.sends ∈ s.scripts) (hresult : call.result = .ok ())
    (hempty : ∀ c ∈ k.channels, s.net.queue c = [])
    (hnone : s.net.deliver k.capacity call = none) : call = .done () := by
  cases call with
  | done => rfl
  | panic e => simp at hresult
  | send c msg rest =>
    have hmem : (c, msg) ∈ s.pending := List.mem_flatten.mpr ⟨_, hsends, by simp⟩
    have hc : c ∈ k.channels := by
      rcases hi.pending_cases hmem with ⟨l, hl, rfl, -⟩ | ⟨hc, -⟩
      · exact k.mem_channels_lane.mpr ⟨hl, Nat.one_pos, k.pipelines_pos⟩
      · exact hc
    have hfull := Net.deliver_none hnone rfl
    have := k.capacity_pos c
    rw [hempty c hc, List.length_nil] at hfull
    omega

theorem Inv.quiescent (hi : Inv d k flavour K s) (hw : d.Wires k send flavour mode)
    (hK : ∀ c ∈ k.channels, k.relays c → K c) (hh : Halted d k s) :
    (∀ c ∈ k.channels, s.net.call c = none ∧ s.net.queue c = []) ∧
    (∀ call ∈ s.tasks, call = .done ()) ∧
    (s.main = [] ∨ s.main = [.recv .notifier] ∧ s.net.queue .notifier = []) := by
  obtain ⟨hstarted, hmain⟩ := hi.halted_main hw hK hh
  have hdrained := hi.drained hw hK hh hstarted
  have hempty := fun c hc => (hdrained c hc).2
  refine ⟨hdrained, ?_, ?_⟩
  · intro call hcall
    obtain ⟨j, hj⟩ := List.mem_iff_getElem?.mp hcall
    have hnone : s.net.deliver k.capacity call = none := by
      have := hh (.task j) (by simp)
      simpa [step, stepTask, hj] using this
    refine hi.script_done ?_ (hi.calm.2 call hcall) hempty hnone
    exact List.mem_append_right _ (List.mem_map_of_mem hcall)
  · rcases hmain with hm | ⟨ops, hm, hops⟩
    · exact .inl hm
    · right
      have hstep : stepMain k s = none := hh .main (by simp)
      cases ops with
      | nil =>
        refine ⟨hm, ?_⟩
        simp only [stepMain, hm, List.nil_append, Option.map_eq_none_iff] at hstep
        exact Net.take_none hstep
      | cons op ops =>
        exfalso
        have hop : op ∈ s.main := by simp [hm]
        simp only [stepMain, hm, List.cons_append] at hstep
        cases op with
        | spawn recvs => simp at hstep
        | detach call => simp at hstep
        | recv c => exact hops _ List.mem_cons_self c rfl
        | block call =>
          have hdone : call ≠ .done () := by
            rintro rfl
            simp at hstep
          refine hdone (hi.script_done ?_ (hi.calm.1 _ hop) hempty ?_)
          · exact List.mem_append_left _ (List.mem_map.mpr ⟨_, hop, rfl⟩)
          · cases call with
            | done => exact absurd rfl hdone
            | panic e => rfl
            | send c msg rest => simpa using hstep

end Progress

end ChannelExecutor.Experiment
