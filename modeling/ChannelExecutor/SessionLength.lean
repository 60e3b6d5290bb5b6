import ChannelExecutor.Lib.NetworkSteps
import ChannelExecutor.Settled
import Mathlib.Tactic.Ring

set_option autoImplicit false

namespace ChannelExecutor.Experiment

open Lib (Call Net System sum_map_set)
open State

def Op.steps (op : Op) : ℕ := 1 + op.sends.length

def State.owed (k : Params) (s : State) : ℕ :=
  (s.main.map Op.steps).sum + (s.tasks.map fun call => call.sends.length).sum +
    (k.channels.map s.net.inCall).sum

def State.paid (k : Params) (s : State) : ℕ :=
  (k.channels.map s.net.handled).sum + s.runs * (k.lanes * k.messages + 3)

def Params.sessionLength (k : Params) (d : Driver) (r : ℕ) : ℕ :=
  (d.setup k.pipelines k.lanes k.messages).2.length + 3 * (k.lanes * k.pipelines + 1) +
    r * (3 * k.lanes * (k.pipelines * k.messages + 1) + 4)

section Steps

variable {d : Driver} {k : Params} {send : Send} {flavour : Chan → Sender}
variable {K : Chan → Prop} {s t : State} {a : Act}

theorem data_length (k : Params) : k.data.length = k.lanes * k.messages := by
  simp [Params.data, Nat.mul_comm]

theorem Does.pays (hi : Inv d k flavour K s) (hw : d.Wires k send flavour .block)
    (h : Does d k s a t) : t.paid k + s.owed k = s.paid k + t.owed k + 1 := by
  cases h with
  | spawn hm =>
    simp only [paid, owed, hm, List.map_cons, List.sum_cons, Op.steps, Op.sends_spawn, List.length_nil]
    omega
  | sent hm =>
    simp only [paid, owed, hm, List.map_cons, List.sum_cons, Op.steps, Op.sends_block,
      Call.sends_done, List.length_nil]
    omega
  | @send c msg rest ops hm hroom =>
    have hhandled : (s.net.push c msg).handled = s.net.handled := rfl
    have hcalls : (s.net.push c msg).inCall = s.net.inCall := rfl
    simp only [paid, owed, hm, hhandled, hcalls, List.map_cons, List.sum_cons, Op.steps,
      Op.sends_block, Call.sends_send, List.length_cons]
    omega
  | detach hm =>
    simp only [paid, owed, hm, List.map_cons, List.sum_cons, Op.steps, Op.sends_detach,
      List.map_append, List.sum_append, List.map_nil, List.sum_nil]
    omega
  | @recv c ops net hm hn =>
    have hc : c ∉ k.channels := by
      rw [hi.recv_notifier (c := c) (by simp [hm])]
      exact k.notifier_not_mem
    have hcalls : net.inCall = s.net.inCall := by
      obtain ⟨msg, rest, -, rfl⟩ := Net.take_cases hn
      rfl
    simp only [paid, owed, hm, Net.handled_take hc hn, hcalls, List.map_cons, List.sum_cons,
      Op.steps, Op.sends_recv, List.length_nil]
    omega
  | run hm =>
    have hdata := data_length k
    simp only [paid, owed, hm, hw.run, List.map_cons, List.map_nil, List.sum_cons, List.sum_nil,
      Op.steps, Op.sends_block, Op.sends_recv, Call.sends_after, Call.sends_done, List.append_nil,
      List.length_nil, hdata, Nat.add_mul]
    omega
  | accept ht hidle hindex hn =>
    have hc := hi.ranks _ (.inl (List.mem_of_getElem? ht)) _ (List.mem_of_getElem? hindex)
    have := Net.counted_accept k.channels_nodup hc.1 hn
    simp only [paid, owed]
    omega
  | @advance c net hn =>
    have hc : c ∈ k.channels := by
      obtain ⟨dst, msg, rest, hcall, -, -⟩ | ⟨b, hcall, -⟩ := Net.advance_cases hn
      · exact hi.active c (by simp [hcall])
      · exact hi.active c (by simp [hcall])
    have := Net.counted_advance k.channels_nodup hc hn
    simp only [paid, owed]
    omega
  | @task j c msg rest hj hroom =>
    have hhandled : (s.net.push c msg).handled = s.net.handled := rfl
    have hcalls : (s.net.push c msg).inCall = s.net.inCall := rfl
    have := sum_map_set (fun call : Sending Chan Unit => call.sends.length) hj rest
    simp only [Call.sends_send, List.length_cons] at this
    simp only [paid, owed, hhandled, hcalls]
    omega

theorem start_owed (hw : d.Wires k send flavour .block) : (start d k).owed k =
    (d.setup k.pipelines k.lanes k.messages).2.length + (k.lanes * k.pipelines + 1) := by
  have hsum : ∀ ops : List Op, (ops.map Op.steps).sum = ops.length + (opSends ops).length := by
    intro ops
    induction ops with
    | nil => rfl
    | cons op ops ih =>
      simp only [List.map_cons, List.sum_cons, ih, Op.steps, opSends_cons, List.length_append,
        List.length_cons]
      omega
  have hcalls : (k.channels.map (start d k).net.inCall).sum = 0 := by
    rw [List.sum_eq_zero_iff]
    intro x hx
    obtain ⟨c, -, rfl⟩ := List.mem_map.mp hx
    rfl
  have hchannels : k.channels.length = k.lanes * k.pipelines + 1 := by
    simp [Params.channels, Params.laneChans]
  rw [State.owed, hcalls]
  simp [start, hsum, hw.configures.sends, hchannels]

theorem halted_owed (hi : Inv d k flavour (· ∈ k.channels) s) (hs : Awaited s)
    (hw : d.Wires k send flavour .block) (hh : Halted d k s) : s.owed k = 0 := by
  have hm := hi.halted_rests hs hw hh
  obtain ⟨hidle, -, -⟩ := hi.quiescent hw (fun _ hc _ => hc) hh
  have hcalls : (k.channels.map s.net.inCall).sum = 0 := by
    rw [List.sum_eq_zero_iff]
    intro x hx
    obtain ⟨c, hc, rfl⟩ := List.mem_map.mp hx
    simp [Net.inCall, (hidle c hc).1]
  simp [State.owed, hm, hs.tasks, hcalls]

theorem passed_length (k : Params) (r : ℕ) (c : Chan) :
    (k.passed r c).length = if k.relays c then r * k.messages else r := by
  unfold Params.passed
  split
  · exact List.length_range
  · exact List.length_replicate

theorem lane_handled (k : Params) (r l : ℕ) :
    ((k.laneChans l).map fun c => 2 * (1 + r * k.messages) + (k.passed r c).length).sum =
      (k.pipelines - 1) * (2 + 3 * (r * k.messages)) + (2 + 2 * (r * k.messages) + r) := by
  obtain ⟨p, hp⟩ : ∃ p, k.pipelines = p + 1 :=
    Nat.exists_eq_succ_of_ne_zero (Nat.ne_of_gt k.pipelines_pos)
  have hrelay : (List.range' 1 p).map (fun i =>
      2 * (1 + r * k.messages) + (k.passed r (.lane l i)).length) =
      List.replicate p (2 + 3 * (r * k.messages)) := by
    rw [List.eq_replicate_iff, List.length_map, List.length_range']
    refine ⟨rfl, ?_⟩
    intro x hx
    obtain ⟨i, hi, rfl⟩ := List.mem_map.mp hx
    have hip : i < k.pipelines := by
      rw [List.mem_range'_1] at hi
      omega
    rw [passed_length, if_pos (by simpa [Params.relays] using hip)]
    omega
  have hlast : (k.passed r (.lane l (1 + p))).length = r := by
    have hend : ¬1 + p < k.pipelines := by omega
    rw [passed_length, if_neg (by simpa [Params.relays] using hend)]
  simp only [Params.laneChans, hp, Nat.add_sub_cancel, List.range'_concat, Nat.one_mul,
    List.map_append, List.map_map, Function.comp_def, hrelay, List.map_cons, List.map_nil, hlast,
    List.sum_append, List.sum_replicate_nat, List.sum_cons, List.sum_nil]
  omega

theorem handled_sum (k : Params) (r : ℕ) :
    (k.channels.map fun c => 2 * (1 + (k.intake r c).length) + (k.passed r c).length).sum =
      k.lanes * ((k.pipelines - 1) * (2 + 3 * (r * k.messages)) + (2 + 2 * (r * k.messages) + r)) +
        (2 * (1 + k.lanes * r) + r) := by
  have hlane : ∀ l, ((k.laneChans l).map fun c =>
      2 * (1 + (k.intake r c).length) + (k.passed r c).length) =
      (k.laneChans l).map fun c => 2 * (1 + r * k.messages) + (k.passed r c).length := by
    intro l
    apply List.map_congr_left
    intro c hc
    obtain ⟨i, -, rfl⟩ := List.mem_map.mp hc
    rw [Params.intake, Params.stream]
    split
    · simp [rounds]
    · simp
  have hcon : (k.intake r .concentrator).length = k.lanes * r := List.length_replicate
  have hpassed : (k.passed r .concentrator).length = r := passed_length k r .concentrator
  simp only [Params.channels, List.map_append, List.map_flatMap, hlane, List.sum_append,
    List.map_cons, List.map_nil, List.sum_cons, List.sum_nil, hcon, hpassed]
  rw [List.flatMap_def, List.sum_flatten, List.map_map, Function.comp_def]
  simp only [lane_handled, List.map_const', List.sum_replicate_nat, List.length_range]
  rfl

theorem settled_paid (h : ∀ c ∈ k.channels, s.site c = k.settled flavour s.runs c)
    (ops : ℕ) : s.paid k + (ops + (k.lanes * k.pipelines + 1)) =
      ops + 3 * (k.lanes * k.pipelines + 1) +
        s.runs * (3 * k.lanes * (k.pipelines * k.messages + 1) + 4) := by
  have hhandled : k.channels.map s.net.handled =
      k.channels.map fun c => 2 * (1 + (k.intake s.runs c).length) + (k.passed s.runs c).length := by
    apply List.map_congr_left
    intro c hc
    have hsite := h c hc
    have hgot : s.net.got c = _ := congrArg Site.got hsite
    have hout : s.net.out c = _ := congrArg Site.out hsite
    simp [Net.handled, hgot, hout, Params.settled, Nat.add_comm]
  obtain ⟨p, hp⟩ : ∃ p, k.pipelines = p + 1 :=
    Nat.exists_eq_succ_of_ne_zero (Nat.ne_of_gt k.pipelines_pos)
  rw [State.paid, hhandled, handled_sum, hp, Nat.add_sub_cancel]
  ring

end Steps

section Length

variable {d : Driver} {k : Params} {s : State} {as : List Act}

theorem exec_reachable {ok : State → Act → Bool} (h : (system d k).exec ok (start d k) as = some s) :
    (system d k).Reachable s :=
  System.Reaches.mono (fun _ _ _ => trivial) (System.exec_reaches h)

theorem halted_length (hd : d ∈ libraryDrivers)
    (h : (system d k).exec (fun _ _ => true) (start d k) as = some s) (hh : Halted d k s) :
    as.length = k.sessionLength d s.runs := by
  obtain ⟨send, flavour, hw⟩ := wires_awaiting (awaiting_of_library hd) k
  have hreach := exec_reachable h
  obtain ⟨hi, hs⟩ := reaches_awaited hw hreach
  have hm := hi.halted_rests hs hw hh
  have hstep : ∀ s a t, (system d k).Reachable s → true = true → (system d k).step s a = some t →
      (system d k).Reachable t ∧ t.paid k + s.owed k = s.paid k + t.owed k + 1 := by
    intro s a t hs _ hstep
    exact ⟨hs.step trivial hstep, (step_does hstep).pays (reaches_awaited hw hs).1 hw⟩
  have hexact : s.paid k + (start d k).owed k = (start d k).paid k + s.owed k + as.length :=
    (System.exec_exact hstep .refl h).2
  have hsettled := fun c hc => hi.settled hs hw hreach hm hc
    ((hi.quiescent hw (fun _ hc _ => hc) hh).1 c hc).2
  have hpaid := settled_paid hsettled (d.setup k.pipelines k.lanes k.messages).2.length
  have hzero : (start d k).paid k = 0 := by
    have hhandled : k.channels.map (start d k).net.handled = k.channels.map fun _ => 0 := rfl
    rw [State.paid, hhandled, List.map_const', List.sum_replicate_nat]
    simp [start]
  have howed := halted_owed hi hs hw hh
  have hstart := start_owed hw
  rw [Params.sessionLength, ← hpaid]
  omega

end Length

section Messages

variable {d : Driver} {k : Params} {send : Send} {flavour : Chan → Sender} {s : State}

def Params.mail (k : Params) (r : ℕ) : ℕ := 1 + r * (k.messages + k.lanes)

theorem Inv.put_length_le (hi : Inv d k flavour (· ∈ k.channels) s)
    (hw : d.Wires k send flavour .block) {c : Chan} (hc : c ∈ k.sites) :
    (s.net.put c).length ≤ k.mail s.runs := by
  have hK : ∀ c ∈ k.channels, k.relays c → c ∈ k.channels := fun _ hc _ => hc
  have hconfigs := hi.put_configs_le c
  have hall := configs_seqs_length (s.net.put c)
  rw [Params.mail, Nat.mul_add]
  cases c with
  | lane l i =>
    obtain ⟨hl, hi0, hip⟩ := k.mem_channels_lane.mp (by simpa [Params.sites] using hc)
    have := hi.put_le hw hK hl hi0 hip
    omega
  | concentrator =>
    have := hi.merged_le hw hK
    rw [Nat.mul_comm] at this
    omega
  | notifier =>
    have := hi.put_notifier_le hw hK
    have := Nat.le_mul_of_pos_right s.runs k.lanes_pos
    omega

theorem reaches_put (hw : d.Wires k send flavour .block) (h : (system d k).Reachable s) {c : Chan}
    (hc : c ∉ k.sites) : s.net.put c = [] := by
  refine (h.invariant (I := fun s => (system d k).Reachable s ∧ ∀ c ∉ k.sites, s.net.put c = [])
    ⟨.refl, fun _ _ => rfl⟩ ?_).2 c hc
  rintro s a t ⟨hreach, hs⟩ - hstep
  refine ⟨hreach.step trivial hstep, fun c hc => ?_⟩
  obtain ⟨hi, hawaited⟩ := reaches_awaited hw hreach
  have hK : ∀ c ∈ k.channels, k.relays c → c ∈ k.channels := fun _ hc _ => hc
  have hdoes : Does d k s a t := step_does hstep
  by_cases ha : a = .run
  · subst ha
    cases hdoes with
    | run hm => exact hs c hc
  cases hi.entry hw hK (hi.config_first hawaited hw hK) (does_turn hdoes ha).1 with
  | still _ hput => rw [hput, hs c hc]
  | @post c' msg hemits _ hput =>
    have hne : c ≠ c' := by
      rintro rfl
      rcases hemits.cases hi with ⟨l, hl, rfl, -⟩ | ⟨hmem, -⟩
      · exact hc (k.mem_sites (k.mem_channels_lane.mpr ⟨hl, Nat.one_pos, k.pipelines_pos⟩))
      · exact hc (k.mem_sites hmem)
    rw [hput, Function.update_of_ne hne, hs c hc]
  | @pass c' seq _ hc' _ hput =>
    have hne : c ≠ k.next c' := by
      rintro rfl
      exact hc (k.next_mem_sites hc')
    rw [hput, Function.update_of_ne hne, hs c hc]

end Messages

/-- No run is longer than its calls of `run` ask for, and the ones that have ended are all of that
length. -/
theorem session_length {d : Driver} (hd : d ∈ libraryDrivers) {k : Params} {as : List Act} {s : State}
    (h : (system d k).exec (fun _ _ => true) (start d k) as = some s) :
    as.length ≤ k.sessionLength d s.runs ∧
      (as.length = k.sessionLength d s.runs ↔ Halted d k s) := by
  obtain ⟨send, flavour, hw⟩ := wires_awaiting (awaiting_of_library hd) k
  have hK : ∀ c ∈ k.channels, k.relays c → c ∈ k.channels := fun _ hc _ => hc
  let others : State → Act → Bool := fun _ a => decide (a ≠ .run)
  have hstep : ∀ u a v, ((system d k).Reachable u ∧ u.runs = s.runs) → others u a = true →
      (system d k).step u a = some v →
      ((system d k).Reachable v ∧ v.runs = s.runs) ∧ v.work k < u.work k := by
    rintro u a v ⟨hu, hruns⟩ ha hstep
    have ha : a ≠ .run := of_decide_eq_true ha
    have hdoes : Does d k u a v := step_does hstep
    refine ⟨⟨hu.step trivial hstep, (does_turn hdoes ha).2.trans hruns⟩, ?_⟩
    exact (reaches_awaited hw hu).1.work_lt hw hK ha hstep
  -- the run goes on to its end without a further call of `run`
  obtain ⟨bs, t, hbs, ⟨-, hruns⟩, hstuck⟩ := System.exec_completes hstep ⟨exec_reachable h, rfl⟩
  have hall := System.exec_append h (System.exec_mono (fun _ _ _ => rfl) hbs)
  have hhalted : Halted d k t := fun a ha => hstuck a (decide_eq_true ha)
  have hlen := halted_length hd hall hhalted
  rw [List.length_append, hruns] at hlen
  refine ⟨by omega, ?_, halted_length hd h⟩
  intro heq
  have hbs' : bs = [] := List.length_eq_zero_iff.mp (by omega)
  subst hbs'
  obtain rfl : s = t := by simpa [System.exec] using hbs
  exact hhalted

theorem session_length_small : smallRun.length ≤ small.sessionLength crossbeamDriver 1 ∧
    (smallRun.length = small.sessionLength crossbeamDriver 1 ↔ Halted crossbeamDriver small afterSmallRun) :=
  session_length (s := afterSmallRun) (by simp [libraryDrivers]) (Option.some_get _).symm

end ChannelExecutor.Experiment
