import ChannelExecutor.NoPanic
import ChannelExecutor.PipelineWork

set_option autoImplicit false

namespace ChannelExecutor.Experiment

open Lib (Call Net System)
open Lib.Net (feed feed_cons)
open State

structure Rests (s : State) (c : Chan) (received sent next : ℕ) : Prop where
  received : (s.net.proc c).receivedCount = received
  sent : (s.net.proc c).sendCount = sent
  next : (s.net.proc c).nextSeq = next

structure EndOfRun (k : Params) (r : ℕ) (s : State) : Prop where
  given : ∀ l < k.lanes, ∀ i, 0 < i → i ≤ k.pipelines →
    (s.given (.lane l i)).length = r * k.messages
  drained : ∀ c ∈ k.channels, s.net.queue c = []
  head : ∀ l < k.lanes, 1 < k.pipelines → s.net.call (.lane l 1) = none →
    Rests s (.lane l 1) (r * k.messages) (r * k.messages) k.messages
  middle : ∀ l < k.lanes, ∀ i, 1 < i → i < k.pipelines → s.net.call (.lane l i) = none →
    Rests s (.lane l i) (r * k.messages) (r * k.messages) (r * k.messages)
  last : ∀ l < k.lanes, s.net.call (.lane l k.pipelines) = none →
    Rests s (.lane l k.pipelines) 0 0 0
  concentrator : s.net.call .concentrator = none → Rests s .concentrator 0 0 0

section EndOfRun

variable {d : Driver} {k : Params} {send : Send} {flavour : Chan → Sender}
variable {mode : Sending Chan Unit → Op} {s : State}

theorem Params.quota_pos (k : Params) (c : Chan) : 0 < k.quota c := by
  cases c with
  | lane l i => exact k.messages_pos
  | concentrator => exact k.lanes_pos
  | notifier => exact k.lanes_pos

theorem Inv.counting_feed (hi : Inv d k flavour (· ∈ k.channels) s) (hw : d.Wires k send flavour mode)
    {c : Chan} (hc : c ∈ k.channels) (hr : k.relays c = false) (hne : s.net.got c ≠ []) :
    feed d.receive (newForwarder c) (s.net.got c) =
      .after (List.replicate ((s.given c).length / k.quota c) (k.next c, .testData (k.quota c)))
        (.done (.counting c.position (flavour (k.next c)) (k.quota c)
          ((s.given c).length % k.quota c))) := by
  obtain ⟨other, hreceive⟩ := hw.receive
  have hgot := (hi.got_shape hc hc).resolve_left hne
  have hconfig : config flavour k c = .notify (flavour (k.next c)) (k.quota c) := by
    rw [config_eq, if_neg (by simp [hr])]
  have hfeed := @Forwarder.feed_counting _ send flavour other hw.delivers c.position (k.next c) 0 _
    (k.quota_pos c) (s.given c)
  rw [Nat.zero_add] at hfeed
  rw [hgot, hreceive, hconfig, feed_cons, newForwarder, Forwarder.new_eq_waiting,
    Forwarder.receive_waiting_notify, Call.done_bind, hfeed]

theorem got_ne_nil {c : Chan} (h : 0 < (s.given c).length) : s.net.got c ≠ [] := by
  intro hnil
  rw [State.given, hnil] at h
  exact Nat.lt_irrefl 0 h

theorem Inv.queue_nil {K : Chan → Prop} (hi : Inv d k flavour K s) {c : Chan} (hc : c ∈ k.channels)
    (hK : K c) (hpos : 0 < (s.given c).length)
    (hlen : (seqs (s.net.put c)).length = (s.given c).length) : s.net.queue c = [] := by
  have hfifo := hi.sound.fifo c
  have hgot := (hi.got_shape hc hK).resolve_left (got_ne_nil hpos)
  have htold := (hi.told c).length_eq
  rw [if_pos hc, hfifo, configs_append, hgot, configs_config (config_seq? ..)] at htold
  simp only [List.cons_append, List.length_cons, List.length_append, List.length_nil] at htold
  have hconfigs : configs (s.net.queue c) = [] := List.length_eq_zero_iff.mp (by omega)
  rw [hfifo, seqs_append, List.length_append] at hlen
  change (s.given c).length + _ = _ at hlen
  have hseqs : seqs (s.net.queue c) = [] := List.length_eq_zero_iff.mp (by omega)
  rw [eq_map_testData hconfigs, hseqs]
  rfl

theorem Inv.rests_relay {K : Chan → Prop} (hi : Inv d k flavour K s)
    (hw : d.Wires k send flavour mode) (hK : ∀ c ∈ k.channels, k.relays c → K c) {l i : ℕ}
    (hl : l < k.lanes) (hi0 : 0 < i) (hip : i < k.pipelines) (hpos : 0 < (s.given (.lane l i)).length)
    (hidle : s.net.call (.lane l i) = none) :
    Rests s (.lane l i) (s.given (.lane l i)).length (s.given (.lane l i)).length
      (nextAfter 0 (s.given (.lane l i))) := by
  have hb := (hi.relay_sends hw hK hl hi0 hip).2
  rw [relayed, if_neg (got_ne_nil hpos)] at hb
  have hproc : s.net.proc (.lane l i) = .relay i (flavour (.lane l (i + 1)))
      (s.given (.lane l i)).length (nextAfter 0 (s.given (.lane l i))) := by
    simpa [Net.current, hidle] using hb
  constructor
  · rw [hproc]; rfl
  · rw [hproc]; rfl
  · rw [hproc]; rfl

theorem Inv.rests_tally (hi : Inv d k flavour (· ∈ k.channels) s) (hw : d.Wires k send flavour mode)
    {c : Chan} (hc : c ∈ k.channels) (hr : k.relays c = false) (hpos : 0 < (s.given c).length)
    (hidle : s.net.call c = none) : Rests s c ((s.given c).length % k.quota c) 0 0 := by
  have hproc := (hi.sound.of_feed_idle hc (hi.counting_feed hw hc hr (got_ne_nil hpos)) hidle).2
  constructor
  · rw [hproc]; rfl
  · rw [hproc]; rfl
  · rw [hproc]; rfl

theorem Inv.nextAfter_given {K : Chan → Prop} (hi : Inv d k flavour K s)
    (hw : d.Wires k send flavour mode) (hK : ∀ c ∈ k.channels, k.relays c → K c) {l i : ℕ}
    (hl : l < k.lanes) (hi0 : 0 < i) (hip : i ≤ k.pipelines) {r : ℕ} (hr : 0 < r)
    (hlen : (s.given (.lane l i)).length = r * k.messages) :
    nextAfter 0 (s.given (.lane l i)) = if i = 1 then k.messages else r * k.messages := by
  obtain ⟨n, hn⟩ := hi.arrivals hw hK hl hi0 hip
  have hstream := prefix_stream ((hi.given_prefix _).trans hn)
  rw [hstream, Params.stream, hlen]
  have hm := k.messages_pos
  split
  next h1 =>
    have hpos : 0 < r * k.messages := Nat.mul_pos hr hm
    obtain ⟨q, rfl⟩ : ∃ q, r = q + 1 := ⟨r - 1, by omega⟩
    have hsub : (q + 1) * k.messages - 1 = k.messages * q + (k.messages - 1) := by
      rw [Nat.add_mul, Nat.one_mul, Nat.mul_comm]
      omega
    rw [nextAfter_rounds, if_neg (Nat.ne_of_gt hpos), hsub, Nat.mul_add_mod,
      Nat.mod_eq_of_lt (by omega)]
    omega
  next h1 => exact nextAfter_range _

theorem Inv.endOfRun (hi : Inv d k flavour (· ∈ k.channels) s) (hw : d.Wires k send flavour mode)
    (hr : 0 < s.runs) (hput : s.runs ≤ (s.net.put .notifier).length) : EndOfRun k s.runs s := by
  have hK : ∀ c ∈ k.channels, k.relays c → c ∈ k.channels := fun _ hc _ => hc
  obtain ⟨hlanes, hcon, hcon'⟩ := hi.barrier hw hK hput
  have hposl : ∀ l < k.lanes, ∀ i, 0 < i → i ≤ k.pipelines → 0 < (s.given (.lane l i)).length := by
    intro l hl i hi0 hip
    rw [(hlanes l hl i hi0 hip).1]
    exact Nat.mul_pos hr k.messages_pos
  have hposc : 0 < (s.given .concentrator).length := by
    rw [hcon]
    exact Nat.mul_pos k.lanes_pos hr
  have hrelay : ∀ l < k.lanes, ∀ i, 0 < i → i < k.pipelines → s.net.call (.lane l i) = none →
      Rests s (.lane l i) (s.runs * k.messages) (s.runs * k.messages)
        (if i = 1 then k.messages else s.runs * k.messages) := by
    intro l hl i hi0 hip hidle
    have hlen := (hlanes l hl i hi0 (by omega)).1
    have := hi.rests_relay hw hK hl hi0 hip (hposl l hl i hi0 (by omega)) hidle
    rwa [hi.nextAfter_given hw hK hl hi0 (by omega) hr hlen, hlen] at this
  constructor
  case given => exact fun l hl i hi0 hip => (hlanes l hl i hi0 hip).1
  case drained =>
    intro c hc
    cases c with
    | lane l i =>
      obtain ⟨hl, hi0, hip⟩ := k.mem_channels_lane.mp hc
      obtain ⟨hgiven, hputl⟩ := hlanes l hl i hi0 hip
      exact hi.queue_nil hc hc (hposl l hl i hi0 hip) (hputl.trans hgiven.symm)
    | concentrator => exact hi.queue_nil hc hc hposc (hcon'.trans hcon.symm)
    | notifier => exact absurd hc k.notifier_not_mem
  case head =>
    intro l hl hp hidle
    exact hrelay l hl 1 Nat.one_pos hp hidle
  case middle =>
    intro l hl i hi1 hip hidle
    have := hrelay l hl i (by omega) hip hidle
    rwa [if_neg (by omega)] at this
  case last =>
    intro l hl hidle
    have hp := k.pipelines_pos
    have := hi.rests_tally hw (k.last_mem hl) (k.relays_last l) (hposl l hl _ hp (Nat.le_refl _)) hidle
    rwa [(hlanes l hl _ hp (Nat.le_refl _)).1, Params.quota, Nat.mul_mod_left] at this
  case concentrator =>
    intro hidle
    have := hi.rests_tally hw k.concentrator_mem rfl hposc hidle
    rwa [hcon, Params.quota, Nat.mul_mod_right] at this
    all_goals simp

theorem Inv.notifications (hi : Inv d k flavour (· ∈ k.channels) s) (hw : d.Wires k send flavour mode) :
    ∀ msg ∈ s.net.put .notifier, msg = .testData k.lanes := by
  intro msg hmsg
  obtain ⟨o, n, f, hs, -, -, -⟩ := hi.tally_sends hw k.concentrator_mem rfl
  rw [hi.notified] at hmsg
  obtain ⟨p, hp, rfl⟩ := List.mem_map.mp hmsg
  have hmem : p ∈ s.sends .concentrator := List.mem_append_left _ hp
  rw [hs] at hmem
  rw [(List.mem_replicate.mp hmem).2]
  rfl

theorem Inv.lane_passed {K : Chan → Prop} (hi : Inv d k flavour K s)
    (hw : d.Wires k send flavour mode) (hK : ∀ c ∈ k.channels, k.relays c → K c)
    (hq : ∀ c ∈ k.channels, s.net.call c = none ∧ s.net.queue c = []) {l : ℕ} (hl : l < k.lanes)
    {i : ℕ} (hi0 : 0 < i) (hip : i ≤ k.pipelines) :
    (s.given (.lane l i)).length = (seqs (s.net.put (.lane l 1))).length := by
  have hgiven : ∀ i, 0 < i → i ≤ k.pipelines →
      (s.given (.lane l i)).length = (seqs (s.net.put (.lane l i))).length := by
    intro i hi0 hip
    have hc : .lane l i ∈ k.channels := k.mem_channels_lane.mpr ⟨hl, hi0, hip⟩
    rw [hi.sound.fifo, (hq _ hc).2, List.append_nil]
    rfl
  induction i with
  | zero => exact absurd hi0 (Nat.lt_irrefl 0)
  | succ i ih =>
    by_cases hhead : i = 0
    · subst hhead
      exact hgiven 1 Nat.one_pos hip
    · have hpos : 0 < i := Nat.pos_of_ne_zero hhead
      have hc : .lane l i ∈ k.channels := k.mem_channels_lane.mpr ⟨hl, hpos, by omega⟩
      have hs := (hi.relay_sends hw hK hl hpos (by omega)).1
      simp only [State.sends, Net.current, (hq _ hc).1, Option.getD_none, Call.sends_done,
        List.append_nil] at hs
      rw [hgiven _ hi0 hip, hi.flow l hl i hpos (by omega), hs, List.map_map,
        ← ih hpos (by omega)]
      change (seqs ((List.range _).map TestMessage.testData)).length = _
      rw [seqs_map_testData, List.length_range]

theorem Inv.tally_out (hi : Inv d k flavour (· ∈ k.channels) s) (hw : d.Wires k send flavour mode)
    {c : Chan} (hc : c ∈ k.channels) (hr : k.relays c = false) (hpos : 0 < (s.given c).length)
    (hidle : s.net.call c = none) : (s.net.out c).length = (s.given c).length / k.quota c := by
  rw [(hi.sound.of_feed_idle hc (hi.counting_feed hw hc hr (got_ne_nil hpos)) hidle).1,
    List.length_replicate]

theorem Inv.halted_rests (hi : Inv d k flavour (· ∈ k.channels) s) (hs : Awaited s)
    (hw : d.Wires k send flavour mode) (hh : Halted d k s) : s.main = [] := by
  have hK : ∀ c ∈ k.channels, k.relays c → c ∈ k.channels := fun _ hc _ => hc
  obtain ⟨hq, -, hm | ⟨hm, hempty⟩⟩ := hi.quiescent hw hK hh
  · exact hm
  exfalso
  have hgot : (s.net.got .notifier).length + 1 = s.runs := by
    cases hi.phase with
    | rest hne hg hr => exact absurd rfl (hne (.recv .notifier) (by simp [hm]) .notifier)
    | wait hm' hops hg => exact hg
  have hm0 := k.messages_pos
  have hl0 := k.lanes_pos
  have hrpos : 0 < s.runs := by omega
  -- all data of the run is out, so each last forwarder has notified for every run
  have hline : s.line = [] := by simp [State.line, scripts, hm, hs.tasks, dataOf]
  have hheads : ∀ l < k.lanes, (seqs (s.net.put (.lane l 1))).length = s.runs * k.messages := by
    intro l hl
    have := congrArg List.length (hi.heads l hl)
    simpa [hline, rounds] using this
  have hlast : ∀ l < k.lanes, (s.net.out (.lane l k.pipelines)).length = s.runs := by
    intro l hl
    have hc := k.last_mem hl
    have hgiven := (hi.lane_passed hw hK hq hl k.pipelines_pos (Nat.le_refl _)).trans (hheads l hl)
    have hpos : 0 < (s.given (.lane l k.pipelines)).length := hgiven ▸ Nat.mul_pos hrpos hm0
    rw [hi.tally_out hw hc (k.relays_last l) hpos (hq _ hc).1, hgiven]
    exact Nat.mul_div_cancel _ hm0
  have hcon : (s.given .concentrator).length = k.lanes * s.runs := by
    have hput : (seqs (s.net.put .concentrator)).length = k.lanes * s.runs := by
      rw [hi.merged, List.map_congr_left fun l hl => hlast l (List.mem_range.mp hl)]
      simp
    rw [← hput, hi.sound.fifo, (hq _ k.concentrator_mem).2, List.append_nil]
    rfl
  have hout : (s.net.out .concentrator).length = s.runs := by
    have hpos : 0 < (s.given .concentrator).length := hcon ▸ Nat.mul_pos hl0 hrpos
    rw [hi.tally_out hw k.concentrator_mem rfl hpos (hq _ k.concentrator_mem).1, hcon]
    exact Nat.mul_div_cancel_left _ hl0
  -- the notification of this run is therefore in the notifier channel
  have hfifo := congrArg List.length (hi.sound.fifo .notifier)
  rw [hi.notified, List.length_map, hout, hempty, List.append_nil] at hfifo
  omega

end EndOfRun

def WithinRun (_ : State) (a : Act) : Prop := a ≠ .run

theorem run_ends {d : Driver} {k : Params} {send : Send} {flavour : Chan → Sender} {s t : State}
    (hw : d.Wires k send flavour .block) (h : (system d k).Reachable s)
    (ht : (system d k).Reaches WithinRun s t) (hstuck : (system d k).Stuck WithinRun t) :
    Inv d k flavour (· ∈ k.channels) t ∧ t.main = [] ∧ t.runs = s.runs := by
  obtain ⟨hi, hs⟩ := reaches_awaited hw (h.trans (ht.mono fun _ _ _ => trivial))
  refine ⟨hi, hi.halted_rests hs hw hstuck, ?_⟩
  apply ht.invariant (I := fun t => t.runs = s.runs) rfl
  intro u a v hu ha hstep
  exact (does_turn (step_does hstep) ha).2.trans hu

/-- Every run puts one notification into its channel, and the run is over when it does. That it gets there
rests on `step`, where a blocked send goes on once there is room. -/
theorem notification_ends_run {d : Driver} (hd : d ∈ awaitingDrivers) {k : Params} {s : State}
    (h : (system d k).Reachable s) :
    (∀ msg ∈ s.net.put .notifier, msg = .testData k.lanes) ∧
    (s.net.put .notifier).length ≤ s.runs ∧ s.runs ≤ (s.net.put .notifier).length + 1 ∧
    (s.main = [] → (s.net.put .notifier).length = s.runs) ∧
    (0 < s.runs → (s.net.put .notifier).length = s.runs → EndOfRun k s.runs s) ∧
    (∀ a t, a ≠ .run → step d k s a = some t → t.work k < s.work k) ∧
    (∀ t, (system d k).Reaches WithinRun s t → (system d k).Stuck WithinRun t →
      t.main = [] ∧ t.runs = s.runs ∧ (t.net.put .notifier).length = s.runs) := by
  obtain ⟨send, flavour, hw⟩ := wires_awaiting hd k
  have hK : ∀ c ∈ k.channels, k.relays c → c ∈ k.channels := fun _ hc _ => hc
  obtain ⟨hi, -⟩ := reaches_awaited hw h
  have hle := hi.put_notifier_le hw hK
  have hfifo := congrArg List.length (hi.sound.fifo .notifier)
  rw [List.length_append] at hfifo
  refine ⟨hi.notifications hw, hle, ?_, ?_, ?_, fun a t ha hstep => hi.work_lt hw hK ha hstep, ?_⟩
  · cases hi.phase with
    | rest hne hg hr => omega
    | wait hm hops hg => omega
  · intro hm
    exact Nat.le_antisymm hle (hi.runs_le_of_rest hm)
  · intro hr hlen
    exact hi.endOfRun hw hr (Nat.le_of_eq hlen.symm)
  · intro t ht hstuck
    obtain ⟨hit, hm, hruns⟩ := run_ends hw h ht hstuck
    rw [← hruns]
    exact ⟨hm, rfl, Nat.le_antisymm (hit.put_notifier_le hw hK) (hit.runs_le_of_rest hm)⟩

def withinSmallRun : State :=
  ((system crossbeamDriver small).exec (fun _ _ => true) (start crossbeamDriver small)
    (smallRun.take 19)).get rfl

theorem withinSmallRun_reachable : (system crossbeamDriver small).Reachable withinSmallRun :=
  System.Reaches.mono (fun _ _ _ => trivial) (System.exec_get _ _ _ _ rfl)

theorem notification_ends_run_small :
    (∀ msg ∈ afterSmallRun.net.put .notifier, msg = .testData 1) ∧ EndOfRun small 1 afterSmallRun ∧
    withinSmallRun.net.put .notifier = [] ∧
    ∀ t, (system crossbeamDriver small).Reaches WithinRun withinSmallRun t →
      (system crossbeamDriver small).Stuck WithinRun t → (t.net.put .notifier).length = 1 := by
  have h := notification_ends_run (by simp [awaitingDrivers]) afterSmallRun_reachable
  refine ⟨h.1, h.2.2.2.2.1 Nat.one_pos rfl, rfl, ?_⟩
  intro t ht hstuck
  have h := notification_ends_run (by simp [awaitingDrivers]) withinSmallRun_reachable
  exact (h.2.2.2.2.2.2 t ht hstuck).2.2

end ChannelExecutor.Experiment
