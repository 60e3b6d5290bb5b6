import ChannelExecutor.Teardown

set_option autoImplicit false

namespace ChannelExecutor.Experiment

open Lib (Call Net System)
open Lib.Net (feed)
open State

structure Site where
  queue : List Message
  put : List Message
  got : List Message
  out : List (Chan × Message)
  current : Sending Chan (Forwarder Chan)

def State.site (s : State) (c : Chan) : Site :=
  ⟨s.net.queue c, s.net.put c, s.net.got c, s.net.out c, s.net.current c⟩

namespace Params

variable (k : Params)

def intake (r : ℕ) : Chan → List ℕ
  | .lane _ i => k.stream i (r * k.messages)
  | .concentrator => List.replicate (k.lanes * r) k.messages
  | .notifier => List.replicate r k.lanes

def passed (r : ℕ) (c : Chan) : List ℕ :=
  if k.relays c then List.range (r * k.messages) else List.replicate r (k.quota c)

def resting (flavour : Chan → Sender) (r : ℕ) (c : Chan) : Forwarder Chan :=
  if k.relays c then
    .relay c.position (flavour (k.next c)) (r * k.messages) (nextAfter 0 (k.intake r c))
  else .counting c.position (flavour (k.next c)) (k.quota c) 0

def settled (flavour : Chan → Sender) (r : ℕ) (c : Chan) : Site where
  queue := []
  put := config flavour k c :: (k.intake r c).map .testData
  got := config flavour k c :: (k.intake r c).map .testData
  out := (k.passed r c).map fun seq => (k.next c, .testData seq)
  current := .done (k.resting flavour r c)

end Params

section Settled

variable {d : Driver} {k : Params} {send : Send} {flavour : Chan → Sender}
variable {K : Chan → Prop} {s t : State} {a : Act}

theorem Entry.counts {mode : Sending Chan Unit → Op} (hi : Inv d k flavour K s) (hi' : Inv d k flavour K t)
    (hw : d.Wires k send flavour mode) (h : Entry k K s t)
    (hs : ∀ seq ∈ seqs (s.net.put .concentrator), seq = k.messages) :
    ∀ seq ∈ seqs (t.net.put .concentrator), seq = k.messages := by
  cases h with
  | still _ hput _ => rwa [hput]
  | post he _ hput _ =>
    rcases he.cases hi with ⟨l, -, rfl, seq, rfl⟩ | ⟨-, rfl⟩
    · rwa [hput, Function.update_of_ne (by simp)]
    · rwa [hput, seqs_put_config]
  | @pass c seq _ hc _ hput hout =>
    obtain ⟨l, i, rfl, -, -, hip⟩ | ⟨l, hl, rfl⟩ | rfl := k.channel_cases hc
    · rwa [hput, k.next_relay hip, Function.update_of_ne (by simp)]
    · have hseq : seq = k.messages := by
        obtain ⟨o, n, f, hsends, -, -, -⟩ := hi'.tally_sends hw hc (k.relays_last l)
        have hmem : (k.next (.lane l k.pipelines), TestMessage.testData seq) ∈
            t.sends (.lane l k.pipelines) := by
          apply List.mem_append_left
          rw [hout, Function.update_self]
          exact List.mem_append_right _ List.mem_cons_self
        rw [hsends] at hmem
        exact TestMessage.testData.inj (Prod.mk.inj (List.mem_replicate.mp hmem).2).2
      rw [hput, k.next_last, Function.update_self]
      intro x hx
      rw [seqs_append, List.mem_append] at hx
      rcases hx with hx | hx
      · exact hs x hx
      · rw [List.mem_singleton.mp hx, hseq]
    · rwa [hput, k.next_concentrator, Function.update_of_ne (by simp)]

theorem put_concentrator (hw : d.Wires k send flavour .block) (h : (system d k).Reachable s) :
    ∀ seq ∈ seqs (s.net.put .concentrator), seq = k.messages := by
  have hK : ∀ c ∈ k.channels, k.relays c → c ∈ k.channels := fun _ hc _ => hc
  suffices hrun : (system d k).Reachable s ∧ ∀ seq ∈ seqs (s.net.put .concentrator), seq = k.messages from
    hrun.2
  refine System.Reaches.invariant (I := fun s => (system d k).Reachable s ∧
    ∀ seq ∈ seqs (s.net.put .concentrator), seq = k.messages) h ⟨.refl, by simp [system, start, Net.start]⟩ ?_
  rintro s a t ⟨hreach, hs⟩ - hstep
  have hreach' : (system d k).Reachable t := hreach.step trivial hstep
  refine ⟨hreach', ?_⟩
  obtain ⟨hi, haw⟩ := reaches_awaited hw hreach
  have hi' := (reaches_awaited hw hreach').1
  have hdoes : Does d k s a t := step_does hstep
  by_cases ha : a = .run
  · subst ha
    rw [(hdoes.run_scripts hw).2.1]
    exact hs
  · obtain ⟨hturn, -⟩ := does_turn hdoes ha
    exact (hi.entry hw hK (hi.config_first haw hw hK) hturn).counts hi hi' hw hs

theorem Inv.current_done (hi : Inv d k flavour (· ∈ k.channels) s) (hw : d.Wires k send flavour .block)
    (hm : s.main = []) (c : Chan) : ∃ f, s.net.current c = .done f := by
  cases hcall : s.net.call c with
  | none => exact ⟨s.net.proc c, by simp [Net.current, hcall]⟩
  | some call =>
    obtain ⟨f, rfl⟩ := hi.call_done hw hm hcall
    exact ⟨f, by simp [Net.current, hcall]⟩

theorem Inv.got_config (hi : Inv d k flavour (· ∈ k.channels) s) (hs : Awaited s) (hm : s.main = [])
    {c : Chan} (hc : c ∈ k.channels) (hq : s.net.queue c = []) :
    s.net.got c = config flavour k c :: (s.given c).map .testData := by
  apply (hi.got_shape hc hc).resolve_left
  intro hgot
  have hlen := (hi.told c).length_eq
  have hpending : s.pending = [] := by simp [State.pending, scripts, hm, hs.tasks]
  rw [hi.sound.fifo c, hgot, hq, hpending, if_pos hc] at hlen
  cases hlen

theorem Inv.given_eq (hi : Inv d k flavour (· ∈ k.channels) s) (hw : d.Wires k send flavour .block)
    (h : (system d k).Reachable s) (hm : s.main = []) {c : Chan} (hc : c ∈ k.channels) :
    s.given c = k.intake s.runs c := by
  have hK : ∀ c ∈ k.channels, k.relays c → c ∈ k.channels := fun _ hc _ => hc
  obtain ⟨hlanes, hcon, -⟩ := hi.barrier hw hK (hi.runs_le_of_rest hm)
  cases c with
  | lane l i =>
    obtain ⟨hl, hi0, hip⟩ := k.mem_channels_lane.mp hc
    obtain ⟨n, hn⟩ := hi.arrivals hw hK hl hi0 hip
    have hstream := prefix_stream ((hi.given_prefix _).trans hn)
    rw [hstream, (hlanes l hl i hi0 hip).1]
    rfl
  | concentrator =>
    rw [Params.intake, List.eq_replicate_iff]
    refine ⟨hcon, ?_⟩
    intro seq hseq
    exact put_concentrator hw h seq ((hi.given_prefix _).subset hseq)
  | notifier => exact absurd hc k.notifier_not_mem

theorem intake_length (k : Params) (r : ℕ) {c : Chan} (hr : k.relays c = false)
    (hc : c ∈ k.channels) : (k.intake r c).length = k.quota c * r := by
  cases c with
  | lane l i =>
    rw [Params.intake, Params.stream, Params.quota, Nat.mul_comm k.messages]
    split
    · simp [rounds]
    · simp
  | concentrator => simp [Params.intake, Params.quota]
  | notifier => exact absurd hc k.notifier_not_mem

theorem Inv.sends_settled (hi : Inv d k flavour (· ∈ k.channels) s) (hw : d.Wires k send flavour .block)
    {c : Chan} (hc : c ∈ k.channels) (hne : s.net.got c ≠ []) (hgiven : s.given c = k.intake s.runs c) :
    s.sends c = (k.passed s.runs c).map (fun seq => (k.next c, .testData seq)) ∧
      (s.net.current c).result = .ok (k.resting flavour s.runs c) := by
  have hK : ∀ c ∈ k.channels, k.relays c → c ∈ k.channels := fun _ hc _ => hc
  cases hr : k.relays c with
  | true =>
    cases c with
    | lane l i =>
      obtain ⟨hl, hi0, -⟩ := k.mem_channels_lane.mp hc
      have hip : i < k.pipelines := by simpa [Params.relays] using hr
      have hlen : (s.given (.lane l i)).length = s.runs * k.messages := by
        rw [hgiven, Params.intake, Params.stream]
        split
        · simp [rounds]
        · simp
      obtain ⟨hsends, hresult⟩ := hi.relay_sends hw hK hl hi0 hip
      rw [relayed, if_neg hne] at hresult
      rw [hsends, hresult, hlen, hgiven, Params.passed, if_pos hr, Params.resting, if_pos hr,
        k.next_relay hip]
      exact ⟨rfl, rfl⟩
    | concentrator => cases hr
    | notifier => cases hr
  | false =>
    have hpos := k.quota_pos c
    have hlen : (s.given c).length = k.quota c * s.runs := by rw [hgiven, intake_length k _ hr hc]
    obtain ⟨hsends, hresult⟩ := hi.sound.of_feed hc (hi.counting_feed hw hc hr hne)
    rw [hlen, Nat.mul_div_cancel_left _ hpos] at hsends
    rw [hlen, Nat.mul_mod_right] at hresult
    rw [State.sends, hsends, hresult, Params.passed, if_neg (by simp [hr]), Params.resting,
      if_neg (by simp [hr]), List.map_replicate]
    exact ⟨rfl, rfl⟩

theorem Inv.settled (hi : Inv d k flavour (· ∈ k.channels) s) (hs : Awaited s)
    (hw : d.Wires k send flavour .block) (h : (system d k).Reachable s) (hm : s.main = [])
    {c : Chan} (hc : c ∈ k.channels) (hq : s.net.queue c = []) :
    s.site c = k.settled flavour s.runs c := by
  have hgiven := hi.given_eq hw h hm hc
  have hgot := hi.got_config hs hm hc hq
  have hput : s.net.put c = s.net.got c := by rw [hi.sound.fifo c, hq, List.append_nil]
  obtain ⟨hsends, hresult⟩ := hi.sends_settled hw hc (by simp [hgot]) hgiven
  obtain ⟨f, hf⟩ := hi.current_done hw hm c
  rw [State.sends, hf, Call.sends_done, List.append_nil] at hsends
  rw [hf] at hresult
  rw [State.site, Params.settled, hq, hput, hgot, hgiven, hsends, hf, Except.ok.inj hresult]

theorem Inv.notifier_settled (hi : Inv d k flavour (· ∈ k.channels) s)
    (hw : d.Wires k send flavour .block) (hm : s.main = []) :
    s.net.queue .notifier = [] ∧ s.net.put .notifier = (k.intake s.runs .notifier).map .testData ∧
      s.net.got .notifier = (k.intake s.runs .notifier).map .testData := by
  have hq := hi.notifier_empty hw hm
  have hput : s.net.put .notifier = s.net.got .notifier := by
    rw [hi.sound.fifo .notifier, hq, List.append_nil]
  have hle := hi.put_notifier_le hw fun _ hc _ => hc
  have hge := hi.runs_le_of_rest hm
  have hall : s.net.put .notifier = (k.intake s.runs .notifier).map .testData := by
    rw [Params.intake, List.map_replicate, List.eq_replicate_iff]
    exact ⟨Nat.le_antisymm hle hge, hi.notifications hw⟩
  exact ⟨hq, hall, hput ▸ hall⟩

theorem wires_always (hd : d ∈ awaitingDrivers) :
    ∃ send flavour, ∀ k, d.Wires k send flavour .block := by
  simp only [awaitingDrivers, List.mem_cons, List.not_mem_nil, or_false] at hd
  rcases hd with rfl | rfl | rfl | rfl | rfl | rfl
  · exact ⟨_, _, fun _ => wires_tasks sendCmdAsync_flume ⟨.inl rfl, fun _ _ => rfl⟩ ⟨_, rfl⟩ rfl rfl rfl⟩
  · exact ⟨_, _, fun _ => wires_tasks sendCmdAsync_flume ⟨.inl rfl, fun _ _ => rfl⟩ ⟨_, rfl⟩ rfl rfl rfl⟩
  · exact ⟨_, _, fun _ => wires_tasks sendCmdAsync_smol ⟨.inl rfl, fun _ _ => rfl⟩ ⟨_, rfl⟩ rfl rfl rfl⟩
  · exact ⟨_, _, fun _ =>
      wires_tasks sendCmdAsync_asyncCrossbeam ⟨.inl rfl, fun _ _ => rfl⟩ ⟨_, rfl⟩ rfl rfl rfl⟩
  · exact ⟨_, _, wires_crossbeam⟩
  · exact ⟨_, _, fun _ => wires_tasks sendCmd_d3 ⟨.inl rfl, fun _ _ => rfl⟩ ⟨_, rfl⟩ rfl rfl rfl⟩

end Settled

/-- `flavour` is all that a driver leaves of itself in the state between the runs. -/
theorem session_settles {d : Driver} (hd : d ∈ awaitingDrivers) :
    ∃ send flavour, (∀ k, d.Wires k send flavour .block) ∧
      ∀ k s, (system d k).Reachable s →
        (s.main = [] ∧ 0 < s.runs ∨ d ∈ libraryDrivers ∧ Halted d k s) →
        (∀ c ∈ k.channels, s.site c = k.settled flavour s.runs c) ∧
        s.net.queue .notifier = [] ∧ s.net.put .notifier = (k.intake s.runs .notifier).map .testData ∧
        s.net.got .notifier = (k.intake s.runs .notifier).map .testData := by
  obtain ⟨send, flavour, hw⟩ := wires_always hd
  refine ⟨send, flavour, hw, ?_⟩
  intro k s h hr
  obtain ⟨hi, hs⟩ := reaches_awaited (hw k) h
  have hm : s.main = [] := by
    rcases hr with ⟨hm, -⟩ | ⟨-, hh⟩
    · exact hm
    · exact hi.halted_rests hs (hw k) hh
  refine ⟨?_, hi.notifier_settled (hw k) hm⟩
  intro c hc
  apply hi.settled hs (hw k) h hm hc
  rcases hr with ⟨-, hr⟩ | ⟨-, hh⟩
  · exact (hi.endOfRun (hw k) hr (hi.runs_le_of_rest hm)).drained c hc
  · exact ((hi.quiescent (hw k) (fun _ hc _ => hc) hh).1 c hc).2

theorem session_settles_small : ∃ flavour,
    ∀ c ∈ small.channels, afterSmallRun.site c = small.settled flavour 1 c := by
  obtain ⟨send, flavour, -, h⟩ := session_settles (d := crossbeamDriver) (by simp [awaitingDrivers])
  exact ⟨flavour, (h small afterSmallRun afterSmallRun_reachable (.inl ⟨rfl, Nat.one_pos⟩)).1⟩

end ChannelExecutor.Experiment
