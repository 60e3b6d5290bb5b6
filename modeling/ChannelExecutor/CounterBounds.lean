import ChannelExecutor.Settled

set_option autoImplicit false

namespace ChannelExecutor.Experiment

open Lib (Call Net System)
open State

/-- The counters of the forwarder behind `c`, once it is through with its message. -/
structure Counts (k : Params) (s : State) (c : Chan) (f : Forwarder Chan) : Prop where
  result : (s.net.current c).result = .ok f
  received : f.receivedCount ≤ if k.relays c then s.runs * k.messages else k.quota c - 1
  sent : f.sendCount ≤ if k.relays c then s.runs * k.messages else 0
  next : f.nextSeq ≤ if k.relays c then s.runs * k.messages else 0

def Params.numbers (k : Params) (r : ℕ) : Chan → ℕ
  | .lane _ i => if i = 1 then k.messages else r * k.messages
  | .concentrator => k.messages + 1
  | .notifier => k.lanes + 1

section Counters

variable {d : Driver} {k : Params} {send : Send} {flavour : Chan → Sender} {s : State}

theorem nextAfter_stream_le (k : Params) (i n : ℕ) : nextAfter 0 (k.stream i n) ≤ n := by
  unfold Params.stream
  split
  · rw [nextAfter_rounds]
    split
    next hn => exact Nat.zero_le n
    next hn =>
      have := Nat.mod_le (n - 1) k.messages
      omega
  · rw [nextAfter_range]

theorem Inv.counts (hi : Inv d k flavour (· ∈ k.channels) s) (hw : d.Wires k send flavour .block)
    {c : Chan} (hc : c ∈ k.channels) : ∃ f, Counts k s c f := by
  have hK : ∀ c ∈ k.channels, k.relays c → c ∈ k.channels := fun _ hc _ => hc
  cases hr : k.relays c with
  | true =>
    cases c with
    | concentrator => cases hr
    | notifier => cases hr
    | lane l i =>
      obtain ⟨hl, hi0, -⟩ := k.mem_channels_lane.mp hc
      have hip : i < k.pipelines := by simpa [Params.relays] using hr
      obtain ⟨n, hn⟩ := hi.arrivals hw hK hl hi0 (by omega)
      have hstream := prefix_stream ((hi.given_prefix _).trans hn)
      have hnext := nextAfter_stream_le k i (s.given (.lane l i)).length
      rw [← hstream] at hnext
      have hle := Nat.le_trans (hi.given_le (.lane l i)) (hi.put_le hw hK hl hi0 (by omega))
      refine ⟨_, (hi.relay_sends hw hK hl hi0 hip).2, ?_, ?_, ?_⟩
      all_goals rw [if_pos hr, relayed]
      all_goals split
      · exact Nat.zero_le _
      · exact hle
      · exact Nat.zero_le _
      · exact hle
      · exact Nat.zero_le _
      · exact Nat.le_trans hnext hle
  | false =>
    have hpos := k.quota_pos c
    by_cases hgot : s.net.got c = []
    · have hfeed : Net.feed d.receive (newForwarder c) (s.net.got c) = .after [] (.done (newForwarder c)) := by
        rw [hgot]
        rfl
      refine ⟨_, (hi.sound.of_feed hc hfeed).2, ?_, ?_, ?_⟩
      all_goals rw [if_neg (by simp [hr])]
      all_goals exact Nat.zero_le _
    · have hmod := Nat.mod_lt (s.given c).length hpos
      refine ⟨_, (hi.sound.of_feed hc (hi.counting_feed hw hc hr hgot)).2, ?_, ?_, ?_⟩
      all_goals rw [if_neg (by simp [hr])]
      · exact Nat.le_sub_one_of_lt hmod
      · exact Nat.le_refl 0
      · exact Nat.le_refl 0

theorem Inv.numbers_lt (hi : Inv d k flavour (· ∈ k.channels) s) (hw : d.Wires k send flavour .block)
    (h : (system d k).Reachable s) {c : Chan} (hc : c ∈ k.sites) :
    ∀ seq ∈ seqs (s.net.put c), seq < k.numbers s.runs c := by
  have hK : ∀ c ∈ k.channels, k.relays c → c ∈ k.channels := fun _ hc _ => hc
  intro seq hseq
  cases c with
  | lane l i =>
    obtain ⟨hl, hi0, hip⟩ := k.mem_channels_lane.mp (List.mem_of_ne_of_mem (by simp) hc)
    obtain ⟨n, hn⟩ := hi.arrivals hw hK hl hi0 hip
    have hlen := hi.put_le hw hK hl hi0 hip
    rw [prefix_stream hn, Params.stream] at hseq
    rw [Params.numbers]
    by_cases hi1 : i = 1
    · rw [if_pos hi1] at hseq ⊢
      obtain ⟨j, -, rfl⟩ := List.mem_map.mp hseq
      exact Nat.mod_lt j k.messages_pos
    · rw [if_neg hi1, List.mem_range] at hseq
      rw [if_neg hi1]
      omega
  | concentrator =>
    rw [put_concentrator hw h seq hseq]
    exact Nat.lt_succ_self _
  | notifier =>
    obtain ⟨msg, hmsg, hdata⟩ := List.mem_filterMap.mp hseq
    rw [hi.notifications hw msg hmsg] at hdata
    rw [← Option.some.inj hdata]
    exact Nat.lt_succ_self _

end Counters

theorem counters_bounded {d : Driver} (hd : d ∈ awaitingDrivers) {k : Params} {s : State}
    (h : (system d k).Reachable s) :
    (∀ c ∈ k.channels, ∃ f, Counts k s c f) ∧
      ∀ c ∈ k.sites, ∀ seq ∈ seqs (s.net.put c), seq < k.numbers s.runs c := by
  obtain ⟨send, flavour, hw⟩ := wires_awaiting hd k
  have hi := (reaches_awaited hw h).1
  exact ⟨fun c hc => hi.counts hw hc, fun c hc => hi.numbers_lt hw h hc⟩

theorem counters_bounded_small : withinSmallRun.runs = 1 ∧
    ∀ c ∈ small.sites, ∀ seq ∈ seqs (withinSmallRun.net.put c), seq < small.numbers 1 c :=
  ⟨rfl, (counters_bounded (by simp [awaitingDrivers]) withinSmallRun_reachable).2⟩

end ChannelExecutor.Experiment
