import ChannelExecutor.Lib.NetworkSteps
import ChannelExecutor.Settled

set_option autoImplicit false

namespace ChannelExecutor.Experiment

open Lib (Call Net System)
open State

def Params.room (k : Params) (l i : ℕ) : ℕ :=
  ((List.range' 1 i).map fun j => k.capacity (.lane l j)).sum + (i - 1)

structure InFlight (k : Params) (s : State) : Prop where
  queues : s.net.Within k.capacity
  calls : ∀ c ∈ k.channels, (s.net.current c).sends.length ≤ 1
  lag : ∀ l < k.lanes, ∀ i, 0 < i → i ≤ k.pipelines →
    (seqs (s.net.put (.lane l 1))).length ≤ (s.given (.lane l i)).length + k.room l i
  skew : ∀ l < k.lanes, ∀ l' < k.lanes,
    (seqs (s.net.put (.lane l 1))).length ≤ (seqs (s.net.put (.lane l' 1))).length + 1

section InFlight

variable {d : Driver} {k : Params} {send : Send} {flavour : Chan → Sender}
variable {s t : State} {a : Act}

theorem Does.within (h : Does d k s a t) (hs : s.net.Within k.capacity) : t.net.Within k.capacity := by
  cases h with
  | send hm hroom => exact hs.push hroom
  | task hj hroom => exact hs.push hroom
  | recv hm hn => exact hs.take hn
  | accept ht hidle hc hn => exact hs.accept hn
  | advance hn => exact hs.advance hn
  | _ => exact hs

theorem reaches_within (h : (system d k).Reachable s) : s.net.Within k.capacity :=
  h.invariant (Net.within_start newForwarder) fun _ _ _ hs _ hstep => (step_does hstep).within hs

theorem Does.one_send (hi : Inv d k flavour (· ∈ k.channels) s)
    (hi' : Inv d k flavour (· ∈ k.channels) t) (hw : d.Wires k send flavour .block)
    (h : Does d k s a t) {c : Chan} (hc : c ∈ k.channels)
    (hs : (s.net.current c).sends.length ≤ 1) : (t.net.current c).sends.length ≤ 1 := by
  cases h with
  | recv hm hn =>
    obtain ⟨msg, rest, -, rfl⟩ := Net.take_cases hn
    exact hs
  | @accept _ _ _ c' _ _ _ _ hn =>
    obtain ⟨msg, rest, hidle, hq, rfl⟩ := Net.accept_cases hn
    by_cases hcc : c = c'
    · subst hcc
      have hone := (hi.accept_sends_le hw (fun _ hc _ => hc) hc hidle hq hi').2
      simpa [Net.current, Net.pop] using hone
    · simpa [Net.current, Net.pop, hcc] using hs
  | @advance c' net hn =>
    obtain ⟨dst, msg, rest, hcall, -, rfl⟩ | ⟨b, hcall, rfl⟩ := Net.advance_cases hn
    · by_cases hcc : c = c'
      · subst hcc
        simp only [Net.current, hcall, Option.getD_some, Call.sends_send, List.length_cons] at hs
        simp only [Net.current, Net.sent, Function.update_self, Option.getD_some]
        omega
      · simpa [Net.current, Net.sent, Net.push, hcc] using hs
    · by_cases hcc : c = c'
      · subst hcc
        simp [Net.current, Net.finished]
      · simpa [Net.current, Net.finished, hcc] using hs
  | _ => exact hs

theorem reaches_one_send (hw : d.Wires k send flavour .block) (h : (system d k).Reachable s) :
    ∀ c ∈ k.channels, (s.net.current c).sends.length ≤ 1 := by
  suffices hrun : (system d k).Reachable s ∧ ∀ c ∈ k.channels, (s.net.current c).sends.length ≤ 1 from
    hrun.2
  refine System.Reaches.invariant (I := fun s => (system d k).Reachable s ∧
    ∀ c ∈ k.channels, (s.net.current c).sends.length ≤ 1) h ⟨.refl, fun c _ => Nat.zero_le _⟩ ?_
  rintro s a t ⟨hreach, hs⟩ - hstep
  have hreach' : (system d k).Reachable t := hreach.step trivial hstep
  refine ⟨hreach', fun c hc => ?_⟩
  exact (step_does hstep).one_send (reaches_awaited hw hreach).1 (reaches_awaited hw hreach').1 hw hc
    (hs c hc)

theorem Inv.passed_le (hi : Inv d k flavour (· ∈ k.channels) s) (hw : d.Wires k send flavour .block)
    (hcalls : ∀ c ∈ k.channels, (s.net.current c).sends.length ≤ 1) {l i : ℕ} (hl : l < k.lanes)
    (hi0 : 0 < i) (hip : i < k.pipelines) :
    (s.given (.lane l i)).length ≤ (seqs (s.net.put (.lane l (i + 1)))).length + 1 := by
  have hc : .lane l i ∈ k.channels := k.mem_channels_lane.mpr ⟨hl, hi0, by omega⟩
  have hsends := (hi.relay_sends hw (fun _ hc _ => hc) hl hi0 hip).1
  have hone := hcalls _ hc
  have hlen := congrArg List.length hsends
  rw [State.sends, List.length_append, List.length_map, List.length_range] at hlen
  -- all that was sent on is data
  have hout : s.net.out (.lane l i) = (List.range (s.net.out (.lane l i)).length).map
      fun j => (.lane l (i + 1), .testData j) := by
    have hpre : s.net.out (.lane l i) <+: s.sends (.lane l i) := List.prefix_append _ _
    rw [hsends] at hpre
    have htake := List.prefix_iff_eq_take.mp hpre
    rwa [← List.map_take, List.take_range, Nat.min_eq_left (by omega)] at htake
  have hput : (seqs (s.net.put (.lane l (i + 1)))).length = (s.net.out (.lane l i)).length := by
    rw [hi.flow l hl i hi0 hip, hout, List.map_map]
    change (seqs ((List.range _).map TestMessage.testData)).length = _
    rw [seqs_map_testData, List.length_map, List.length_range]
  omega

theorem Inv.lag (hi : Inv d k flavour (· ∈ k.channels) s) (hw : d.Wires k send flavour .block)
    (hqueues : s.net.Within k.capacity)
    (hcalls : ∀ c ∈ k.channels, (s.net.current c).sends.length ≤ 1) {l i : ℕ} (hl : l < k.lanes)
    (hi0 : 0 < i) (hip : i ≤ k.pipelines) :
    (seqs (s.net.put (.lane l 1))).length ≤ (s.given (.lane l i)).length + k.room l i := by
  have hqueue : ∀ i, (seqs (s.net.put (.lane l i))).length ≤
      (s.given (.lane l i)).length + k.capacity (.lane l i) := by
    intro i
    have hle : (seqs (s.net.queue (.lane l i))).length ≤ (s.net.queue (.lane l i)).length :=
      List.length_filterMap_le _ _
    have hcap := hqueues (.lane l i)
    rw [hi.sound.fifo, seqs_append, List.length_append]
    change (s.given (.lane l i)).length + _ ≤ _
    omega
  induction i with
  | zero => exact absurd hi0 (Nat.lt_irrefl 0)
  | succ i ih =>
    by_cases hhead : i = 0
    · subst hhead
      simpa [Params.room] using hqueue 1
    · have hpos : 0 < i := Nat.pos_of_ne_zero hhead
      have hbefore := ih hpos (by omega)
      have hpassed := hi.passed_le hw hcalls hl hpos (by omega)
      have hnext := hqueue (i + 1)
      have hroom : k.room l (i + 1) = k.room l i + k.capacity (.lane l (i + 1)) + 1 := by
        simp only [Params.room, List.range'_concat, Nat.one_mul, Nat.add_comm 1 i, List.map_append,
          List.map_cons, List.map_nil, List.sum_append, List.sum_cons, List.sum_nil]
        omega
      omega

theorem addressed_suffix (lanes : ℕ) (ids : List ℕ) {ls : List (Chan × Message)}
    (h : ls <:+ ids.flatMap fun id => (List.range lanes).map fun l => (.lane l 1, .testData id))
    {l l' : ℕ} (hl : l < lanes) (hl' : l' < lanes) :
    (addressed (.lane l 1) ls).length ≤ (addressed (.lane l' 1) ls).length + 1 := by
  have hround : ∀ l < lanes, ∀ id : ℕ, (addressed (.lane l 1)
      ((List.range lanes).map fun l => (.lane l 1, .testData id))).length = 1 := by
    intro l hl id
    rw [addressed_map (g := fun l => .lane l 1) (fun a b h => (Chan.lane.inj h).1) List.nodup_range
      (List.mem_range.mpr hl)]
    rfl
  have hrounds : ∀ l < lanes, ∀ ids : List ℕ, (addressed (.lane l 1)
      (ids.flatMap fun id => (List.range lanes).map fun l => (.lane l 1, .testData id))).length =
      ids.length := by
    intro l hl ids
    induction ids with
    | nil => rfl
    | cons id ids ih =>
      rw [List.flatMap_cons, addressed_append, List.length_append, hround l hl, ih, List.length_cons,
        Nat.add_comm]
  induction ids with
  | nil =>
    rw [List.flatMap_nil, List.suffix_nil] at h
    simp [h]
  | cons id ids ih =>
    obtain ⟨before, hbefore⟩ := h
    rw [List.flatMap_cons, List.append_eq_append_iff] at hbefore
    obtain ⟨part, hpart, rfl⟩ | ⟨rest, -, hrest⟩ := hbefore
    · -- within a round, which has one message for each lane
      have hone := hround l hl id
      rw [hpart, addressed_append, List.length_append] at hone
      rw [addressed_append, addressed_append, List.length_append, List.length_append,
        hrounds l hl, hrounds l' hl']
      omega
    · exact ih ⟨rest, hrest.symm⟩

theorem Inv.skew (hi : Inv d k flavour (· ∈ k.channels) s) {l l' : ℕ} (hl : l < k.lanes)
    (hl' : l' < k.lanes) :
    (seqs (s.net.put (.lane l 1))).length ≤ (seqs (s.net.put (.lane l' 1))).length + 1 := by
  have hhead : ∀ l < k.lanes, (seqs (s.net.put (.lane l 1))).length +
      (addressed (.lane l 1) s.line).length = s.runs * k.messages := by
    intro l hl
    have hlen := congrArg List.length (hi.heads l hl)
    have hnone : configs (addressed (.lane l 1) s.line) = [] := by
      rw [configs, List.filter_eq_nil_iff]
      intro msg hmsg
      obtain ⟨-, -, -, seq, rfl⟩ := hi.line_head (mem_addressed.mp hmsg)
      simp [TestMessage.seq?]
    have hdata := congrArg List.length (eq_map_testData hnone)
    rw [List.length_map] at hdata
    simp only [List.length_append, rounds, List.length_map, List.length_range] at hlen
    omega
  have hskew := addressed_suffix k.lanes (List.range k.messages) hi.line_suffix hl' hl
  have hleft := hhead l hl
  have hright := hhead l' hl'
  omega

end InFlight

theorem in_flight_bounded {d : Driver} (hd : d ∈ awaitingDrivers) {k : Params} {s : State}
    (h : (system d k).Reachable s) : InFlight k s := by
  obtain ⟨send, flavour, hw⟩ := wires_awaiting hd k
  have hi := (reaches_awaited hw h).1
  have hqueues := reaches_within h
  have hcalls := reaches_one_send hw h
  exact ⟨hqueues, hcalls, fun l hl i hi0 hip => hi.lag hw hqueues hcalls hl hi0 hip,
    fun l hl l' hl' => hi.skew hl hl'⟩

theorem in_flight_bounded_small : withinSmallRun.runs = 1 ∧ InFlight small withinSmallRun :=
  ⟨rfl, in_flight_bounded (by simp [awaitingDrivers]) withinSmallRun_reachable⟩

end ChannelExecutor.Experiment
