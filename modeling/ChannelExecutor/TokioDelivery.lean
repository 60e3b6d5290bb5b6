import ChannelExecutor.BackPressure

set_option autoImplicit false

namespace ChannelExecutor.Experiment

open Lib (Call Net System)
open State

structure Delivered (k : Params) (s : State) : Prop where
  accepts : ∀ l < k.lanes, ∀ i, 0 < i → i < k.pipelines → ∀ seq rest,
    s.net.call (.lane l i) = none → s.net.queue (.lane l i) = .testData seq :: rest →
    (s.net.proc (.lane l i)).senders ≠ []
  no_panic : ∀ e, ¬ s.Panics e
  received : Halted tokioDriver k s → ∀ l < k.lanes, ∀ i, 0 < i → i ≤ k.pipelines →
    (s.given (.lane l i)).length = (seqs (s.net.put (.lane l 1))).length

def Relay (k : Params) (c : Chan) : Prop := c ∈ k.channels ∧ k.relays c = true

theorem Inv.accepts {d : Driver} {k : Params} {send : Send} {flavour : Chan → Sender}
    {mode : Sending Chan Unit → Op} {K : Chan → Prop} {s : State} (hi : Inv d k flavour K s)
    (hw : d.Wires k send flavour mode) (hK : ∀ c ∈ k.channels, k.relays c → K c) {l i : ℕ}
    (hl : l < k.lanes) (hi0 : 0 < i) (hip : i < k.pipelines) {seq : ℕ} {rest : List Message}
    (hidle : s.net.call (.lane l i) = none) (hq : s.net.queue (.lane l i) = .testData seq :: rest) :
    (s.net.proc (.lane l i)).senders ≠ [] := by
  have hc : .lane l i ∈ k.channels := k.mem_channels_lane.mpr ⟨hl, hi0, by omega⟩
  have hb := (hi.relay_sends hw hK hl hi0 hip).2
  simp only [Net.current, hidle, Option.getD_none, Call.result_done, Except.ok.injEq] at hb
  have hgot : s.net.got (.lane l i) ≠ [] := by
    intro hnil
    -- the first message of the channel would be data
    have hfifo := hi.sound.fifo (.lane l i)
    rw [hnil, hq, List.nil_append] at hfifo
    rcases hi.ready _ (hK _ hc (by simpa [Params.relays] using hip)) with hput | ⟨msgs, hput⟩
    · simp [hput] at hfifo
    · have hseq := config_seq? flavour k (.lane l i)
      rw [(List.cons.inj (hput.symm.trans hfifo)).1] at hseq
      cases hseq
  rw [hb, relayed, if_neg hgot]
  simp [Forwarder.relay]

theorem tokio_delivers {k : Params} {s : State}
    (h : (system tokioDriver k).ReachableBy (ConfigFirst (Relay k)) s) :
    Delivered k s ∧ ∀ a t, a ≠ .run → step tokioDriver k s a = some t → t.work k < s.work k := by
  have hw := wires_tokio k
  have hK : ∀ c ∈ k.channels, k.relays c → Relay k c := fun _ hc hr => ⟨hc, hr⟩
  have hi := reaches_inv hw hK h
  refine ⟨?_, fun a t ha hstep => hi.work_lt hw hK ha hstep⟩
  constructor
  case accepts => exact fun l hl i hi0 hip seq rest hidle hq => hi.accepts hw hK hl hi0 hip hidle hq
  case no_panic => exact hi.no_panic hw hK
  case received =>
    intro hh l hl i hi0 hip
    exact hi.lane_passed hw hK (hi.quiescent hw hK hh).1 hl hi0 hip

def toldFirst (k : Params) (s : State) (a : Act) : Bool :=
  match s.puts a with
  | some (c, .testData _) => !k.relays c || !(configs (s.net.put c)).isEmpty
  | _ => true

theorem configFirst_of_toldFirst {k : Params} {s : State} {a : Act} (h : toldFirst k s a = true) :
    ConfigFirst (Relay k) s a := by
  intro c seq hputs hc
  simpa [toldFirst, hputs, hc.2] using h

def twice : Params :=
  ⟨2, 1, 2, fun _ => 250, Nat.two_pos, Nat.one_pos, Nat.two_pos, fun _ => Nat.succ_pos 249⟩

def inOrder : List Act := List.replicate 6 .main ++ [
  .task 0, .task 1, .task 2, .run, .main, .task 3,
  .receive 1 0, .advance (.lane 0 1), .receive 1 0, .advance (.lane 0 1), .advance (.lane 0 1)]

def afterInOrder : State :=
  ((system tokioDriver twice).exec (toldFirst twice) (start tokioDriver twice) inOrder).get rfl

theorem afterInOrder_reachable :
    (system tokioDriver twice).ReachableBy (ConfigFirst (Relay twice)) afterInOrder :=
  System.Reaches.mono (fun _ _ => configFirst_of_toldFirst) (System.exec_get _ _ _ _ rfl)

theorem tokio_delivers_in_order :
    afterInOrder.net.queue (.lane 0 2) =
      [.notify (.tokioSender .concentrator) 2, .testData 0] ∧ Delivered twice afterInOrder :=
  ⟨rfl, (tokio_delivers afterInOrder_reachable).1⟩

def overtaking : List Act := List.replicate 6 .main ++ [.run, .main, .task 3]

def afterOvertaking : State :=
  ((system tokioDriver twice).exec (fun _ _ => true) (start tokioDriver twice) overtaking).get rfl

/-- The first message is taken without a sender to pass it to, and the second is out of sequence. -/
def swallowing : List Act :=
  [.receive 1 0, .advance (.lane 0 1), .task 0, .task 3, .receive 1 0, .advance (.lane 0 1),
    .receive 1 0]

def afterSwallowing : State :=
  ((system tokioDriver twice).exec (fun _ _ => true) afterOvertaking swallowing).get rfl

theorem tokio_swallows :
    (system tokioDriver twice).Reachable afterOvertaking ∧
    (afterOvertaking.net.call (.lane 0 1) = none ∧
      afterOvertaking.net.queue (.lane 0 1) = [.testData 0] ∧
      (afterOvertaking.net.proc (.lane 0 1)).senders = []) ∧
    (system tokioDriver twice).Reachable afterSwallowing ∧
    (afterSwallowing.given (.lane 0 1) = [0, 1] ∧ afterSwallowing.sends (.lane 0 1) = []) ∧
    afterSwallowing.Panics (.sequence 1 (.testData 1)) ∧
    ¬ (Delivered twice afterOvertaking ∨ Delivered twice afterSwallowing) := by
  have hreach : (system tokioDriver twice).Reachable afterOvertaking :=
    System.Reaches.mono (fun _ _ _ => trivial) (System.exec_get _ _ _ _ rfl)
  have hpanic : afterSwallowing.Panics (.sequence 1 (.testData 1)) := .inl ⟨.lane 0 1, rfl⟩
  refine ⟨hreach, ⟨rfl, rfl, rfl⟩, ?_, ⟨rfl, rfl⟩, hpanic, ?_⟩
  · exact hreach.trans (System.Reaches.mono (fun _ _ _ => trivial) (System.exec_get _ _ _ _ rfl))
  · rintro (h | h)
    · exact h.accepts 0 (by decide) 1 (by decide) (by decide) 0 [] rfl rfl rfl
    · exact h.no_panic _ hpanic

end ChannelExecutor.Experiment
