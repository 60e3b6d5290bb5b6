import ChannelExecutor.Lib.Amortized
import ChannelExecutor.PipelineProgress

set_option autoImplicit false

namespace ChannelExecutor.Experiment

open Lib (Call Net System sum_map_set)
open State

/-- What a message in a channel will cost: to take it, to pass it on, and to end the call. -/
def Params.weight (k : Params) : Chan → ℕ
  | .lane _ i => 3 * (k.pipelines - i) + 6
  | .concentrator => 3
  | .notifier => 0

def Op.work (w : Chan → ℕ) : Op → ℕ
  | block call => 1 + call.work w
  | detach call => 1 + call.work w
  | _ => 1

def Params.sites (k : Params) : List Chan := .notifier :: k.channels

def State.work (k : Params) (s : State) : ℕ :=
  s.net.work k.weight k.sites + (s.main.map (Op.work k.weight)).sum +
    (s.tasks.map (Call.work k.weight)).sum

namespace Params

variable (k : Params)

theorem weight_next {c : Chan} (hc : c ∈ k.channels) : k.weight (k.next c) + 3 = k.weight c := by
  obtain ⟨l, i, rfl, hl, hi0, hip⟩ | ⟨l, hl, rfl⟩ | rfl := k.channel_cases hc
  · rw [k.next_relay hip]
    simp only [weight]
    omega
  · simp [weight]
  · rfl

theorem sites_nodup : k.sites.Nodup := List.nodup_cons.mpr ⟨k.notifier_not_mem, k.channels_nodup⟩

theorem mem_sites {c : Chan} (hc : c ∈ k.channels) : c ∈ k.sites := List.mem_cons_of_mem _ hc

theorem next_mem_sites {c : Chan} (hc : c ∈ k.channels) : k.next c ∈ k.sites := by
  obtain ⟨l, i, rfl, hl, hi0, hip⟩ | ⟨l, hl, rfl⟩ | rfl := k.channel_cases hc
  · rw [k.next_relay hip]
    exact k.mem_sites (k.mem_channels_lane.mpr ⟨hl, Nat.succ_pos i, hip⟩)
  · rw [k.next_last]
    exact k.mem_sites k.concentrator_mem
  · exact List.mem_cons_self

end Params

section Work

variable {d : Driver} {k : Params} {send : Send} {flavour : Chan → Sender}
variable {mode : Sending Chan Unit → Op} {K : Chan → Prop} {s t : State} {a : Act}

theorem Inv.accept_sends_le (hi : Inv d k flavour K s) (hw : d.Wires k send flavour mode)
    (hK : ∀ c ∈ k.channels, k.relays c → K c) {c : Chan} (hc : c ∈ k.channels) {msg : Message}
    {rest : List Message} (hidle : s.net.call c = none) (hq : s.net.queue c = msg :: rest)
    (hi' : Inv d k flavour K { s with net := { s.net.pop c msg rest with
      call := Function.update s.net.call c (some (d.receive (s.net.proc c) msg)) } }) :
    (∀ p ∈ (d.receive (s.net.proc c) msg).sends, p.1 = k.next c) ∧
      (d.receive (s.net.proc c) msg).sends.length ≤ 1 := by
  have hnext := (hi'.sends_next hw hK hc).1
  simp only [State.sends, Net.current, Function.update_self, Option.getD_some, Net.pop] at hnext
  constructor
  · intro p hp
    obtain ⟨seq, rfl⟩ := hnext p (List.mem_append_right _ hp)
    rfl
  cases hr : k.relays c with
  | true =>
    obtain ⟨l, i, rfl, hl, hi0, hip⟩ | ⟨l, hl, rfl⟩ | rfl := k.channel_cases hc
    · -- as many sends as data taken, before the call and with it
      have hs := congrArg List.length (hi.relay_sends hw hK hl hi0 hip).1
      have ht := congrArg List.length (hi'.relay_sends hw hK hl hi0 hip).1
      have hone : (seqs [msg]).length ≤ 1 := List.length_filterMap_le _ _
      simp only [State.sends, State.given, Net.current, Net.pop, hidle, Function.update_self,
        Option.getD_some, Option.getD_none, Call.sends_done, List.append_nil, List.length_append,
        List.length_map, List.length_range, seqs_append] at hs ht
      omega
    · simp [k.relays_last] at hr
    · cases hr
  | false =>
    obtain ⟨o, n, f, hfeed, hf, -⟩ := hi.tally_feed hw hr
    obtain ⟨other, hreceive⟩ := hw.receive
    rw [(hi.sound.of_feed_idle hc hfeed hidle).2, hreceive]
    apply hf.sends_le hw.delivers
    intro m hm
    have hgot := hi'.got_configs c m
    simp only [Net.pop, Function.update_self, configs_append] at hgot
    have := hgot (List.mem_append_right _ hm)
    rwa [config_eq, if_neg (by simp [hr])] at this

theorem Inv.accept_work_lt (hi : Inv d k flavour K s) (hw : d.Wires k send flavour mode)
    (hK : ∀ c ∈ k.channels, k.relays c → K c) {thread index : ℕ}
    (h : step d k s (.receive thread index) = some t) : t.work k < s.work k := by
  have hi' := step_inv hi hw hK (fun _ _ hputs => by simp [puts] at hputs) h
  cases step_does h with
  | @accept _ _ recvs c net ht hidle hindex hn =>
    have hc : c ∈ k.channels :=
      (hi.ranks recvs (.inl (List.mem_of_getElem? ht)) c (List.mem_of_getElem? hindex)).1
    have hlt : net.work k.weight k.sites < s.net.work k.weight k.sites := by
      apply Net.work_accept k.sites_nodup (k.mem_sites hc) hn
      intro msg rest hcall hq
      obtain ⟨msg', rest', -, hq', rfl⟩ := Net.accept_cases hn
      obtain ⟨rfl, rfl⟩ := List.cons.inj (hq.symm.trans hq')
      obtain ⟨hnext, hone⟩ := hi.accept_sends_le hw hK hc hcall hq hi'
      have hle := Call.work_le (w := k.weight) hnext
      have hmul := Nat.mul_le_mul_right (1 + k.weight (k.next c)) hone
      have := k.weight_next hc
      omega
    simp only [State.work]
    omega

theorem Inv.work_lt (hi : Inv d k flavour K s) (hw : d.Wires k send flavour mode)
    (hK : ∀ c ∈ k.channels, k.relays c → K c) (ha : a ≠ .run) (h : step d k s a = some t) :
    t.work k < s.work k := by
  cases step_does h with
  | spawn hm => simp [State.work, hm, Op.work]
  | sent hm => simp [State.work, hm, Op.work]
  | @send c msg rest ops hm hroom =>
    have := Net.work_push (w := k.weight) k.sites k.sites_nodup s.net c msg
    simp only [State.work, hm, List.map_cons, List.sum_cons, Op.work, Call.work_send]
    omega
  | detach hm =>
    simp only [State.work, hm, List.map_cons, List.sum_cons, Op.work, List.map_append,
      List.sum_append, List.map_nil, List.sum_nil]
    omega
  | @recv c ops net hm hn =>
    have hc : c ∈ k.sites := by
      rw [hi.recv_notifier (c := c) (by simp [hm])]
      exact List.mem_cons_self
    have := Net.work_take (w := k.weight) k.sites_nodup hc hn
    simp only [State.work, hm, List.map_cons, List.sum_cons, Op.work]
    omega
  | run hm => exact absurd rfl ha
  | accept ht hidle hc hn => exact hi.accept_work_lt hw hK h
  | @advance c net hn =>
    have hc : c ∈ k.channels := by
      obtain ⟨dst, msg, rest, hcall, -, -⟩ | ⟨b, hcall, -⟩ := Net.advance_cases hn
      · exact hi.active c (by simp [hcall])
      · exact hi.active c (by simp [hcall])
    have := Net.work_advance (w := k.weight) k.sites_nodup (k.mem_sites hc) hn
    simp only [State.work]
    omega
  | @task j c msg rest hj hroom =>
    have hpush := Net.work_push (w := k.weight) k.sites k.sites_nodup s.net c msg
    have := sum_map_set (Call.work k.weight) hj rest
    simp only [Call.work_send] at this
    simp only [State.work]
    omega

end Work

end ChannelExecutor.Experiment
