import ChannelExecutor.Lib.Funnel
import ChannelExecutor.Settled
import ChannelExecutor.TokioDelivery

set_option autoImplicit false

namespace ChannelExecutor.Experiment

open Lib (Call Net System Funnel)
open Lib.Net (feed feed_cons feed_nil)
open State

namespace Forwarder

variable {κ : Type} {send : TestMessageSender κ → TestMessage κ → Sending κ Unit}
variable {flavour : κ → TestMessageSender κ} {other : Forwarder κ → TestMessage κ → Sending κ (Forwarder κ)}

def late (id : ℕ) (next : TestMessageSender κ) (received sent seq : ℕ) : Forwarder κ :=
  ⟨id, [next], received, sent, 0, none, 1, seq⟩

theorem receive_late (hs : Delivers send flavour) {id received n k seq : ℕ} {c : κ} :
    receiveBy send other (late id (flavour c) received n k) (.testData seq) =
      if seq = k ∨ seq = 0 then
        .send c (.testData n) (.done (late id (flavour c) (received + 1) (n + 1) (seq + 1)))
      else .panic (.sequence id (.testData seq)) := by
  have hconfig : handleConfig (late id (flavour c) received n k) (.testData seq) = .error (.testData seq) :=
    rfl
  have hsend := hs c (.testData n)
  split
  next h =>
    have hseq : validateSequence (late id (flavour c) received n k) (.testData seq) =
        ((⟨id, [flavour c], received + 1, n, 0, none, 1, seq + 1⟩ : Forwarder κ), .ok (.testData seq)) := by
      by_cases hk : seq = k
      · subst hk
        simp [validateSequence, late, countReceived]
      · have h0 : seq = 0 := h.resolve_left hk
        subst h0
        simp [validateSequence, late, countReceived, hk]
    simp only [receiveBy, receive, hconfig, hseq]
    simp [handleAction, forward, hsend, handleNotification, late]
  next h =>
    obtain ⟨hk, h0⟩ := not_or.mp h
    have hseq : validateSequence (late id (flavour c) received n k) (.testData seq) =
        (late id (flavour c) received n k, .error (.testData seq)) := by
      simp [validateSequence, late, hk, h0]
    simp only [receiveBy, receive, hconfig, hseq]
    rfl

theorem feed_late (hs : Delivers send flavour) {id received n k : ℕ} {c : κ} (ds : List ℕ) :
    (∀ p ∈ (feed (receiveBy send other) (late id (flavour c) received n k) (ds.map .testData)).sends,
      ∃ seq, p = (c, .testData seq)) ∧
    (feed (receiveBy send other) (late id (flavour c) received n k) (ds.map .testData)).sends.length ≤
      ds.length ∧
    ((feed (receiveBy send other) (late id (flavour c) received n k) (ds.map .testData)).sends.length =
      ds.length → Follows k ds) := by
  induction ds generalizing received n k with
  | nil => simp [Follows]
  | cons d ds ih =>
    rw [List.map_cons, feed_cons, receive_late hs]
    split
    next hd =>
      obtain ⟨hall, hle, heq⟩ := @ih (received + 1) (n + 1) (d + 1)
      rw [Call.send_bind, Call.done_bind, Call.sends_send, List.length_cons, List.length_cons]
      refine ⟨List.forall_mem_cons.mpr ⟨⟨n, rfl⟩, hall⟩, by omega, fun hlen => ⟨hd, heq (by omega)⟩⟩
    next hd => simp

/-- What a relay makes of its messages in any order: it passes on all data only if none came before its
configuration and none out of sequence. -/
theorem feed_racing (hs : Delivers send flavour) {id n : ℕ} {c : κ} {msgs : List (TestMessage κ)}
    (hm : ∀ msg ∈ configs msgs, msg = .addSender (flavour c)) (hone : (configs msgs).length ≤ 1) :
    (∀ p ∈ (feed (receiveBy send other) (waiting id n) msgs).sends, ∃ seq, p = (c, .testData seq)) ∧
    (feed (receiveBy send other) (waiting id n) msgs).sends.length ≤ (seqs msgs).length ∧
    (0 < (seqs msgs).length →
      (feed (receiveBy send other) (waiting id n) msgs).sends.length = (seqs msgs).length →
      ∃ ds, msgs = .addSender (flavour c) :: ds.map .testData ∧ Follows 0 ds) := by
  induction msgs generalizing n with
  | nil => simp
  | cons msg msgs ih =>
    rw [feed_cons]
    cases hseq : msg.seq? with
    | some seq =>
      obtain rfl : msg = .testData seq := by
        cases msg with
        | testData seq' => exact congrArg _ (Option.some.inj hseq)
        | addSender sender => cases hseq
        | notify sender count => cases hseq
      obtain ⟨hall, hle, -⟩ := ih (n := n + 1) (by simpa using hm) (by simpa using hone)
      rw [receive_waiting, Call.done_bind, seqs_testData, List.length_cons]
      exact ⟨hall, by omega, fun _ hlen => by omega⟩
    | none =>
      rw [configs_config hseq] at hm hone
      obtain rfl := hm msg List.mem_cons_self
      have hnone : configs msgs = [] := by
        rw [List.length_cons] at hone
        exact List.length_eq_zero_iff.mp (by omega)
      have hreceive : receiveBy send other (waiting id n) (.addSender (flavour c)) =
          .done (late id (flavour c) n 0 0) := rfl
      obtain ⟨hall, hle, heq⟩ := @feed_late κ send flavour other hs id n 0 0 c (seqs msgs)
      rw [← eq_map_testData hnone] at hall hle heq
      rw [hreceive, Call.done_bind, seqs_config hseq]
      exact ⟨hall, hle, fun _ hlen => ⟨seqs msgs, by rw [← eq_map_testData hnone], heq hlen⟩⟩

theorem feed_waiting {id n : ℕ} (ds : List ℕ) :
    feed (receiveBy send other) (waiting id n) (ds.map .testData) =
      .done (waiting id (n + ds.length) : Forwarder κ) := by
  induction ds generalizing n with
  | nil => rfl
  | cons d ds ih =>
    rw [List.map_cons, feed_cons, receive_waiting, Call.done_bind, ih, List.length_cons,
      Nat.add_right_comm, Nat.add_assoc]

end Forwarder

section Races

variable {d : Driver} {k : Params} {send : Send} {flavour : Chan → Sender}
variable {mode : Sending Chan Unit → Op} {K : Chan → Prop} {s : State} {c : Chan}

theorem Inv.sends_feed (hi : Inv d k flavour K s) (hc : c ∈ k.channels) :
    s.sends c = (feed d.receive (newForwarder c) (s.net.got c)).sends := by
  rw [hi.sound.replay c hc, Call.sends_after]
  rfl

theorem Inv.relay_races (hi : Inv d k flavour K s) (hw : d.Wires k send flavour mode)
    (hc : c ∈ k.channels) (hr : k.relays c = true) :
    (∀ p ∈ s.sends c, ∃ seq, p = (k.next c, .testData seq)) ∧
    (s.sends c).length ≤ (s.given c).length ∧
    (0 < (s.given c).length → (s.sends c).length = (s.given c).length →
      ∃ ds, s.net.got c = config flavour k c :: ds.map .testData ∧ Follows 0 ds) := by
  obtain ⟨other, hreceive⟩ := hw.receive
  have hconfig : config flavour k c = .addSender (flavour (k.next c)) := by rw [config_eq, if_pos hr]
  have hm : ∀ msg ∈ configs (s.net.got c), msg = .addSender (flavour (k.next c)) :=
    fun msg hmsg => (hi.got_configs c msg hmsg).trans hconfig
  have hone : (configs (s.net.got c)).length ≤ 1 := by
    have hle := hi.put_configs_le c
    rw [hi.sound.fifo c, configs_append, List.length_append] at hle
    omega
  rw [hi.sends_feed hc, hreceive, hconfig]
  exact Forwarder.feed_racing hw.delivers hm hone

theorem Inv.sends_racing (hi : Inv d k flavour K s) (hw : d.Wires k send flavour mode)
    (hc : c ∈ k.channels) : ∀ p ∈ s.sends c, ∃ seq, p = (k.next c, .testData seq) := by
  cases hr : k.relays c with
  | true => exact (hi.relay_races hw hc hr).1
  | false =>
    obtain ⟨o, n, f, hsends, -, -, -⟩ := hi.tally_sends hw hc hr
    intro p hp
    rw [hsends] at hp
    exact ⟨_, (List.mem_replicate.mp hp).2⟩

theorem Inv.funnel (hi : Inv d k flavour K s) (hw : d.Wires k send flavour mode) :
    Funnel k.lanes k.pipelines k.messages s.runs (fun l i => (seqs (s.net.put (.lane l i))).length)
      (fun l i => (s.given (.lane l i)).length) (fun l => (s.net.out (.lane l k.pipelines)).length)
      (seqs (s.net.put .concentrator)).length (s.given .concentrator).length
      (s.net.out .concentrator).length where
  lanes_pos := k.lanes_pos
  positions_pos := k.pipelines_pos
  per_pos := k.messages_pos
  given_le := fun _ _ _ _ _ => hi.given_le _
  passes := by
    intro l hl i hi0 hip
    have hc : .lane l i ∈ k.channels := k.mem_channels_lane.mpr ⟨hl, hi0, by omega⟩
    have hsends := (hi.relay_races hw hc (by simpa [Params.relays] using hip)).2.1
    have hout := Inv.out_length_le s (.lane l i)
    have hseqs := seqs_out_length_le s (.lane l i)
    rw [hi.flow l hl i hi0 hip]
    omega
  starts := by
    intro l hl
    have hheads := congrArg List.length (hi.heads l hl)
    simp only [List.length_append, rounds, List.length_map, List.length_range] at hheads
    omega
  counts := by
    intro l hl
    have hquota := hi.quota_mul_sends_le hw (k.last_mem hl) (k.relays_last l)
    exact Nat.le_trans (Nat.mul_le_mul_left _ (Inv.out_length_le s _)) hquota
  merges := hi.merged
  seen_le := hi.given_le _
  notifies := by
    have hquota := hi.quota_mul_sends_le hw k.concentrator_mem rfl
    exact Nat.le_trans (Nat.mul_le_mul_left _ (Inv.out_length_le s _)) hquota

theorem Inv.rest_notified (hi : Inv d k flavour K s) (hm : s.main = []) :
    s.runs ≤ (s.net.out .concentrator).length := by
  have hle := hi.runs_le_of_rest hm
  rwa [hi.notified, List.length_map] at hle

theorem Inv.line_racing (hi : Inv d k flavour K s) (hw : d.Wires k send flavour mode)
    (hm : s.main = []) : s.line = [] := by
  rw [List.eq_nil_iff_forall_not_mem]
  rintro ⟨c, msg⟩ hmem
  obtain ⟨l, hl, rfl, seq, rfl⟩ := hi.line_head hmem
  have hput := (((hi.funnel hw).full (hi.rest_notified hm)).1 l hl 1 Nat.one_pos k.pipelines_pos).2
  have hlen := congrArg List.length (hi.heads l hl)
  simp only [List.length_append, rounds, List.length_map, List.length_range] at hlen
  have hseq : seq ∈ seqs (addressed (.lane l 1) s.line) :=
    List.mem_filterMap.mpr ⟨_, mem_addressed.mpr hmem, rfl⟩
  have hpos := List.length_pos_of_mem hseq
  omega

theorem reaches_racing (hw : d.Wires k send flavour mode) (h : (system d k).Reachable s) :
    Inv d k flavour (fun _ => False) s := by
  refine System.Reaches.invariant h (inv_start hw) ?_
  intro s a t hi _ hstep
  exact step_inv_of hi hw (fun c hc => hi.sends_racing hw hc) (hi.line_racing hw)
    (fun _ _ _ hc => hc.elim) hstep

theorem Inv.rest_given (hi : Inv d k flavour K s) (hw : d.Wires k send flavour mode) (hm : s.main = [])
    {l i : ℕ} (hl : l < k.lanes) (hi0 : 0 < i) (hip : i ≤ k.pipelines) :
    (s.given (.lane l i)).length = s.runs * k.messages ∧
      (seqs (s.net.put (.lane l i))).length = s.runs * k.messages :=
  ((hi.funnel hw).full (hi.rest_notified hm)).1 l hl i hi0 hip

theorem Inv.rest_relay (hi : Inv d k flavour K s) (hw : d.Wires k send flavour mode) (hm : s.main = [])
    (hr : 0 < s.runs) (hc : c ∈ k.channels) (hrelay : k.relays c = true) :
    ∃ ds : List ℕ, s.net.got c = config flavour k c :: ds.map .testData := by
  cases c with
  | concentrator => cases hrelay
  | notifier => cases hrelay
  | lane l i =>
    have hip : i < k.pipelines := by simpa [Params.relays] using hrelay
    obtain ⟨hl, hi0, -⟩ := k.mem_channels_lane.mp hc
    have hgiven := (hi.rest_given hw hm hl hi0 (by omega)).1
    have hnext := (hi.rest_given hw hm hl (i := i + 1) (by omega) (by omega)).2
    rw [hi.flow l hl i hi0 hip] at hnext
    have hseqs := seqs_out_length_le s (.lane l i)
    have hout := Inv.out_length_le s (.lane l i)
    obtain ⟨-, hle, hall⟩ := hi.relay_races hw hc hrelay
    have hpos : 0 < s.runs * k.messages := Nat.mul_pos hr k.messages_pos
    obtain ⟨ds, hgot, -⟩ := hall (by omega) (by omega)
    exact ⟨ds, hgot⟩

theorem Inv.rest_ready (hi : Inv d k flavour K s) (hw : d.Wires k send flavour mode) (hm : s.main = [])
    (hr : 0 < s.runs) : Inv d k flavour (Relay k) s :=
  { hi with
    ready := by
      rintro c ⟨hc, hrelay⟩
      obtain ⟨ds, hgot⟩ := hi.rest_relay hw hm hr hc hrelay
      exact .inr ⟨ds.map .testData ++ s.net.queue c, by rw [hi.sound.fifo c, hgot, List.cons_append]⟩ }

theorem Inv.told_of_out (hi : Inv d k flavour K s) (hw : d.Wires k send flavour mode)
    (hc : c ∈ k.channels) (hout : s.net.out c ≠ []) : configs (s.net.got c) ≠ [] := by
  intro hnone
  obtain ⟨other, hreceive⟩ := hw.receive
  have hsends := hi.sends_feed hc
  rw [eq_map_testData hnone, hreceive, newForwarder, Forwarder.new_eq_waiting, Forwarder.feed_waiting,
    Call.sends_done] at hsends
  exact hout (List.append_eq_nil_iff.mp hsends).1

theorem Inv.rest_drained (hi : Inv d k flavour K s)
    (htold : configs (s.net.got c) ≠ []) (hlen : (seqs (s.net.put c)).length = (s.given c).length) :
    s.net.queue c = [] := by
  have hfifo := hi.sound.fifo c
  have hle := hi.put_configs_le c
  have hpos := List.length_pos_iff.mpr htold
  rw [hfifo, configs_append, List.length_append] at hle
  rw [hfifo, seqs_append, List.length_append] at hlen
  change (s.given c).length + _ = _ at hlen
  have hconfigs : configs (s.net.queue c) = [] := List.length_eq_zero_iff.mp (by omega)
  have hseqs : seqs (s.net.queue c) = [] := List.length_eq_zero_iff.mp (by omega)
  rw [eq_map_testData hconfigs, hseqs]
  rfl

theorem Inv.rest_tally (hi : Inv d k flavour K s) (hw : d.Wires k send flavour mode)
    (hc : c ∈ k.channels) (hr : k.relays c = false) (hgiven : (s.given c).length = k.quota c * s.runs)
    (hout : s.runs ≤ (s.net.out c).length) (hidle : s.net.call c = none) : Rests s c 0 0 0 := by
  obtain ⟨o, n, f, hsends, hresult, hf, hcount⟩ := hi.tally_sends hw hc hr
  have hle := Inv.out_length_le s c
  rw [hsends, List.length_replicate] at hle
  have hmul := Nat.mul_le_mul_left (k.quota c) (Nat.le_trans hout hle)
  obtain rfl : n = 0 := by omega
  have hproc : s.net.proc c = f := by simpa [Net.current, hidle] using hresult
  rcases hf with rfl | rfl
  · constructor
    · rw [hproc]; rfl
    · rw [hproc]; rfl
    · rw [hproc]; rfl
  · constructor
    · rw [hproc]; rfl
    · rw [hproc]; rfl
    · rw [hproc]; rfl

theorem Inv.rest_endOfRun (hi : Inv d k flavour K s) (hw : d.Wires k send flavour mode)
    (hm : s.main = []) (hr : 0 < s.runs) : EndOfRun k s.runs s := by
  have hi' := hi.rest_ready hw hm hr
  have hK : ∀ c ∈ k.channels, k.relays c → Relay k c := fun _ hc hr => ⟨hc, hr⟩
  have hpos : 0 < s.runs * k.messages := Nat.mul_pos hr k.messages_pos
  have hgiven : ∀ l < k.lanes, ∀ i, 0 < i → i ≤ k.pipelines →
      (s.given (.lane l i)).length = s.runs * k.messages :=
    fun l hl i hi0 hip => (hi.rest_given hw hm hl hi0 hip).1
  obtain ⟨-, hsent, hseen, harrived⟩ := (hi.funnel hw).full (hi.rest_notified hm)
  have hrelay : ∀ l < k.lanes, ∀ i, 0 < i → i < k.pipelines → s.net.call (.lane l i) = none →
      Rests s (.lane l i) (s.runs * k.messages) (s.runs * k.messages)
        (if i = 1 then k.messages else s.runs * k.messages) := by
    intro l hl i hi0 hip hidle
    have hlen := hgiven l hl i hi0 (by omega)
    have := hi'.rests_relay hw hK hl hi0 hip (by omega) hidle
    rwa [hi'.nextAfter_given hw hK hl hi0 (by omega) hr hlen, hlen] at this
  constructor
  case given => exact hgiven
  case drained =>
    intro c hc
    obtain ⟨l, i, rfl, hl, hi0, hip⟩ | ⟨l, hl, rfl⟩ | rfl := k.channel_cases hc
    · have hrelays : k.relays (.lane l i) = true := by simpa [Params.relays] using hip
      obtain ⟨ds, hgot⟩ := hi.rest_relay hw hm hr hc hrelays
      refine hi.rest_drained ?_ ?_
      · rw [hgot, configs_config (config_seq? ..)]
        exact List.cons_ne_nil _ _
      · exact (hi.rest_given hw hm hl hi0 (by omega)).2.trans (hgiven l hl i hi0 (by omega)).symm
    · refine hi.rest_drained (hi.told_of_out hw hc ?_) ?_
      · exact List.ne_nil_of_length_pos (hsent l hl ▸ hr)
      · exact (hi.rest_given hw hm hl k.pipelines_pos (Nat.le_refl _)).2.trans
          (hgiven l hl _ k.pipelines_pos (Nat.le_refl _)).symm
    · refine hi.rest_drained (hi.told_of_out hw hc ?_) (harrived.trans hseen.symm)
      exact List.ne_nil_of_length_pos (Nat.lt_of_lt_of_le hr (hi.rest_notified hm))
  case head => exact fun l hl hp hidle => hrelay l hl 1 Nat.one_pos hp hidle
  case middle =>
    intro l hl i hi1 hip hidle
    have := hrelay l hl i (by omega) hip hidle
    rwa [if_neg (by omega)] at this
  case last =>
    intro l hl hidle
    apply hi.rest_tally hw (k.last_mem hl) (k.relays_last l) _ (Nat.le_of_eq (hsent l hl).symm) hidle
    rw [hgiven l hl _ k.pipelines_pos (Nat.le_refl _)]
    exact Nat.mul_comm _ _
  case concentrator => exact hi.rest_tally hw k.concentrator_mem rfl hseen (hi.rest_notified hm)

end Races

/-- A call of `run` that returns with its notification has sent all its data through, and no forwarder
has swallowed any or panicked, whatever the order of the tasks. -/
theorem tokio_run_returns {k : Params} {s : State} (h : (system tokioDriver k).Reachable s)
    (hm : s.main = []) (hr : 0 < s.runs) :
    EndOfRun k s.runs s ∧ (∀ e, ¬ s.Panics e) ∧ (s.net.got .notifier).length = s.runs ∧
      ∀ c ∈ k.channels, k.relays c = true →
        ∃ ds : List ℕ, s.net.got c = config .tokioSender k c :: ds.map .testData := by
  have hw := wires_tokio k
  have hi := reaches_racing hw h
  refine ⟨hi.rest_endOfRun hw hm hr, ?_, ?_, fun c hc hrelay => hi.rest_relay hw hm hr hc hrelay⟩
  · exact (hi.rest_ready hw hm hr).no_panic hw fun _ hc hr => ⟨hc, hr⟩
  · cases hi.phase with
    | rest hne hg hr => exact hg
    | wait hm' hops hg => simp [hm] at hm'

def smallTokioRun : List Act := List.replicate 6 .main ++ [.run, .main, .task 1, .task 0,
  .receive 1 0, .advance (.lane 0 1), .task 3, .receive 2 0, .advance (.lane 0 2),
  .receive 1 0, .advance (.lane 0 1), .advance (.lane 0 1), .task 2, .receive 0 0, .advance .concentrator,
  .receive 2 0, .advance (.lane 0 2), .advance (.lane 0 2),
  .receive 0 0, .advance .concentrator, .advance .concentrator, .main]

def afterTokioRun : State :=
  ((system tokioDriver small).exec (fun _ _ => true) (start tokioDriver small) smallTokioRun).get rfl

theorem tokio_run_returns_small :
    (afterTokioRun.runs = 1 ∧ EndOfRun small 1 afterTokioRun) ∧ ∀ e, ¬ afterTokioRun.Panics e := by
  have hreach : (system tokioDriver small).Reachable afterTokioRun :=
    System.Reaches.mono (fun _ _ _ => trivial) (System.exec_get _ _ _ _ rfl)
  have h := tokio_run_returns hreach rfl Nat.one_pos
  exact ⟨⟨rfl, h.1⟩, h.2.1⟩

end ChannelExecutor.Experiment
