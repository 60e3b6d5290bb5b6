import ChannelExecutor.PipelineInvariant

set_option autoImplicit false

namespace ChannelExecutor.Experiment

open Lib (Call Net)
open Lib.Net (feed)

theorem sum_map_le {ls : List ℕ} {f : ℕ → ℕ} {b : ℕ} (h : ∀ x ∈ ls, f x ≤ b) :
    (ls.map f).sum ≤ ls.length * b := by
  induction ls with
  | nil => simp
  | cons x ls ih =>
    have hx := h x List.mem_cons_self
    have hls := ih fun y hy => h y (List.mem_cons_of_mem _ hy)
    simp only [List.map_cons, List.sum_cons, List.length_cons, Nat.add_mul, Nat.one_mul]
    omega

theorem eq_of_sum_map_ge {ls : List ℕ} {f : ℕ → ℕ} {b : ℕ} (h : ∀ x ∈ ls, f x ≤ b)
    (hsum : ls.length * b ≤ (ls.map f).sum) : ∀ x ∈ ls, f x = b := by
  induction ls with
  | nil => simp
  | cons y ls ih =>
    have hy := h y List.mem_cons_self
    have hls := fun z hz => h z (List.mem_cons_of_mem y hz)
    have hle := sum_map_le hls
    simp only [List.map_cons, List.sum_cons, List.length_cons, Nat.add_mul, Nat.one_mul] at hsum
    intro x hx
    rcases List.mem_cons.mp hx with rfl | hx
    · omega
    · exact ih hls (by omega) x hx

section Counts

variable {d : Driver} {k : Params} {send : Send} {flavour : Chan → Sender}
variable {mode : Sending Chan Unit → Op} {K : Chan → Prop} {s : State}

theorem Inv.relay_sends (hi : Inv d k flavour K s) (hw : d.Wires k send flavour mode)
    (hK : ∀ c ∈ k.channels, k.relays c → K c) {l i : ℕ} (hl : l < k.lanes) (hi0 : 0 < i)
    (hip : i < k.pipelines) :
    s.sends (.lane l i) = (List.range (s.given (.lane l i)).length).map
      (fun j => (.lane l (i + 1), .testData j)) ∧
    (s.net.current (.lane l i)).result = .ok (relayed flavour s l i) := by
  have hc : .lane l i ∈ k.channels := k.mem_channels_lane.mpr ⟨hl, hi0, by omega⟩
  obtain ⟨n, hn⟩ := hi.arrivals hw hK hl hi0 (by omega)
  exact hi.sound.of_feed hc (hi.relay_feed hw hc (hK _ hc (by simpa [Params.relays] using hip)) hip hn)

theorem Inv.tally_feed (hi : Inv d k flavour K s) (hw : d.Wires k send flavour mode) {c : Chan}
    (hr : k.relays c = false) :
    ∃ o n f, feed d.receive (newForwarder c) (s.net.got c) =
      .after (List.replicate o (k.next c, .testData (k.quota c))) (.done f) ∧
      Forwarder.Tallies c.position (flavour (k.next c)) (k.quota c) n f ∧
      k.quota c * o + n = (s.given c).length := by
  obtain ⟨other, hreceive⟩ := hw.receive
  have hconfigs : ∀ msg ∈ configs (s.net.got c), msg = .notify (flavour (k.next c)) (k.quota c) := by
    intro msg hmsg
    have := hi.got_configs c msg hmsg
    rwa [config_eq, if_neg (by simp [hr])] at this
  have hfresh : Forwarder.Tallies c.position (flavour (k.next c)) (k.quota c) 0 (newForwarder c) :=
    .inl rfl
  obtain ⟨o, n, f, hfeed, hf, hcount⟩ :=
    @Forwarder.feed_tallies _ send flavour other hw.delivers _ _ _ _ _ _ hfresh hconfigs
  exact ⟨o, n, f, by rw [hreceive]; exact hfeed, hf, by rw [hcount, Nat.zero_add]; rfl⟩

theorem Inv.tally_sends (hi : Inv d k flavour K s) (hw : d.Wires k send flavour mode) {c : Chan}
    (hc : c ∈ k.channels) (hr : k.relays c = false) :
    ∃ o n f, s.sends c = List.replicate o (k.next c, .testData (k.quota c)) ∧
      (s.net.current c).result = .ok f ∧
      Forwarder.Tallies c.position (flavour (k.next c)) (k.quota c) n f ∧
      k.quota c * o + n = (s.given c).length := by
  obtain ⟨o, n, f, hfeed, hf, hcount⟩ := hi.tally_feed hw hr
  obtain ⟨hs, hb⟩ := hi.sound.of_feed hc hfeed
  exact ⟨o, n, f, hs, hb, hf, hcount⟩

theorem Inv.sends_next (hi : Inv d k flavour K s) (hw : d.Wires k send flavour mode)
    (hK : ∀ c ∈ k.channels, k.relays c → K c) {c : Chan} (hc : c ∈ k.channels) :
    (∀ p ∈ s.sends c, ∃ seq, p = (k.next c, .testData seq)) ∧
      ∃ f, (s.net.current c).result = .ok f := by
  cases hr : k.relays c with
  | true =>
    cases c with
    | lane l i =>
      have hip : i < k.pipelines := by simpa [Params.relays] using hr
      obtain ⟨hl, hi0, -⟩ := k.mem_channels_lane.mp hc
      obtain ⟨hs, hb⟩ := hi.relay_sends hw hK hl hi0 hip
      refine ⟨?_, _, hb⟩
      intro p hp
      rw [hs] at hp
      obtain ⟨j, -, rfl⟩ := List.mem_map.mp hp
      exact ⟨j, by simp [Params.next, hip]⟩
    | concentrator => cases hr
    | notifier => cases hr
  | false =>
    obtain ⟨o, n, f, hs, hb, -, -⟩ := hi.tally_sends hw hc hr
    refine ⟨?_, f, hb⟩
    intro p hp
    rw [hs] at hp
    exact ⟨_, (List.mem_replicate.mp hp).2⟩

theorem Inv.out_length_le (s : State) (c : Chan) : (s.net.out c).length ≤ (s.sends c).length := by
  simp [State.sends]

theorem Inv.given_le (hi : Inv d k flavour K s) (c : Chan) :
    (s.given c).length ≤ (seqs (s.net.put c)).length := (hi.given_prefix c).length_le

theorem Inv.quota_mul_sends_le (hi : Inv d k flavour K s) (hw : d.Wires k send flavour mode)
    {c : Chan} (hc : c ∈ k.channels) (hr : k.relays c = false) :
    k.quota c * (s.sends c).length ≤ (s.given c).length := by
  obtain ⟨o, n, f, hs, -, -, hcount⟩ := hi.tally_sends hw hc hr
  rw [hs, List.length_replicate]
  omega

theorem seqs_out_length_le (s : State) (c : Chan) :
    (seqs ((s.net.out c).map Prod.snd)).length ≤ (s.net.out c).length := by
  have hle := List.length_filterMap_le TestMessage.seq? ((s.net.out c).map Prod.snd)
  rwa [List.length_map] at hle

theorem Inv.put_succ_le (hi : Inv d k flavour K s) (hw : d.Wires k send flavour mode)
    (hK : ∀ c ∈ k.channels, k.relays c → K c) {l i : ℕ} (hl : l < k.lanes) (hi0 : 0 < i)
    (hip : i < k.pipelines) :
    (seqs (s.net.put (.lane l (i + 1)))).length ≤ (s.given (.lane l i)).length := by
  have hs := (hi.relay_sends hw hK hl hi0 hip).1
  have hlen := seqs_out_length_le s (.lane l i)
  have hout := Inv.out_length_le s (.lane l i)
  rw [hs, List.length_map, List.length_range] at hout
  rw [hi.flow l hl i hi0 hip]
  omega

theorem Inv.put_le (hi : Inv d k flavour K s) (hw : d.Wires k send flavour mode)
    (hK : ∀ c ∈ k.channels, k.relays c → K c) {l : ℕ} (hl : l < k.lanes) {i : ℕ} (hi0 : 0 < i)
    (hip : i ≤ k.pipelines) : (seqs (s.net.put (.lane l i))).length ≤ s.runs * k.messages := by
  induction i with
  | zero => exact absurd hi0 (Nat.lt_irrefl 0)
  | succ i ih =>
    by_cases hhead : i = 0
    · subst hhead
      have := congrArg List.length (hi.heads l hl)
      simp only [List.length_append, rounds, List.length_map, List.length_range] at this
      change (seqs (s.net.put (.lane l 1))).length ≤ _
      omega
    · have hsucc := hi.put_succ_le hw hK hl (Nat.pos_of_ne_zero hhead) (by omega)
      have hgiven := hi.given_le (.lane l i)
      have := ih (Nat.pos_of_ne_zero hhead) (by omega)
      omega

theorem Inv.last_sends_le (hi : Inv d k flavour K s) (hw : d.Wires k send flavour mode)
    (hK : ∀ c ∈ k.channels, k.relays c → K c) {l : ℕ} (hl : l < k.lanes) :
    (s.sends (.lane l k.pipelines)).length ≤ s.runs := by
  have hquota := hi.quota_mul_sends_le hw (k.last_mem hl) (k.relays_last l)
  have hgiven := hi.given_le (.lane l k.pipelines)
  have hput := hi.put_le hw hK hl k.pipelines_pos (Nat.le_refl _)
  apply Nat.le_of_mul_le_mul_left _ k.messages_pos
  calc k.messages * (s.sends (.lane l k.pipelines)).length
      ≤ (s.given (.lane l k.pipelines)).length := hquota
    _ ≤ s.runs * k.messages := Nat.le_trans hgiven hput
    _ = k.messages * s.runs := Nat.mul_comm _ _

theorem Inv.merged_le (hi : Inv d k flavour K s) (hw : d.Wires k send flavour mode)
    (hK : ∀ c ∈ k.channels, k.relays c → K c) :
    (seqs (s.net.put .concentrator)).length ≤ k.lanes * s.runs := by
  rw [hi.merged]
  have hout : ∀ l ∈ List.range k.lanes, (s.net.out (.lane l k.pipelines)).length ≤ s.runs :=
    fun l hl => Nat.le_trans (Inv.out_length_le s _) (hi.last_sends_le hw hK (List.mem_range.mp hl))
  simpa using sum_map_le hout

theorem Inv.notifications_le (hi : Inv d k flavour K s) (hw : d.Wires k send flavour mode)
    (hK : ∀ c ∈ k.channels, k.relays c → K c) : (s.sends .concentrator).length ≤ s.runs := by
  have hquota := hi.quota_mul_sends_le hw k.concentrator_mem rfl
  apply Nat.le_of_mul_le_mul_left _ k.lanes_pos
  calc k.lanes * (s.sends .concentrator).length
      ≤ (s.given .concentrator).length := hquota
    _ ≤ (seqs (s.net.put .concentrator)).length := hi.given_le _
    _ ≤ k.lanes * s.runs := hi.merged_le hw hK

theorem Inv.put_notifier_le (hi : Inv d k flavour K s) (hw : d.Wires k send flavour mode)
    (hK : ∀ c ∈ k.channels, k.relays c → K c) : (s.net.put .notifier).length ≤ s.runs := by
  rw [hi.notified, List.length_map]
  exact Nat.le_trans (Inv.out_length_le s _) (hi.notifications_le hw hK)

theorem Inv.last_out_length (hi : Inv d k flavour K s) (hw : d.Wires k send flavour mode)
    (hK : ∀ c ∈ k.channels, k.relays c → K c)
    (h : k.lanes * s.runs ≤ (seqs (s.net.put .concentrator)).length) {l : ℕ} (hl : l < k.lanes) :
    (s.net.out (.lane l k.pipelines)).length = s.runs := by
  have houts : ∀ l ∈ List.range k.lanes, (s.net.out (.lane l k.pipelines)).length = s.runs := by
    apply eq_of_sum_map_ge
    · intro l hl
      exact Nat.le_trans (Inv.out_length_le s _) (hi.last_sends_le hw hK (List.mem_range.mp hl))
    · rwa [List.length_range, ← hi.merged]
  exact houts l (List.mem_range.mpr hl)

/-- Once the notification of a run is out, every forwarder has been given all data sent so far. -/
theorem Inv.barrier (hi : Inv d k flavour K s) (hw : d.Wires k send flavour mode)
    (hK : ∀ c ∈ k.channels, k.relays c → K c) (h : s.runs ≤ (s.net.put .notifier).length) :
    (∀ l < k.lanes, ∀ i, 0 < i → i ≤ k.pipelines →
      (s.given (.lane l i)).length = s.runs * k.messages ∧
      (seqs (s.net.put (.lane l i))).length = s.runs * k.messages) ∧
    (s.given .concentrator).length = k.lanes * s.runs ∧
    (seqs (s.net.put .concentrator)).length = k.lanes * s.runs := by
  have hsent : s.runs ≤ (s.sends .concentrator).length := by
    rw [hi.notified, List.length_map] at h
    exact Nat.le_trans h (Inv.out_length_le s _)
  have hcon : k.lanes * s.runs ≤ (s.given .concentrator).length :=
    Nat.le_trans (Nat.mul_le_mul_left _ hsent) (hi.quota_mul_sends_le hw k.concentrator_mem rfl)
  have hcon' := hi.given_le .concentrator
  have hmerged := hi.merged_le hw hK
  refine ⟨?_, by omega, by omega⟩
  intro l hl
  -- the last position has counted all data, and each position was given what the next one was
  have hlast : s.runs * k.messages ≤ (s.given (.lane l k.pipelines)).length := by
    have hout := hi.last_out_length hw hK (Nat.le_trans hcon hcon') hl
    have hle := Inv.out_length_le s (.lane l k.pipelines)
    calc s.runs * k.messages = k.messages * s.runs := Nat.mul_comm _ _
      _ ≤ k.messages * (s.sends (.lane l k.pipelines)).length :=
          Nat.mul_le_mul_left _ (by omega)
      _ ≤ _ := hi.quota_mul_sends_le hw (k.last_mem hl) (k.relays_last l)
  have hdown : ∀ j, j < k.pipelines →
      s.runs * k.messages ≤ (s.given (.lane l (k.pipelines - j))).length := by
    intro j
    induction j with
    | zero => exact fun _ => hlast
    | succ j ih =>
      intro hj
      have hsucc := hi.put_succ_le hw hK hl (i := k.pipelines - (j + 1)) (by omega) (by omega)
      have hgiven := hi.given_le (.lane l (k.pipelines - j))
      have := ih (by omega)
      rw [show k.pipelines - (j + 1) + 1 = k.pipelines - j by omega] at hsucc
      omega
  intro i hi0 hip
  have hge := hdown (k.pipelines - i) (by omega)
  rw [show k.pipelines - (k.pipelines - i) = i by omega] at hge
  have hgiven := hi.given_le (.lane l i)
  have hput := hi.put_le hw hK hl hi0 hip
  omega

theorem Inv.line_head (hi : Inv d k flavour K s) {c : Chan} {msg : Message} (h : (c, msg) ∈ s.line) :
    ∃ l < k.lanes, c = .lane l 1 ∧ ∃ seq, msg = .testData seq := by
  have hmem := hi.line_suffix.subset h
  simp only [Params.data, List.mem_flatMap, List.mem_map, List.mem_range, Prod.mk.injEq] at hmem
  obtain ⟨seq, -, l, hl, rfl, rfl⟩ := hmem
  exact ⟨l, hl, rfl, seq, rfl⟩

theorem Inv.line_nil (hi : Inv d k flavour K s) (hw : d.Wires k send flavour mode)
    (hK : ∀ c ∈ k.channels, k.relays c → K c) (h : s.runs ≤ (s.net.put .notifier).length) :
    s.line = [] := by
  rw [List.eq_nil_iff_forall_not_mem]
  rintro ⟨c, msg⟩ hmem
  obtain ⟨l, hl, rfl, seq, rfl⟩ := hi.line_head hmem
  have hput := ((hi.barrier hw hK h).1 l hl 1 Nat.one_pos k.pipelines_pos).2
  have hlen := congrArg List.length (hi.heads l hl)
  simp only [List.length_append, rounds, List.length_map, List.length_range] at hlen
  have hnil : seqs (addressed (.lane l 1) s.line) = [] := List.length_eq_zero_iff.mp (by omega)
  have hseq : seq ∈ seqs (addressed (.lane l 1) s.line) :=
    List.mem_filterMap.mpr ⟨_, mem_addressed.mpr hmem, rfl⟩
  rw [hnil] at hseq
  cases hseq

theorem Inv.no_data (hi : Inv d k flavour K s) (hw : d.Wires k send flavour mode)
    (hK : ∀ c ∈ k.channels, k.relays c → K c) (hr : s.runs = 0) :
    s.line = [] ∧ ∀ c ∈ k.channels, seqs (s.net.put c) = [] ∧ s.sends c = [] := by
  constructor
  · exact hi.line_nil hw hK (by omega)
  · intro c hc
    rw [← List.length_eq_zero_iff, ← List.length_eq_zero_iff (l := s.sends c)]
    have hgiven := hi.given_le c
    obtain ⟨l, i, rfl, hl, hi0, hip⟩ | ⟨l, hl, rfl⟩ | rfl := k.channel_cases hc
    · have hput := hi.put_le hw hK hl hi0 (by omega)
      have hsends := (hi.relay_sends hw hK hl hi0 hip).1
      rw [hsends, List.length_map, List.length_range]
      rw [hr, Nat.zero_mul] at hput
      omega
    · have hput := hi.put_le hw hK hl k.pipelines_pos (Nat.le_refl _)
      have hsends := hi.last_sends_le hw hK hl
      rw [hr, Nat.zero_mul] at hput
      omega
    · have hput := hi.merged_le hw hK
      have hsends := hi.notifications_le hw hK
      rw [hr, Nat.mul_zero] at hput
      omega

end Counts

end ChannelExecutor.Experiment
