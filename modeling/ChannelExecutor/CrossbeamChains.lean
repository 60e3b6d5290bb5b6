import ChannelExecutor.CrossbeamWiring
import Mathlib.Data.List.Nodup
import Mathlib.Data.List.ProdSigma

set_option autoImplicit false

namespace ChannelExecutor.Experiment.CrossbeamWiring

/-- The forwarder that is given what arrives in `c`: `select` numbers the receivers of a thread in
the order they were registered, and `forwarder[index]` goes with `recv[index]`. -/
def routed (w : Wiring) (c : ℕ) : Option Element :=
  w.threads.findSome? fun t => if c ∈ t.1 then t.2[t.1.idxOf c]? else none

def next (w : Wiring) (c : ℕ) : Option ℕ :=
  match sendsTo c w.sent with
  | [.addSender sender] => some sender.chan
  | _ => none

def walk (w : Wiring) : ℕ → ℕ → List (ℕ × Option Element)
  | 0, _ => []
  | n + 1, c =>
    (c, routed w c) ::
      match next w c with
      | some c' => walk w n c'
      | none => []

section Lookup

theorem chan_inj {pipelines l l' i i' : ℕ} (hi : 0 < i) (hip : i ≤ pipelines) (hi' : 0 < i')
    (hip' : i' ≤ pipelines) (h : chan pipelines l i = chan pipelines l' i') : l = l' ∧ i = i' := by
  have hlt : ∀ {l l' i i' : ℕ}, i ≤ pipelines → 0 < i' →
      chan pipelines l i = chan pipelines l' i' → ¬ l < l' := by
    intro l l' i i' hip hi' h hll
    have := Nat.mul_le_mul_right pipelines (Nat.succ_le_of_lt hll)
    simp only [chan, Nat.succ_mul] at h this
    omega
  have hl : l = l' := Nat.le_antisymm (Nat.le_of_not_lt (hlt hip' hi h.symm)) (Nat.le_of_not_lt (hlt hip hi' h))
  subst hl
  exact ⟨rfl, Nat.add_left_cancel h⟩

theorem sendsTo_map {α : Type} {g : α → ℕ} {m : α → TestMessage ℕ} {ls : List α} (hn : ls.Nodup)
    {a : α} (ha : a ∈ ls) (hg : ∀ b ∈ ls, g b = g a → b = a) :
    sendsTo (g a) (ls.map fun b => (g b, m b)) = [m a] := by
  have hnone : ∀ {ls : List α}, (∀ b ∈ ls, g b ≠ g a) →
      sendsTo (g a) (ls.map fun b => (g b, m b)) = [] := by
    intro ls h
    simp only [sendsTo, List.map_eq_nil_iff, List.filter_eq_nil_iff, List.mem_map,
      decide_eq_true_eq]
    rintro _ ⟨b, hb, rfl⟩
    exact h b hb
  obtain ⟨before, after, rfl⟩ := List.append_of_mem ha
  obtain ⟨-, hmid, hdisj⟩ := List.nodup_append.mp hn
  have hbefore : ∀ b ∈ before, g b ≠ g a := by
    intro b hb he
    have hba := hg b (List.mem_append_left _ hb) he
    exact hdisj b hb a List.mem_cons_self hba
  have hafter : ∀ b ∈ after, g b ≠ g a := by
    intro b hb he
    obtain rfl := hg b (by simp [hb]) he
    exact (List.nodup_cons.mp hmid).1 hb
  rw [List.map_append, List.map_cons, sendsTo_append, hnone hbefore, List.nil_append,
    ← List.singleton_append, sendsTo_append, hnone hafter, sendsTo_single, List.append_nil]

theorem findSome?_range {β : Type} {f : ℕ → Option β} {n k : ℕ} {b : β} (hk : k < n)
    (hf : f k = some b) (hother : ∀ j < n, j ≠ k → f j = none) :
    (List.range n).findSome? f = some b := by
  induction n with
  | zero => exact absurd hk (Nat.not_lt_zero k)
  | succ n ih =>
    rw [List.range_succ, List.findSome?_append]
    by_cases hkn : k = n
    · subst hkn
      have hnone : (List.range k).findSome? f = none := by
        rw [List.findSome?_eq_none_iff]
        intro j hj
        have hlt := List.mem_range.mp hj
        exact hother j (by omega) (by omega)
      rw [hnone]
      simp [hf]
    · rw [ih (by omega) fun j hj => hother j (by omega)]
      rfl

end Lookup

section Wired

variable {pipelines lanes messages l i : ℕ}

def told (pipelines messages l i : ℕ) : TestMessage ℕ :=
  if i < pipelines then .addSender (.crossbeamSender (chan pipelines l (i + 1)))
  else .notify (.crossbeamSender 0) messages

theorem sent_eq (hp : 0 < pipelines) : (wired pipelines lanes messages).sent =
    (List.range lanes ×ˢ List.range' 1 pipelines).map
      (fun p => (chan pipelines p.1 p.2, told pipelines messages p.1 p.2)) ++
    [(0, .notify (.crossbeamSender (chan pipelines lanes 1)) lanes)] := by
  obtain ⟨n, rfl⟩ := Nat.exists_eq_succ_of_ne_zero (Nat.pos_iff_ne_zero.mp hp)
  simp only [wired, lanesSends, SProd.sprod, List.product, List.map_flatMap, List.map_map]
  congr 1
  apply List.flatMap_congr
  intro l _
  rw [Nat.succ_eq_add_one, List.range'_1_concat, List.map_append]
  congr 1
  · apply List.map_congr_left
    intro j hj
    have := List.mem_range'_1.mp hj
    have htold : told (n + 1) messages l j =
        .addSender (.crossbeamSender (chan (n + 1) l (j + 1))) := if_pos (by omega)
    simp [htold]
  · simp [told, Nat.add_comm 1 n]

theorem sendsTo_chan (hl : l < lanes) (hi : 0 < i) (hip : i ≤ pipelines) :
    sendsTo (chan pipelines l i) (wired pipelines lanes messages).sent =
      [told pipelines messages l i] := by
  have hconc : sendsTo (chan pipelines l i)
      [(0, TestMessage.notify (.crossbeamSender (chan pipelines lanes 1)) lanes)] = [] := by
    have : ¬ 0 = chan pipelines l i := by simp only [chan]; omega
    simp [sendsTo, this]
  rw [sent_eq (by omega), sendsTo_append, hconc, List.append_nil]
  refine sendsTo_map (a := (l, i)) (g := fun p => chan pipelines p.1 p.2)
    (m := fun p => told pipelines messages p.1 p.2)
    (List.Nodup.product List.nodup_range List.nodup_range') ?_ ?_
  · simp only [List.mem_product, List.mem_range, List.mem_range'_1]
    omega
  · rintro ⟨l', i'⟩ hb he
    simp only [List.mem_product, List.mem_range, List.mem_range'_1] at hb
    obtain ⟨rfl, rfl⟩ := chan_inj (by omega) (by omega) hi hip he
    rfl

theorem routed_chan (hl : l < lanes) (hi : 0 < i) (hip : i ≤ pipelines) :
    routed (wired pipelines lanes messages) (chan pipelines l i) = some ⟨l, .new i⟩ := by
  obtain ⟨id, rfl⟩ := Nat.exists_eq_succ_of_ne_zero (Nat.pos_iff_ne_zero.mp hi)
  have hconc : chan pipelines l (id + 1) ∉ [0] := by simp [chan]
  simp only [routed, wired, Nat.succ_eq_add_one, List.findSome?_cons, if_neg hconc,
    List.findSome?_map]
  refine findSome?_range (k := id) (by omega) ?_ ?_
  · -- the row of the position: its lanes are in order
    have hlen : l < ((List.range lanes).map fun l => chan pipelines l (id + 1)).length := by simpa
    have hnodup : ((List.range lanes).map fun l => chan pipelines l (id + 1)).Nodup := by
      apply List.nodup_range.map
      intro a b hab
      exact (chan_inj hi hip hi hip hab).1
    have hidx := hnodup.idxOf_getElem l hlen
    rw [List.getElem_map, List.getElem_range] at hidx
    have hmem : chan pipelines l (id + 1) ∈ (List.range lanes).map fun l => chan pipelines l (id + 1) :=
      List.mem_map.mpr ⟨l, List.mem_range.mpr hl, rfl⟩
    simp only [Function.comp_apply, if_pos hmem, hidx]
    simp [hl]
  · intro j hj hne
    have hnot : chan pipelines l (id + 1) ∉ (List.range lanes).map fun l => chan pipelines l (j + 1) := by
      intro hmem
      obtain ⟨l', -, he⟩ := List.mem_map.mp hmem
      have := (chan_inj (by omega) (by omega) hi hip he).2
      omega
    simp only [Function.comp_apply, if_neg hnot]

theorem next_chan (hl : l < lanes) (hi : 0 < i) (hip : i ≤ pipelines) :
    next (wired pipelines lanes messages) (chan pipelines l i) =
      if i < pipelines then some (chan pipelines l (i + 1)) else none := by
  rw [next, sendsTo_chan hl hi hip, told]
  split_ifs
  · rfl
  · rfl

theorem walk_chan (hl : l < lanes) (hi : 0 < i) (hip : i ≤ pipelines) {n : ℕ}
    (hn : pipelines < n + i) :
    walk (wired pipelines lanes messages) n (chan pipelines l i) =
      (List.range' i (pipelines + 1 - i)).map fun j => (chan pipelines l j, some ⟨l, .new j⟩) := by
  induction n generalizing i with
  | zero => omega
  | succ n ih =>
    rw [walk, routed_chan hl hi hip, next_chan hl hi hip]
    by_cases hlast : i < pipelines
    · have hlen : pipelines + 1 - i = pipelines + 1 - (i + 1) + 1 := by omega
      rw [if_pos hlast, hlen, List.range'_succ, List.map_cons]
      simp only [ih (Nat.succ_pos i) hlast (by omega)]
    · have hlen : pipelines + 1 - i = 1 := by omega
      rw [if_neg hlast, hlen]
      rfl

theorem walk_head (hp : 0 < pipelines) (hl : l < lanes) {n : ℕ} (hn : pipelines ≤ n) :
    walk (wired pipelines lanes messages) n (chan pipelines l 1) =
      (List.range' 1 pipelines).map fun j => (chan pipelines l j, some ⟨l, .new j⟩) := by
  rw [walk_chan hl Nat.one_pos hp (by omega), Nat.add_sub_cancel]

theorem head_eq {head : TestMessageSender ℕ}
    (h : (wired pipelines lanes messages).heads[l]? = some head) :
    l < lanes ∧ head.chan = chan pipelines l 1 := by
  simp only [wired, List.getElem?_map] at h
  obtain ⟨l', hl', rfl⟩ := Option.map_eq_some_iff.mp h
  obtain ⟨hlt, rfl⟩ := List.getElem?_eq_some_iff.mp hl'
  simp only [List.length_range] at hlt
  simp [TestMessageSender.chan, hlt]

theorem sendsTo_concentrator (hp : 0 < pipelines) :
    sendsTo 0 (wired pipelines lanes messages).sent =
      [.notify (.crossbeamSender (chan pipelines lanes 1)) lanes] := by
  have hlanes : sendsTo 0 ((List.range lanes ×ˢ List.range' 1 pipelines).map
      fun p => (chan pipelines p.1 p.2, told pipelines messages p.1 p.2)) = [] := by
    simp only [sendsTo, List.map_eq_nil_iff, List.filter_eq_nil_iff, List.mem_map,
      decide_eq_true_eq]
    rintro _ ⟨⟨l, i⟩, hmem, rfl⟩
    simp only [List.mem_product, List.mem_range, List.mem_range'_1] at hmem
    simp only [chan]
    omega
  rw [sent_eq hp, sendsTo_append, hlanes, List.nil_append, sendsTo_single]

end Wired

structure Chains (pipelines lanes messages : ℕ) (w : Wiring) : Prop where
  heads : w.heads.length = lanes
  chain : ∀ (l : ℕ) (head : TestMessageSender ℕ), w.heads[l]? = some head → ∀ n, pipelines ≤ n →
    (walk w n head.chan).map Prod.snd =
      (List.range' 1 pipelines).map fun id => some ⟨l, .new id⟩
  disjoint : ∀ (l l' : ℕ) (head head' : TestMessageSender ℕ), w.heads[l]? = some head →
    w.heads[l']? = some head' → l ≠ l' → ∀ c, c ∈ (walk w pipelines head.chan).map Prod.fst →
      c ∉ (walk w pipelines head'.chan).map Prod.fst
  launched : w.threads.length = pipelines + 1
  -- the thread of position `i + 1` reads in lane `l` what was sent along that lane
  thread : ∀ i < pipelines, ∃ recv forwarder, w.threads[i + 1]? = some (recv, forwarder) ∧
    recv.length = lanes ∧ forwarder.length = lanes ∧
    ∀ (l : ℕ) (head : TestMessageSender ℕ), w.heads[l]? = some head → ∃ c, recv[l]? = some c ∧
      forwarder[l]? = some ⟨l, .new (i + 1)⟩ ∧
      (walk w pipelines head.chan)[i]? = some (c, forwarder[l]?)
  queued : ∀ (l : ℕ) (head : TestMessageSender ℕ), w.heads[l]? = some head →
    ∀ (i c : ℕ) (e : Option Element), (walk w pipelines head.chan)[i]? = some (c, e) →
    if i + 1 < pipelines then
      ∃ c' e', (walk w pipelines head.chan)[i + 1]? = some (c', e') ∧
        sendsTo c w.sent = [.addSender (.crossbeamSender c')]
    else sendsTo c w.sent = [.notify (.crossbeamSender 0) messages]
  concentrator : w.threads[0]? = some ([0], [⟨0, .new 0⟩]) ∧
    ∃ c, w.notifier = some (.crossbeamReceiver c) ∧
      sendsTo 0 w.sent = [.notify (.crossbeamSender c) lanes]

theorem wired_chains {pipelines : ℕ} (hp : 0 < pipelines) (lanes messages : ℕ) :
    Chains pipelines lanes messages (wired pipelines lanes messages) := by
  have hwalk : ∀ {l : ℕ} {head : TestMessageSender ℕ},
      (wired pipelines lanes messages).heads[l]? = some head → ∀ {n : ℕ}, pipelines ≤ n →
      walk (wired pipelines lanes messages) n head.chan =
        (List.range' 1 pipelines).map fun j => (chan pipelines l j, some ⟨l, .new j⟩) := by
    intro l head h n hn
    obtain ⟨hl, hchan⟩ := head_eq h
    rw [hchan, walk_head hp hl hn]
  constructor
  case heads => simp [wired]
  case chain =>
    intro l head h n hn
    rw [hwalk h hn, List.map_map]
    rfl
  case disjoint =>
    intro l l' head head' h h' hne c hc hc'
    rw [hwalk h (Nat.le_refl _), List.map_map] at hc
    rw [hwalk h' (Nat.le_refl _), List.map_map] at hc'
    obtain ⟨j, hj, rfl⟩ := List.mem_map.mp hc
    obtain ⟨j', hj', he⟩ := List.mem_map.mp hc'
    rw [List.mem_range'_1] at hj hj'
    exact hne (chan_inj (by omega) (by omega) (by omega) (by omega) he).1.symm
  case launched => simp [wired]
  case thread =>
    intro i hi
    refine ⟨_, _, by simp [wired, hi]; exact ⟨rfl, rfl⟩, by simp, by simp, ?_⟩
    intro l head h
    have hl := (head_eq h).1
    refine ⟨chan pipelines l (i + 1), by simp [hl], by simp [hl], ?_⟩
    rw [hwalk h (Nat.le_refl _)]
    simp [hl, hi, Nat.add_comm 1 i]
  case queued =>
    intro l head h i c e hc
    have hl := (head_eq h).1
    rw [hwalk h (Nat.le_refl _)] at hc ⊢
    rw [List.getElem?_map] at hc
    obtain ⟨j, hj, he⟩ := Option.map_eq_some_iff.mp hc
    obtain ⟨hi, rfl⟩ := List.getElem?_eq_some_iff.mp hj
    rw [List.length_range'] at hi
    obtain ⟨rfl, -⟩ := Prod.mk.inj he
    rw [List.getElem_range', Nat.one_mul, sendsTo_chan hl (by omega) (by omega), told, Nat.add_comm 1 i]
    split
    next hlt =>
      refine ⟨chan pipelines l (i + 1 + 1), some ⟨l, .new (i + 1 + 1)⟩, ?_, rfl⟩
      simp [hlt, Nat.add_comm 1]
    next => rfl
  case concentrator => exact ⟨rfl, _, rfl, sendsTo_concentrator hp⟩

theorem setup_builds_chains (pipelines lanes messages : ℕ) (hp : 1 ≤ pipelines) :
    ∃ w, setup pipelines lanes messages = some w ∧ Chains pipelines lanes messages w :=
  ⟨_, setup_eq hp lanes, wired_chains hp lanes messages⟩

theorem setup_builds_chains_two : ∃ w, setup 2 2 5 = some w ∧ Chains 2 2 5 w ∧
    w.threads.map Prod.fst = [[0], [1, 3], [2, 4]] ∧ walk w 9 3 =
      [(3, some ⟨1, .new 1⟩), (4, some ⟨1, .new 2⟩)] := by
  obtain ⟨w, hw, hc⟩ := setup_builds_chains 2 2 5 (by decide)
  refine ⟨w, hw, hc, ?_⟩
  obtain rfl : wired 2 2 5 = w := Option.some.inj ((setup_eq (by decide) 2).symm.trans hw)
  exact ⟨rfl, rfl⟩

section Names

def mapSender {κ κ' : Type} (f : κ → κ') : TestMessageSender κ → TestMessageSender κ'
  | .crossbeamSender c => .crossbeamSender (f c)
  | .d3Sender c => .d3Sender (f c)
  | .tokioSender c => .tokioSender (f c)
  | .flumeSender c => .flumeSender (f c)
  | .asyncCrossbeamSender c => .asyncCrossbeamSender (f c)
  | .futuresSender c => .futuresSender (f c)
  | .smolSender c => .smolSender (f c)

def mapMessage {κ κ' : Type} (f : κ → κ') : TestMessage κ → TestMessage κ'
  | .testData seq => .testData seq
  | .addSender sender => .addSender (mapSender f sender)
  | .notify sender n => .notify (mapSender f sender) n

def number (k : Params) : Chan → ℕ
  | .concentrator => 0
  | .lane l i => chan k.pipelines l i
  | .notifier => chan k.pipelines k.lanes 1

def spawned (ops : List Op) : List (List Chan) :=
  ops.filterMap fun
    | .spawn recvs => some recvs
    | _ => none

variable (k : Params)

theorem foldl_range {β : Type} {f : β → ℕ → β} (s : ℕ → β) {n : ℕ}
    (h : ∀ i < n, f (s i) i = s (i + 1)) : (List.range n).foldl f (s 0) = s n := by
  induction n with
  | zero => rfl
  | succ n ih =>
    rw [List.range_succ, List.foldl_append, ih fun i hi => h i (Nat.lt_succ_of_lt hi)]
    exact h n (Nat.lt_succ_self n)

theorem keepRecv_rows {l i : ℕ} (hi : i < k.pipelines) :
    keepRecv (rows k.pipelines l i fun l id => Chan.lane l (id + 1)) (.lane l (i + 1)) =
      rows k.pipelines l (i + 1) fun l id => .lane l (id + 1) := by
  obtain ⟨row, hrow, hset⟩ := Option.map_eq_some_iff.mp
    (pushAt_rows (l := l) (g := fun l id => Chan.lane l (id + 1)) hi)
  rw [← hset, keepRecv, Nat.add_sub_cancel, List.modify_eq_set_getElem?, hrow]
  rfl

theorem threadRecvs_eq : threadRecvs k = (List.range k.pipelines).map fun id =>
    (List.range k.lanes).map fun l => Chan.lane l (id + 1) := by
  have hlane : ∀ l, (k.laneChans l).foldl keepRecv
      (rows k.pipelines l 0 fun l id => Chan.lane l (id + 1)) =
      rows k.pipelines (l + 1) 0 fun l id => .lane l (id + 1) := by
    intro l
    have hchans : k.laneChans l = (List.range k.pipelines).map fun i => .lane l (i + 1) := by
      simp [Params.laneChans, List.range'_eq_map_range, Nat.add_comm 1]
    rw [hchans, List.foldl_map, ← rows_full]
    exact foldl_range (f := fun acc i => keepRecv acc (.lane l (i + 1)))
      (rows k.pipelines l · fun l id => Chan.lane l (id + 1)) fun i hi => keepRecv_rows k hi
  have hlanes := foldl_range (n := k.lanes) (f := fun acc l => (k.laneChans l).foldl keepRecv acc)
    (rows k.pipelines · 0 fun l id => Chan.lane l (id + 1)) fun l _ => hlane l
  rw [threadRecvs, List.foldl_flatMap, ← rows_zero, hlanes]
  simp [rows]

theorem setup_names : ∃ w, setup k.pipelines k.lanes k.messages = some w ∧
    w.heads = (crossbeamSetup k.pipelines k.lanes k.messages).1.heads.map (mapSender (number k)) ∧
    w.sent = (opSends (crossbeamSetup k.pipelines k.lanes k.messages).2).map
      (fun p => (number k p.1, mapMessage (number k) p.2)) ∧
    w.threads.map Prod.fst = (spawned (crossbeamSetup k.pipelines k.lanes k.messages).2).map
      fun recvs => recvs.map (number k) := by
  refine ⟨_, setup_eq k.pipelines_pos k.lanes, ?_, ?_, ?_⟩
  · rw [crossbeamSetup_eq]
    simp [wired, mapSender, number]
  · have hsends : opSends (crossbeamSetup k.pipelines k.lanes k.messages).2 =
        k.channels.map fun c => (c, config .crossbeamSender k c) :=
      (wires_crossbeam k).configures.sends
    rw [hsends, sent_eq k.pipelines_pos, List.map_map, Params.channels, List.map_append]
    simp only [SProd.sprod, List.product, List.map_flatMap, List.map_map]
    congr 1
    apply List.flatMap_congr
    intro l _
    rw [Params.laneChans, List.map_map]
    apply List.map_congr_left
    intro i _
    simp only [Function.comp_apply, number, config, told]
    split
    next => rfl
    next => rfl
  · have hlanes : spawned ((List.range k.lanes).flatMap (laneOps .crossbeamSender
        (fun sender cmd => .block (sendCmd sender cmd)) (fun _ => []) k)) = [] := by
      simp only [spawned, List.filterMap_eq_nil_iff, List.mem_flatMap]
      rintro op ⟨l, -, hop⟩
      rcases mem_laneOps hop with ⟨c, -, hop⟩ | ⟨c, msg, rfl⟩
      · cases hop
      · rfl
    rw [crossbeamSetup_eq, setupOps, threadRecvs_eq]
    simp only [spawned, List.filterMap_append] at hlanes ⊢
    rw [hlanes]
    simp [wired, number, List.filterMap_map, Function.comp_def]

end Names

end ChannelExecutor.Experiment.CrossbeamWiring
