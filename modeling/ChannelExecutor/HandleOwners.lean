import ChannelExecutor.HandlePrograms

set_option autoImplicit false

namespace ChannelExecutor.Experiment

open Lib (Call Net System)
open State

section Configurations

variable {d : Driver} {k : Params} {send : Send} {flavour : Chan → Sender}
variable {mode : Sending Chan Unit → Op} {s : Life} {c : Chan}

theorem config_handles (flavour : Chan → Sender) (k : Params) (c : Chan) :
    (config flavour k c).handles = [flavour (k.next c)] := by
  rw [config_eq]
  split
  · rfl
  · rfl

theorem seq?_of_handles {msg : Message} {x : Sender} (h : x ∈ msg.handles) : msg.seq? = none := by
  cases msg with
  | testData seq => cases h
  | addSender sender => rfl
  | notify sender count => rfl

theorem forwarder_of_result {f : Forwarder Chan} (h : (s.net.current c).result = .ok f) :
    s.forwarder c = f := by
  simp [Life.forwarder, h]

theorem Inv.forwarder_handles (hi : Inv d k flavour (· ∈ k.channels) s.state)
    (hw : d.Wires k send flavour mode) (hc : c ∈ k.channels) :
    (s.forwarder c).handles = if s.net.got c = [] then [] else [flavour (k.next c)] := by
  cases hr : k.relays c with
  | true =>
    obtain ⟨l, i, rfl, hl, hi0, hip⟩ | ⟨l, hl, rfl⟩ | rfl := k.channel_cases hc
    · have hf := (hi.relay_sends hw (fun _ hc _ => hc) hl hi0 hip).2
      rw [forwarder_of_result hf, relayed, Life.state_net]
      split
      next => rfl
      next =>
        rw [k.next_relay hip]
        rfl
    · simp [k.relays_last] at hr
    · cases hr
  | false =>
    split
    next hgot =>
      have hf := (hi.sound.of_feed (l := []) hc (by rw [show s.state.net.got c = [] from hgot]; rfl)).2
      rw [forwarder_of_result hf]
      rfl
    next hgot =>
      have hf := (hi.sound.of_feed hc (hi.counting_feed hw hc hr hgot)).2
      rw [forwarder_of_result hf]
      rfl

theorem Inv.sending_nil (hi : Inv d k flavour (· ∈ k.channels) s.state)
    (hw : d.Wires k send flavour mode) (hc : c ∈ k.channels) : s.sending c = [] := by
  unfold Life.sending
  split
  next dst msg rest hcall =>
    have hcur : s.net.current c = .send dst msg rest := by simp [Net.current, hcall]
    obtain ⟨seq, hp⟩ := (hi.sends_next hw (fun _ hc _ => hc) hc).1 (dst, msg) (by
      simp [State.sends, hcur])
    rw [(Prod.mk.inj hp).2]
    rfl
  next => rfl

theorem flatMap_handles (msgs : List Message) (c : Chan) :
    (msgs.flatMap fun msg => msg.handles.map fun x => (Holder.queued c msg, x)) =
      (configs msgs).flatMap fun msg => msg.handles.map fun x => (Holder.queued c msg, x) := by
  induction msgs with
  | nil => rfl
  | cons msg msgs ih =>
    rw [List.flatMap_cons, ih]
    cases msg with
    | testData seq => simp [TestMessage.handles]
    | addSender sender => rw [configs_config rfl, List.flatMap_cons]
    | notify sender count => rw [configs_config rfl, List.flatMap_cons]

theorem Inv.got_told (hi : Inv d k flavour (· ∈ k.channels) s.state) (hc : c ∈ k.channels)
    (hgot : s.net.got c ≠ []) : configs (s.net.got c) = [config flavour k c] := by
  have hshape := (hi.got_shape hc hc).resolve_left hgot
  rw [show s.net.got c = _ from hshape, configs_config (config_seq? flavour k c),
    configs_map_testData]

theorem Inv.one_handle (hi : Inv d k flavour (· ∈ k.channels) s.state)
    (hw : d.Wires k send flavour mode) (hc : c ∈ k.channels)
    (htold : configs (s.net.put c) = [config flavour k c]) :
    s.queuedHandles c ++ s.ownHandles c =
      if s.net.got c = [] then
        (if c ∈ s.freed then [] else [(.queued c (config flavour k c), flavour (k.next c))])
      else if c ∈ s.dropped then [] else [(.forwarder c, flavour (k.next c))] := by
  have hfifo : s.net.put c = s.net.got c ++ s.net.queue c := hi.sound.fifo c
  have hown := hi.forwarder_handles hw hc
  have hsending := hi.sending_nil hw hc
  rw [hfifo, configs_append] at htold
  by_cases hgot : s.net.got c = []
  · rw [hgot, configs_nil, List.nil_append] at htold
    simp only [Life.queuedHandles, Life.ownHandles, flatMap_handles, htold, hown, hsending, hgot,
      if_true, List.flatMap_cons, List.flatMap_nil, config_handles]
    split <;> simp
  · rw [hi.got_told hc hgot] at htold
    have hnil : configs (s.net.queue c) = [] := by simpa using htold
    simp only [Life.queuedHandles, Life.ownHandles, flatMap_handles, hnil, hown, hsending, hgot,
      if_false, List.flatMap_nil]
    split <;> simp

end Configurations

section Lists

variable {α : Type}

theorem filter_unique {p : α → Bool} {ls : List α} (hn : ls.Nodup) {a : α} (ha : a ∈ ls)
    (hp : ∀ x ∈ ls, p x = true ↔ x = a) : ls.filter p = [a] := by
  induction ls with
  | nil => cases ha
  | cons y ls ih =>
    obtain ⟨hy, hn⟩ := List.nodup_cons.mp hn
    by_cases hya : y = a
    · subst hya
      rw [List.filter_cons_of_pos ((hp y List.mem_cons_self).mpr rfl), List.filter_eq_nil_iff.mpr]
      intro x hx hpx
      obtain rfl := (hp x (List.mem_cons_of_mem _ hx)).mp hpx
      exact hy hx
    · rw [List.filter_cons_of_neg fun hpy => hya ((hp y List.mem_cons_self).mp hpy)]
      exact ih hn (List.mem_of_ne_of_mem (Ne.symm hya) ha) fun x hx => hp x (List.mem_cons_of_mem _ hx)

theorem zipIdx_map_range (f : ℕ → α) (n : ℕ) :
    ((List.range n).map f).zipIdx = (List.range n).map fun l => (f l, l) := by
  apply List.ext_getElem?
  intro i
  by_cases h : i < n
  · simp [h]
  · simp [h]

end Lists

namespace Params

variable (k : Params)

theorem filter_next_relay {l i : ℕ} (hl : l < k.lanes) (hi0 : 0 < i) (hip : i < k.pipelines) :
    (k.channels.filter fun c => k.next c = .lane l (i + 1)) = [.lane l i] := by
  apply filter_unique k.channels_nodup (k.mem_channels_lane.mpr ⟨hl, hi0, by omega⟩)
  intro c hc
  obtain ⟨l', i', rfl, -, -, hip'⟩ | ⟨l', -, rfl⟩ | rfl := k.channel_cases hc
  · rw [k.next_relay hip']
    simp
  · simp only [next_last, reduceCtorEq, decide_false, Bool.false_eq_true, Chan.lane.injEq, false_iff]
    omega
  · simp

theorem filter_next_head (l : ℕ) : (k.channels.filter fun c => k.next c = .lane l 1) = [] := by
  rw [List.filter_eq_nil_iff]
  intro c hc
  simpa using k.next_ne_head hc l

theorem filter_next_concentrator :
    (k.channels.filter fun c => k.next c = .concentrator) =
      (List.range k.lanes).map fun l => .lane l k.pipelines := by
  have hlane : ∀ l, ((k.laneChans l).filter fun c => k.next c = .concentrator) =
      [.lane l k.pipelines] := by
    intro l
    have hp := k.pipelines_pos
    apply filter_unique
    · exact List.Nodup.map (fun i j h => (Chan.lane.inj h).2) (List.nodup_range' 1)
    · simp only [laneChans, List.mem_map, List.mem_range'_1]
      exact ⟨k.pipelines, by omega, rfl⟩
    · intro c hc
      simp only [laneChans, List.mem_map, List.mem_range'_1] at hc
      obtain ⟨i, ⟨hi0, hip⟩, rfl⟩ := hc
      by_cases hlt : i < k.pipelines
      · simp only [next, if_pos hlt, reduceCtorEq, decide_false, Bool.false_eq_true, Chan.lane.injEq,
          true_and, false_iff]
        omega
      · simp only [next, if_neg hlt, decide_true, Chan.lane.injEq, true_and, true_iff]
        omega
  simp [channels, List.filter_append, List.filter_flatMap, hlane, List.map_eq_flatMap]

end Params

def Life.holderOf (flavour : Chan → Sender) (k : Params) (s : Life) (c : Chan) : Holder :=
  if s.net.got c = [] then .queued c (config flavour k c) else .forwarder c

def Life.SetUp (s : Life) : Prop := s.prog = [] ∨ s.runs ≠ 0

/-- The live senders of every channel: a head, the forwarder before it or the `AddSender` that is
still on its way to that forwarder, and the last forwarders or what they are to be told. -/
structure Life.HandlesExact (flavour : Chan → Sender) (k : Params) (s : Life) : Prop where
  head : ∀ l < k.lanes, s.heads[l]? = some (flavour (.lane l 1)) ∧
    s.holders k (.lane l 1) = [.head l]
  inner : ∀ l < k.lanes, ∀ i, 0 < i → i < k.pipelines →
    s.holders k (.lane l (i + 1)) = [.forwarder (.lane l i)] ∨
    s.holders k (.lane l (i + 1)) =
      [.queued (.lane l i) (.addSender (flavour (.lane l (i + 1))))]
  concentrator : ∃ holder : ℕ → Holder,
    s.holders k .concentrator = (List.range k.lanes).map holder ∧
    ∀ l < k.lanes, holder l = .forwarder (.lane l k.pipelines) ∨
      holder l = .queued (.lane l k.pipelines) (.notify (flavour .concentrator) k.messages)

section Exact

variable {d : Driver} {k : Params} {send : Send} {flavour : Chan → Sender} {s : Life}

theorem Inv.told_all (hi : Inv d k flavour (· ∈ k.channels) s.state)
    (hpending : ∀ c, configs (addressed c s.state.pending) = []) {c : Chan} (hc : c ∈ k.channels) :
    configs (s.net.put c) = [config flavour k c] := by
  have htold := hi.told c
  rw [hpending c, List.append_nil, if_pos hc] at htold
  exact List.perm_singleton.mp htold

theorem Inv.notifier_handles (hi : Inv d k flavour (· ∈ k.channels) s.state)
    (hw : d.Wires k send flavour .block) : s.queuedHandles .notifier = [] := by
  have hdata : ∀ msg ∈ s.net.queue .notifier, msg.handles = [] := by
    intro msg hmsg
    have hput : msg ∈ s.net.put .notifier := by
      rw [show s.net.put .notifier = _ from hi.sound.fifo .notifier]
      exact List.mem_append_right _ hmsg
    rw [hi.notifications hw msg hput]
    rfl
  unfold Life.queuedHandles
  split
  · rfl
  · rw [List.flatMap_eq_nil_iff]
    intro msg hmsg
    rw [hdata msg hmsg]
    rfl

theorem inHand_nil (hpending : ∀ c, configs (addressed c s.state.pending) = []) : s.inHand = [] := by
  unfold Life.inHand
  split
  next c msg call rest hp =>
    by_contra hne
    obtain ⟨x, hx⟩ := List.exists_mem_of_ne_nil _ hne
    have hmem : msg ∈ configs (addressed c s.state.pending) := by
      refine List.mem_filter.mpr ⟨mem_addressed.mpr ?_, by simp [seq?_of_handles hx]⟩
      simp [State.pending, scripts, Life.state, hp]
    rw [hpending c] at hmem
    cases hmem
  next => rfl

theorem Inv.handles_eq (hi : Inv d k flavour (· ∈ k.channels) s.state)
    (hw : d.Wires k send flavour .block)
    (hpending : ∀ c, configs (addressed c s.state.pending) = []) (hlocals : s.locals = [])
    (hfreed : s.freed = []) (hdropped : s.dropped = []) :
    s.handles k = s.heads.zipIdx.map (fun p => (.head p.2, p.1)) ++
      k.channels.map fun c => (s.holderOf flavour k c, flavour (k.next c)) := by
  have hone : ∀ c ∈ k.channels, s.queuedHandles c ++ s.ownHandles c =
      [(s.holderOf flavour k c, flavour (k.next c))] := by
    intro c hc
    rw [hi.one_handle hw hc (hi.told_all hpending hc), Life.holderOf]
    split
    · simp [hfreed]
    · simp [hdropped]
  rw [Life.handles, hlocals, inHand_nil hpending, hi.notifier_handles hw, List.flatMap_congr hone,
    ← List.map_eq_flatMap]
  simp

theorem Inv.handlesExact (hi : Inv d k flavour (· ∈ k.channels) s.state)
    (hw : d.Wires k send flavour .block) (hflavour : ∀ c, (flavour c).chan = c)
    (hpending : ∀ c, configs (addressed c s.state.pending) = []) (hlocals : s.locals = [])
    (hheads : s.heads = (List.range k.lanes).map fun l => flavour (.lane l 1))
    (hfreed : s.freed = []) (hdropped : s.dropped = []) : s.HandlesExact flavour k := by
  have hholders : ∀ c, s.holders k c =
      ((List.range k.lanes).filter fun l => Chan.lane l 1 = c).map .head ++
        (k.channels.filter fun c' => k.next c' = c).map (s.holderOf flavour k) := by
    intro c
    rw [Life.holders, hi.handles_eq hw hpending hlocals hfreed hdropped, hheads, zipIdx_map_range]
    simp only [List.map_map, List.filter_append, List.filter_map, List.map_append, Function.comp_def,
      hflavour]
  have hnone : ∀ c, (∀ l, Chan.lane l 1 ≠ c) →
      ((List.range k.lanes).filter fun l => Chan.lane l 1 = c) = [] := by
    intro c hc
    rw [List.filter_eq_nil_iff]
    intro l _
    simpa using hc l
  constructor
  case head =>
    intro l hl
    have hone : ((List.range k.lanes).filter fun l' => Chan.lane l' 1 = .lane l 1) = [l] :=
      filter_unique List.nodup_range (List.mem_range.mpr hl) (by simp)
    rw [hholders, hone, k.filter_next_head, hheads]
    simp [hl]
  case inner =>
    intro l hl i hi0 hip
    rw [hholders, hnone _ (by simp; omega), k.filter_next_relay hl hi0 hip]
    simp only [List.map_nil, List.nil_append, List.map_cons, Life.holderOf]
    split
    · right
      simp [config, hip]
    · exact .inl rfl
  case concentrator =>
    refine ⟨fun l => s.holderOf flavour k (.lane l k.pipelines), ?_, ?_⟩
    · rw [hholders, hnone _ (by simp), k.filter_next_concentrator]
      simp
    · intro l hl
      simp only [Life.holderOf]
      split
      · right
        simp [config]
      · exact .inl rfl

end Exact

end ChannelExecutor.Experiment
