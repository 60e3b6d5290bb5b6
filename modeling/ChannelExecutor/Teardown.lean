import ChannelExecutor.Standing

set_option autoImplicit false

namespace ChannelExecutor.Experiment

open Lib (Call Net System)
open State

section AtRest

variable {d : Driver} {k : Params} {send : Send} {flavour : Chan → Sender} {u : State}

theorem Inv.notifier_empty (hi : Inv d k flavour (· ∈ k.channels) u) (hw : d.Wires k send flavour .block)
    (hm : u.main = []) : u.net.queue .notifier = [] := by
  have hput := hi.put_notifier_le hw fun _ hc _ => hc
  have hfifo := congrArg List.length (hi.sound.fifo .notifier)
  rw [List.length_append] at hfifo
  have hgot : (u.net.got .notifier).length = u.runs := by
    cases hi.phase with
    | rest hne hg hr => exact hg
    | wait h hops hg => simp [hm] at h
  exact List.length_eq_zero_iff.mp (by omega)

theorem Inv.received_all (hi : Inv d k flavour (· ∈ k.channels) u) (hw : d.Wires k send flavour .block)
    (hm : u.main = []) {c : Chan} (hc : c ∈ k.sites) : seqs (u.net.got c) = seqs (u.net.put c) := by
  have hK : ∀ c ∈ k.channels, k.relays c → c ∈ k.channels := fun _ hc _ => hc
  obtain ⟨hlanes, hcon, hcon'⟩ := hi.barrier hw hK (hi.runs_le_of_rest hm)
  have hfifo := congrArg (fun msgs => (seqs msgs).length) (hi.sound.fifo c)
  simp only [seqs_append, List.length_append] at hfifo
  have hqueue : seqs (u.net.queue c) = [] := by
    rw [← List.length_eq_zero_iff]
    cases c with
    | lane l i =>
      obtain ⟨hl, hi0, hip⟩ := k.mem_channels_lane.mp (List.mem_of_ne_of_mem (by simp) hc)
      obtain ⟨hgiven, hput⟩ := hlanes l hl i hi0 hip
      change (seqs (u.net.got _)).length = _ at hgiven
      omega
    | concentrator =>
      change (seqs (u.net.got _)).length = _ at hcon
      omega
    | notifier => rw [hi.notifier_empty hw hm]; rfl
  rw [hi.sound.fifo c, seqs_append, hqueue, List.append_nil]

theorem Inv.out_le (hi : Inv d k flavour (· ∈ k.channels) u) (hw : d.Wires k send flavour .block)
    (hm : u.main = []) {c : Chan} (hc : c ∈ k.channels) :
    (u.sends c).length ≤ (u.net.out c).length := by
  have hK : ∀ c ∈ k.channels, k.relays c → c ∈ k.channels := fun _ hc _ => hc
  obtain ⟨hlanes, hcon, hcon'⟩ := hi.barrier hw hK (hi.runs_le_of_rest hm)
  obtain ⟨l, i, rfl, hl, hi0, hip⟩ | ⟨l, hl, rfl⟩ | rfl := k.channel_cases hc
  · -- the next position has got as many data as this one
    have hsends := congrArg List.length (hi.relay_sends hw hK hl hi0 hip).1
    have hout := congrArg List.length (hi.flow l hl i hi0 hip)
    have hle := seqs_out_length_le u (.lane l i)
    have hgiven := (hlanes l hl i hi0 (by omega)).1
    have hnext := (hlanes l hl (i + 1) (by omega) (by omega)).2
    rw [List.length_map, List.length_range] at hsends
    omega
  · rw [hi.last_out_length hw hK (Nat.le_of_eq hcon'.symm) hl]
    exact hi.last_sends_le hw hK hl
  · have hsends := hi.notifications_le hw hK
    have hput := congrArg List.length hi.notified
    rw [List.length_map] at hput
    have := hi.runs_le_of_rest hm
    omega

theorem Inv.call_done (hi : Inv d k flavour (· ∈ k.channels) u) (hw : d.Wires k send flavour .block)
    (hm : u.main = []) {c : Chan} {call : Sending Chan (Forwarder Chan)} (hcall : u.net.call c = some call) :
    ∃ f, call = .done f := by
  have hc : c ∈ k.channels := hi.active c (by simp [hcall])
  have hcur : u.net.current c = call := by simp [Net.current, hcall]
  have hle := hi.out_le hw hm hc
  rw [State.sends, List.length_append, hcur] at hle
  obtain ⟨f, hf⟩ := (hi.sends_next hw (fun _ hc _ => hc) hc).2
  rw [hcur] at hf
  cases call with
  | done f => exact ⟨f, rfl⟩
  | send dst msg rest =>
    simp only [Call.sends_send, List.length_cons] at hle
    omega
  | panic e => cases hf

end AtRest

structure Life.Falling (k : Params) (s : Life) : Prop where
  prog : s.prog <:+ [.clear, .close .notifier]
  locals : s.locals = []
  heads : .clear ∉ s.prog → s.heads = []
  closed : ∀ c ∈ s.closed, c ∈ k.sites

def Params.rank (k : Params) : Chan → ℕ
  | .lane _ i => i
  | .concentrator => k.pipelines + 1
  | .notifier => k.pipelines + 2

theorem Params.rank_next (k : Params) {c : Chan} (hc : c ∈ k.channels) :
    k.rank (k.next c) = k.rank c + 1 := by
  obtain ⟨l, i, rfl, hl, hi0, hip⟩ | ⟨l, hl, rfl⟩ | rfl := k.channel_cases hc
  · rw [k.next_relay hip]
    rfl
  · rw [k.next_last]
    rfl
  · rfl

section Falling

variable {o : TrackedDriver} {k : Params} {send : Send} {eager : Bool} {s t : Life} {e : Event}

theorem Life.Falling.idle (hs : s.Falling k) : opsOf s.prog = [] := by
  have hsub := hs.prog.sublist.filterMap Stmt.op?
  exact List.sublist_nil.mp hsub

theorem Life.Falling.prog_cases (hs : s.Falling k) :
    s.prog = [.clear, .close .notifier] ∨ s.prog = [.close .notifier] ∨ s.prog = [] := by
  have hcases := hs.prog
  rwa [List.suffix_cons_iff, List.suffix_cons_iff, List.suffix_nil] at hcases

theorem pending_nil (hm : opsOf s.prog = []) (c : Chan) :
    configs (addressed c s.state.pending) = [] := by
  simp [State.pending, scripts, Life.state, hm]

theorem Life.Falling.holders_nil (hs : s.Falling k) (ho : o.Sound k send)
    (hi : Inv o.driver k o.flavour (· ∈ k.channels) s.state) (hheads : s.heads = []) {c : Chan}
    (hbefore : ∀ c' ∈ k.channels, k.next c' = c → c' ∈ s.freed ∧ c' ∈ s.dropped) :
    s.holders k c = [] := by
  have hpending := pending_nil hs.idle
  rw [Life.holders, List.map_eq_nil_iff, List.filter_eq_nil_iff]
  rintro ⟨place, x⟩ hx
  simp only [Life.handles, hs.locals, hheads, inHand_nil hpending, hi.notifier_handles ho.wires,
    List.map_nil, List.zipIdx_nil, List.nil_append, List.mem_flatMap] at hx
  obtain ⟨c', hc', hmem⟩ := hx
  rw [hi.one_handle ho.wires hc' (hi.told_all hpending hc')] at hmem
  simp only [decide_eq_true_eq]
  rintro rfl
  have hnext : k.next c' = x.chan → False := by
    intro hnext
    obtain ⟨hfreed, hdropped⟩ := hbefore c' hc' hnext
    rw [if_pos hfreed, if_pos hdropped, ite_self] at hmem
    cases hmem
  apply hnext
  split at hmem
  · split at hmem
    · cases hmem
    · rw [(Prod.mk.inj (List.mem_singleton.mp hmem)).2, ho.flavour]
  · split at hmem
    · cases hmem
    · rw [(Prod.mk.inj (List.mem_singleton.mp hmem)).2, ho.flavour]

theorem Life.Falling.stuck_prog (hs : s.Falling k)
    (hstuck : ∀ e, stepLife o k eager s e = none) : s.prog = [] ∧ s.heads = [] := by
  have hmain := hstuck .main
  simp only [stepLife, stepStmt] at hmain
  have hp : s.prog = [] := by
    rcases hs.prog_cases with hp | hp | hp
    · rw [hp] at hmain
      cases hh : s.heads with
      | nil => simp [hh] at hmain
      | cons x heads => simp [hh] at hmain
    · simp [hp] at hmain
    · exact hp
  exact ⟨hp, hs.heads (by simp [hp])⟩

theorem Life.Falling.stuck_call (hs : s.Falling k) (ho : o.Sound k send)
    (hi : Inv o.driver k o.flavour (· ∈ k.channels) s.state)
    (hstuck : ∀ e, stepLife o k eager s e = none) (c : Chan) : s.net.call c = none := by
  by_contra hne
  obtain ⟨call, hcall⟩ := Option.ne_none_iff_exists'.mp hne
  obtain ⟨f, rfl⟩ := hi.call_done ho.wires hs.idle hcall
  have hstep := hstuck (.advance c)
  simp [stepLife, stepAdvance, hcall, Life.refused, Net.advance] at hstep

theorem Life.Falling.thread_left (hs : s.Falling k) (ho : o.Sound k send)
    (hi : Inv o.driver k o.flavour (· ∈ k.channels) s.state)
    (hstuck : ∀ e, stepLife o k eager s e = none) {thread : ℕ} {recvs : List Chan}
    (ht : s.threads[thread]? = some recvs) {c : Chan} (hc : c ∈ recvs) (hholders : s.holders k c = []) :
    thread ∈ s.left := by
  by_contra hleft
  obtain ⟨index, hindex⟩ := List.mem_iff_getElem?.mp hc
  have hidle : ∀ c' ∈ recvs, s.net.call c' = none := fun c' _ => hs.stuck_call ho hi hstuck c'
  have hqueue : s.net.queue c = [] := by
    have hreceive := hstuck (.receive thread index)
    simp only [stepLife, if_neg hleft, Option.map_eq_none_iff] at hreceive
    exact stepReceive_none (k := k) (s := s.state) ht hidle hindex hreceive
  have hall : (recvs.all fun c => (s.net.call c).isNone) = true := by simpa using hidle
  have hleave := hstuck (.leave thread index)
  simp [stepLife, stepLeave, ht, hleft, hall, hindex, hqueue, hholders] at hleave

theorem Life.Falling.stuck_channel (hs : s.Falling k) (ho : o.Sound k send)
    (hi : Inv o.driver k o.flavour (· ∈ k.channels) s.state)
    (hstuck : ∀ e, stepLife o k eager s e = none) (n : ℕ) :
    ∀ c ∈ k.channels, k.rank c = n → s.holders k c = [] ∧ c ∈ s.freed ∧ c ∈ s.dropped := by
  induction n using Nat.strongRecOn with
  | ind n ih =>
  intro c hc hn
  have hholders : s.holders k c = [] := by
    apply hs.holders_nil ho hi (hs.stuck_prog hstuck).2
    rintro c' hc' rfl
    have hlt := k.rank_next hc'
    exact (ih (k.rank c') (by omega) c' hc' rfl).2
  obtain ⟨recvs, hr, hmem⟩ := hi.serves c hc
  have hr : recvs ∈ s.threads := hr.resolve_right (by simp [hs.idle])
  obtain ⟨thread, ht⟩ := List.mem_iff_getElem?.mp hr
  have hended : s.Ended c := ⟨thread, hs.thread_left ho hi hstuck ht hmem hholders, by simpa [ht]⟩
  have hclosed : c ∈ s.closed := by
    by_contra hne
    have := hstuck (.close c)
    simp [stepLife, hended, hne] at this
  have hdropped : c ∈ s.dropped := by
    by_contra hne
    have := hstuck (.drop c)
    simp [stepLife, hended, hne] at this
  have hfreed : c ∈ s.freed := by
    by_contra hne
    have := hstuck (.free c)
    simp [stepLife, hclosed, hne, hholders] at this
  exact ⟨hholders, hfreed, hdropped⟩

end Falling

end ChannelExecutor.Experiment
