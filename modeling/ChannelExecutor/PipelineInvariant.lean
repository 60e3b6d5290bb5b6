import ChannelExecutor.PipelineScripts

set_option autoImplicit false

namespace ChannelExecutor.Experiment

open Lib (Call Net)
open Lib.Net (feed feed_cons feed_nil)

namespace Params

variable (k : Params)

def next : Chan → Chan
  | .lane l i => if i < k.pipelines then .lane l (i + 1) else .concentrator
  | _ => .notifier

def quota : Chan → ℕ
  | .lane _ _ => k.messages
  | _ => k.lanes

def relays : Chan → Bool
  | .lane _ i => i < k.pipelines
  | _ => false

def stream (i n : ℕ) : List ℕ := if i = 1 then rounds k.messages n else List.range n

theorem channel_cases {c : Chan} (hc : c ∈ k.channels) :
    (∃ l i, c = .lane l i ∧ l < k.lanes ∧ 0 < i ∧ i < k.pipelines) ∨
      (∃ l < k.lanes, c = .lane l k.pipelines) ∨ c = .concentrator := by
  cases c with
  | lane l i =>
    obtain ⟨hl, hi0, hip⟩ := k.mem_channels_lane.mp hc
    rcases Nat.lt_or_eq_of_le hip with hip | rfl
    · exact .inl ⟨l, i, rfl, hl, hi0, hip⟩
    · exact .inr (.inl ⟨l, hl, rfl⟩)
  | concentrator => exact .inr (.inr rfl)
  | notifier => exact absurd hc k.notifier_not_mem

@[simp] theorem next_last (l : ℕ) :
    k.next (.lane l k.pipelines) = .concentrator := by
  simp [next]

@[simp] theorem next_concentrator : k.next .concentrator = .notifier := rfl

theorem next_relay {i : ℕ} (hip : i < k.pipelines) (l : ℕ) :
    k.next (.lane l i) = .lane l (i + 1) := by
  simp [next, hip]

theorem next_ne_head {c : Chan} (hc : c ∈ k.channels) (l : ℕ) :
    k.next c ≠ .lane l 1 := by
  cases c with
  | lane l' i =>
    have := (k.mem_channels_lane.mp hc).2.1
    by_cases hi : i < k.pipelines
    · simp only [next, if_pos hi, ne_eq, Chan.lane.injEq]
      omega
    · simp [next, hi]
  | concentrator => simp [next]
  | notifier => simp [next]

theorem relays_last (l : ℕ) : k.relays (.lane l k.pipelines) = false := by
  simp [Params.relays]

theorem last_mem {l : ℕ} (hl : l < k.lanes) : .lane l k.pipelines ∈ k.channels :=
  k.mem_channels_lane.mpr ⟨hl, k.pipelines_pos, Nat.le_refl _⟩

end Params

theorem config_eq (flavour : Chan → Sender) (k : Params) (c : Chan) :
    config flavour k c = if k.relays c then .addSender (flavour (k.next c))
      else .notify (flavour (k.next c)) (k.quota c) := by
  cases c with
  | lane l i =>
    by_cases h : i < k.pipelines
    · simp [config, Params.relays, Params.next, h]
    · simp [config, Params.relays, Params.next, Params.quota, h]
  | concentrator => rfl
  | notifier => rfl

theorem config_seq? (flavour : Chan → Sender) (k : Params) (c : Chan) :
    (config flavour k c).seq? = none := by
  rw [config_eq]
  split
  · rfl
  · rfl

section Streams

variable {k : Params} {i n : ℕ} {ds : List ℕ}

theorem prefix_range (h : ds <+: List.range n) : ds = List.range ds.length := by
  have hlen := h.length_le
  rw [List.length_range] at hlen
  have := List.prefix_iff_eq_take.mp h
  rwa [List.take_range, Nat.min_eq_left hlen] at this

theorem prefix_rounds {m : ℕ} (h : ds <+: rounds m n) : ds = rounds m ds.length := by
  have hlen := h.length_le
  simp only [rounds, List.length_map, List.length_range] at hlen
  have := List.prefix_iff_eq_take.mp h
  rwa [rounds, ← List.map_take, List.take_range, Nat.min_eq_left hlen] at this

theorem prefix_stream (h : ds <+: k.stream i n) : ds = k.stream i ds.length := by
  by_cases hi : i = 1
  · simp only [Params.stream, if_pos hi] at h ⊢
    exact prefix_rounds h
  · simp only [Params.stream, if_neg hi] at h ⊢
    exact prefix_range h

theorem follows_stream (k : Params) (i n : ℕ) : Follows 0 (k.stream i n) := by
  unfold Params.stream
  split
  · exact follows_rounds k.messages_pos n
  · exact follows_range n

end Streams

inductive Phase (s : State) : Prop
  | rest (h : ∀ op ∈ s.main, ∀ c, op ≠ .recv c) (hg : (s.net.got .notifier).length = s.runs)
      (hr : s.runs = 0 ∨ s.main = [])
  | wait {ops : List Op} (h : s.main = ops ++ [.recv .notifier])
      (hops : ∀ op ∈ ops, (∀ c, op ≠ .recv c) ∧ ∀ recvs, op ≠ .spawn recvs)
      (hg : (s.net.got .notifier).length + 1 = s.runs)

structure Inv (d : Driver) (k : Params) (flavour : Chan → Sender) (K : Chan → Prop) (s : State) :
    Prop where
  sound : s.net.Sound d.receive newForwarder (· ∈ k.channels)
  told : ∀ c, (configs (s.net.put c) ++ configs (addressed c s.pending)).Perm
    (if c ∈ k.channels then [config flavour k c] else [])
  sole : Sole (s.scripts.map dataOf)
  line_suffix : s.line <:+ k.data
  heads : ∀ l < k.lanes, seqs (s.net.put (.lane l 1)) ++ seqs (addressed (.lane l 1) s.line) =
    rounds k.messages (s.runs * k.messages)
  flow : ∀ l < k.lanes, ∀ i, 0 < i → i < k.pipelines →
    seqs (s.net.put (.lane l (i + 1))) = seqs ((s.net.out (.lane l i)).map Prod.snd)
  merged : (seqs (s.net.put .concentrator)).length =
    ((List.range k.lanes).map fun l => (s.net.out (.lane l k.pipelines)).length).sum
  notified : s.net.put .notifier = (s.net.out .concentrator).map Prod.snd
  active : ∀ c, s.net.call c ≠ none → c ∈ k.channels
  ready : ∀ c, K c → s.net.put c = [] ∨ ∃ msgs, s.net.put c = config flavour k c :: msgs
  calm : (∀ op ∈ s.main, op.result = .ok ()) ∧ ∀ call ∈ s.tasks, call.result = .ok ()
  phase : Phase s
  serves : ∀ c ∈ k.channels, ∃ recvs, (recvs ∈ s.threads ∨ .spawn recvs ∈ s.main) ∧ c ∈ recvs
  ranks : ∀ recvs, recvs ∈ s.threads ∨ .spawn recvs ∈ s.main → Ranked k recvs

def State.sends (s : State) (c : Chan) : List (Chan × Message) :=
  s.net.out c ++ (s.net.current c).sends

def State.given (s : State) (c : Chan) : List ℕ := seqs (s.net.got c)

def relayed (flavour : Chan → Sender) (s : State) (l i : ℕ) : Forwarder Chan :=
  if s.net.got (.lane l i) = [] then .new i
  else .relay i (flavour (.lane l (i + 1))) (s.given (.lane l i)).length
    (nextAfter 0 (s.given (.lane l i)))

section Inv

variable {d : Driver} {k : Params} {send : Send} {flavour : Chan → Sender}
variable {mode : Sending Chan Unit → Op} {K : Chan → Prop} {s : State}

theorem Inv.given_prefix (hi : Inv d k flavour K s) (c : Chan) : s.given c <+: seqs (s.net.put c) := by
  rw [hi.sound.fifo c, seqs_append]
  exact List.prefix_append _ _

theorem Inv.got_shape (hi : Inv d k flavour K s) {c : Chan} (hc : c ∈ k.channels) (hK : K c) :
    s.net.got c = [] ∨ s.net.got c = config flavour k c :: (s.given c).map .testData := by
  have hfifo := hi.sound.fifo c
  rcases hg : s.net.got c with _ | ⟨msg, got⟩
  · exact .inl rfl
  · right
    rw [hg] at hfifo
    rcases hi.ready c hK with hput | ⟨msgs, hput⟩
    · simp [hput] at hfifo
    · rw [hput, List.cons_append, List.cons.injEq] at hfifo
      obtain ⟨hmsg, hmsgs⟩ := hfifo
      have hnone : configs msgs = [] := by
        have hlen := (hi.told c).length_eq
        rw [if_pos hc, hput, configs_config (config_seq? flavour k c)] at hlen
        simp only [List.cons_append, List.length_cons, List.length_append, List.length_nil] at hlen
        exact List.length_eq_zero_iff.mp (by omega)
      rw [hmsgs, configs_append] at hnone
      have hgot := eq_map_testData (List.append_eq_nil_iff.mp hnone).1
      rw [State.given, hg, ← hmsg, seqs_config (config_seq? flavour k c), ← hgot]

theorem Inv.got_configs (hi : Inv d k flavour K s) (c : Chan) :
    ∀ msg ∈ configs (s.net.got c), msg = config flavour k c := by
  intro msg hmsg
  have hput : msg ∈ configs (s.net.put c) := by
    rw [hi.sound.fifo c, configs_append]
    exact List.mem_append_left _ hmsg
  have := (hi.told c).mem_iff.mp (List.mem_append_left _ hput)
  split at this
  next => simpa using this
  next => cases this

theorem Inv.put_configs_le (hi : Inv d k flavour K s) (c : Chan) : (configs (s.net.put c)).length ≤ 1 := by
  have hlen := (hi.told c).length_eq
  rw [List.length_append] at hlen
  split at hlen
  next =>
    rw [List.length_singleton] at hlen
    omega
  next =>
    rw [List.length_nil] at hlen
    omega

theorem Inv.relay_feed (hi : Inv d k flavour K s) (hw : d.Wires k send flavour mode) {l i n : ℕ}
    (hc : .lane l i ∈ k.channels) (hK : K (.lane l i)) (hip : i < k.pipelines)
    (hstream : seqs (s.net.put (.lane l i)) <+: k.stream i n) :
    feed d.receive (newForwarder (.lane l i)) (s.net.got (.lane l i)) =
      .after ((List.range (s.given (.lane l i)).length).map fun j => (.lane l (i + 1), .testData j))
        (.done (relayed flavour s l i)) := by
  obtain ⟨other, hreceive⟩ := hw.receive
  rcases hi.got_shape hc hK with hgot | hgot
  · simp [hgot, State.given, relayed, newForwarder, Chan.position]
  · have hfollows : Follows 0 (s.given (.lane l i)) := by
      rw [prefix_stream ((hi.given_prefix _).trans hstream)]
      exact follows_stream k i _
    have hconfig : config flavour k (.lane l i) = .addSender (flavour (.lane l (i + 1))) := by
      simp [config, hip]
    have hne : s.net.got (.lane l i) ≠ [] := by simp [hgot]
    rw [relayed, if_neg hne, hgot, hreceive, hconfig, feed_cons, newForwarder,
      Forwarder.receive_addSender, Call.done_bind, Forwarder.feed_relay hw.delivers _ _ hfollows,
      List.range_eq_range', Nat.zero_add]
    rfl

theorem Inv.arrivals (hi : Inv d k flavour K s) (hw : d.Wires k send flavour mode)
    (hK : ∀ c ∈ k.channels, k.relays c → K c) {l : ℕ} (hl : l < k.lanes) {i : ℕ} (hi0 : 0 < i)
    (hip : i ≤ k.pipelines) : ∃ n, seqs (s.net.put (.lane l i)) <+: k.stream i n := by
  induction i with
  | zero => exact absurd hi0 (Nat.lt_irrefl 0)
  | succ i ih =>
    by_cases hhead : i = 0
    · subst hhead
      refine ⟨s.runs * k.messages, ?_⟩
      rw [Params.stream, if_pos rfl, ← hi.heads l hl]
      exact List.prefix_append _ _
    -- what comes in is what the position before has sent
    have hi0 : 0 < i := Nat.pos_of_ne_zero hhead
    obtain ⟨n, hn⟩ := ih hi0 (by omega)
    have hc : .lane l i ∈ k.channels := k.mem_channels_lane.mpr ⟨hl, hi0, by omega⟩
    have hlt : i < k.pipelines := by omega
    have hfeed := hi.relay_feed hw hc (hK _ hc (by simpa [Params.relays] using hlt)) hlt hn
    have hout := (hi.sound.of_feed hc hfeed).1
    refine ⟨(s.given (.lane l i)).length, ?_⟩
    have hpre : s.net.out (.lane l i) <+: (List.range (s.given (.lane l i)).length).map
        fun j => (Chan.lane l (i + 1), TestMessage.testData j) := hout ▸ List.prefix_append _ _
    have hseqs := (hpre.map Prod.snd).filterMap TestMessage.seq?
    rw [hi.flow l hl i hi0 hlt, Params.stream, if_neg (by omega)]
    change seqs _ <+: seqs _ at hseqs
    rwa [List.map_map, show (Prod.snd ∘ fun j => (Chan.lane l (i + 1), TestMessage.testData j)) =
      TestMessage.testData from rfl, seqs_map_testData] at hseqs

end Inv

end ChannelExecutor.Experiment
