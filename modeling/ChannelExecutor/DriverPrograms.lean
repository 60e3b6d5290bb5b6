import ChannelExecutor.Drivers
import ChannelExecutor.ForwarderRuns
import Mathlib.Data.List.Nodup

set_option autoImplicit false

namespace ChannelExecutor.Experiment

open Lib (Call)

structure Params where
  pipelines : ℕ
  lanes : ℕ
  messages : ℕ
  capacity : Chan → ℕ
  pipelines_pos : 0 < pipelines
  lanes_pos : 0 < lanes
  messages_pos : 0 < messages
  capacity_pos : ∀ c, 0 < capacity c

namespace Params

variable (k : Params)

def laneChans (l : ℕ) : List Chan := (List.range' 1 k.pipelines).map (.lane l)

def channels : List Chan := (List.range k.lanes).flatMap k.laneChans ++ [.concentrator]

def data : List (Chan × Message) :=
  (List.range k.messages).flatMap fun id => (List.range k.lanes).map fun l => (.lane l 1, .testData id)

theorem mem_channels_lane {l i : ℕ} :
    .lane l i ∈ k.channels ↔ l < k.lanes ∧ 0 < i ∧ i ≤ k.pipelines := by
  simp only [channels, laneChans, List.mem_append, List.mem_flatMap, List.mem_range, List.mem_map,
    List.mem_range'_1, Chan.lane.injEq, List.mem_singleton, reduceCtorEq, or_false]
  constructor
  · rintro ⟨l', hl, i', ⟨hi, hp⟩, rfl, rfl⟩
    omega
  · rintro ⟨hl, hi, hp⟩
    exact ⟨l, hl, i, ⟨hi, by omega⟩, rfl, rfl⟩

theorem concentrator_mem : .concentrator ∈ k.channels := by simp [channels]

theorem notifier_not_mem : .notifier ∉ k.channels := by simp [channels, laneChans]

theorem channels_nodup : k.channels.Nodup := by
  have hlanes : ((List.range k.lanes).flatMap k.laneChans).Nodup := by
    rw [List.nodup_flatMap]
    constructor
    · intro l _
      exact List.Nodup.map (fun i j h => (Chan.lane.inj h).2) (List.nodup_range' 1)
    · apply List.nodup_range.imp
      intro l l' hne c hc hc'
      simp only [laneChans, List.mem_map] at hc hc'
      obtain ⟨i, -, rfl⟩ := hc
      obtain ⟨j, -, h⟩ := hc'
      exact hne (Chan.lane.inj h).1.symm
  apply hlanes.append (List.nodup_singleton _)
  simp [List.disjoint_singleton, laneChans]

end Params

def config (flavour : Chan → Sender) (k : Params) : Chan → Message
  | .lane l i =>
    if i < k.pipelines then .addSender (flavour (.lane l (i + 1)))
    else .notify (flavour .concentrator) k.messages
  | _ => .notify (flavour .notifier) k.lanes

def Chan.position : Chan → ℕ
  | .lane _ i => i
  | _ => 0

namespace Op

def sends : Op → List (Chan × Message)
  | block call => call.sends
  | detach call => call.sends
  | _ => []

def result : Op → Except (Panic Chan) Unit
  | block call => call.result
  | detach call => call.result
  | _ => .ok ()

end Op

@[simp] theorem Op.sends_spawn (recvs : List Chan) : (Op.spawn recvs).sends = [] := rfl

@[simp] theorem Op.sends_block (call : Sending Chan Unit) : (Op.block call).sends = call.sends := rfl

@[simp] theorem Op.sends_detach (call : Sending Chan Unit) : (Op.detach call).sends = call.sends := rfl

@[simp] theorem Op.sends_recv (c : Chan) : (Op.recv c).sends = [] := rfl

def opSends (ops : List Op) : List (Chan × Message) := ops.flatMap Op.sends

@[simp] theorem opSends_nil : opSends [] = [] := rfl

@[simp] theorem opSends_cons (op : Op) (ops : List Op) : opSends (op :: ops) = op.sends ++ opSends ops :=
  List.flatMap_cons

@[simp] theorem opSends_append (ops ops' : List Op) : opSends (ops ++ ops') = opSends ops ++ opSends ops' :=
  List.flatMap_append

structure Configures (flavour : Chan → Sender) (k : Params) (ops : List Op) : Prop where
  sends : opSends ops = k.channels.map fun c => (c, config flavour k c)
  ends_well : ∀ op ∈ ops, op.result = .ok ()
  no_recv : ∀ op ∈ ops, ∀ c, op ≠ .recv c
  serves : ∀ c ∈ k.channels, ∃ recvs, .spawn recvs ∈ ops ∧ c ∈ recvs
  ranks : ∀ recvs, .spawn recvs ∈ ops → ∀ c ∈ recvs,
    c ∈ k.channels ∧ ∀ c' ∈ recvs, c'.position = c.position

section Building

variable {flavour : Chan → Sender} {post : Sender → Message → Op} {connect : Chan → Building → Building}
variable {task : Chan → List Op} {keep : List (List Chan) → Chan → List (List Chan)}

def chainOps (flavour : Chan → Sender) (post : Sender → Message → Op) (task : Chan → List Op)
    (l i n : ℕ) : List Op :=
  (List.range' i n).flatMap fun j => task (.lane l (j + 1)) ++
    [post (flavour (.lane l j)) (.addSender (flavour (.lane l (j + 1))))]

theorem foldl_element (hconnect : ∀ c b, connect c b =
      { b with ops := b.ops ++ task c, recvs := keep b.recvs c }) (l i n : ℕ) (b : Building)
    (hb : b.prev = some (flavour (.lane l i))) :
    (List.range' (i + 1) n).foldl (element flavour post connect l) b =
      { b with
        ops := b.ops ++ chainOps flavour post task l i n
        prev := some (flavour (.lane l (i + n)))
        recvs := ((List.range' (i + 1) n).map (.lane l)).foldl keep b.recvs } := by
  induction n generalizing i b with
  | zero => simp [chainOps, ← hb]
  | succ n ih =>
    have hhead : element flavour post connect l b (i + 1) =
        { b with
          ops := b.ops ++ (task (.lane l (i + 1)) ++
            [post (flavour (.lane l i)) (.addSender (flavour (.lane l (i + 1))))])
          prev := some (flavour (.lane l (i + 1)))
          recvs := keep b.recvs (.lane l (i + 1)) } := by
      simp [element, hconnect, hb]
    rw [List.range'_succ, List.foldl_cons, hhead, ih (i + 1) _ rfl]
    simp [chainOps, List.range'_succ, Nat.add_assoc, Nat.add_comm 1]

def laneOps (flavour : Chan → Sender) (post : Sender → Message → Op) (task : Chan → List Op)
    (k : Params) (l : ℕ) : List Op :=
  task (.lane l 1) ++ chainOps flavour post task l 1 (k.pipelines - 1) ++
    [post (flavour (.lane l k.pipelines)) (.notify (flavour .concentrator) k.messages)]

theorem addLane_eq (hconnect : ∀ c b, connect c b =
      { b with ops := b.ops ++ task c, recvs := keep b.recvs c }) (k : Params) (b : Building) (l : ℕ) :
    addLane flavour post connect k.pipelines k.messages b l =
      { ops := b.ops ++ laneOps flavour post task k l
        heads := b.heads ++ [flavour (.lane l 1)]
        prev := some (flavour (.lane l k.pipelines))
        recvs := (k.laneChans l).foldl keep b.recvs } := by
  obtain ⟨p, hp⟩ : ∃ p, k.pipelines = p + 1 := 
    Nat.exists_eq_succ_of_ne_zero (Nat.ne_of_gt k.pipelines_pos)
  let first : Building :=
    { ops := b.ops ++ task (.lane l 1)
      heads := b.heads ++ [flavour (.lane l 1)]
      prev := some (flavour (.lane l 1))
      recvs := keep b.recvs (.lane l 1) }
  have hhead : element flavour post connect l { b with prev := none } 1 = first := by
    simp [element, hconnect, first]
  have htail := @foldl_element flavour post connect task keep hconnect l 1 p first rfl
  simp only [addLane, Params.laneChans, laneOps, hp, List.range'_succ, List.foldl_cons, hhead, htail,
    List.map_cons, Nat.add_sub_cancel]
  simp [first, Nat.add_comm 1 p]

theorem foldl_addLane (hconnect : ∀ c b, connect c b =
      { b with ops := b.ops ++ task c, recvs := keep b.recvs c }) (k : Params) (b : Building)
    (ls : List ℕ) :
    ∃ prev, ls.foldl (addLane flavour post connect k.pipelines k.messages) b =
      { ops := b.ops ++ ls.flatMap (laneOps flavour post task k)
        heads := b.heads ++ ls.map fun l => flavour (.lane l 1)
        prev := prev
        recvs := (ls.flatMap k.laneChans).foldl keep b.recvs } := by
  induction ls generalizing b with
  | nil => exact ⟨b.prev, by simp⟩
  | cons l ls ih =>
    obtain ⟨prev, h⟩ := ih (addLane flavour post connect k.pipelines k.messages b l)
    rw [addLane_eq hconnect] at h
    exact ⟨prev, by simp [addLane_eq hconnect, h]⟩

theorem mem_laneOps {k : Params} {l : ℕ} {op : Op} (h : op ∈ laneOps flavour post task k l) :
    (∃ c ∈ k.laneChans l, op ∈ task c) ∨ ∃ c msg, op = post (flavour c) msg := by
  have hp := k.pipelines_pos
  simp only [laneOps, chainOps, List.mem_append, List.mem_flatMap, List.mem_range'_1,
    List.mem_singleton] at h
  obtain (h | ⟨j, hj, h | rfl⟩) | rfl := h
  · exact .inl ⟨.lane l 1, by simp [Params.laneChans]; omega, h⟩
  · exact .inl ⟨.lane l (j + 1), by simp [Params.laneChans]; omega, h⟩
  · exact .inr ⟨_, _, rfl⟩
  · exact .inr ⟨_, _, rfl⟩

theorem task_subset_laneOps {k : Params} {l : ℕ} {c : Chan} (hc : c ∈ k.laneChans l) {op : Op}
    (h : op ∈ task c) : op ∈ laneOps flavour post task k l := by
  simp only [Params.laneChans, List.mem_map, List.mem_range'_1] at hc
  obtain ⟨i, ⟨hi, hip⟩, rfl⟩ := hc
  simp only [laneOps, chainOps, List.mem_append, List.mem_flatMap, List.mem_range'_1]
  by_cases h1 : i = 1
  · subst h1
    exact .inl (.inl h)
  · refine .inl (.inr ⟨i - 1, by omega, .inl ?_⟩)
    rwa [Nat.sub_add_cancel hi]

theorem opSends_laneOps (hpost : ∀ c msg, (post (flavour c) msg).sends = [(c, msg)])
    (htask : ∀ c, opSends (task c) = []) (k : Params) (l : ℕ) :
    opSends (laneOps flavour post task k l) =
      (k.laneChans l).map fun c => (c, config flavour k c) := by
  obtain ⟨p, hp⟩ : ∃ p, k.pipelines = p + 1 :=
    Nat.exists_eq_succ_of_ne_zero (Nat.ne_of_gt k.pipelines_pos)
  have hchain : ∀ js : List ℕ, (∀ j ∈ js, j < k.pipelines) →
      opSends (js.flatMap fun j => task (.lane l (j + 1)) ++
        [post (flavour (.lane l j)) (.addSender (flavour (.lane l (j + 1))))]) =
      js.map fun j => (.lane l j, config flavour k (.lane l j)) := by
    intro js hjs
    induction js with
    | nil => rfl
    | cons j js ih =>
      have hj := hjs j List.mem_cons_self
      simp [htask, hpost, config, hj, ih fun j' h' => hjs j' (List.mem_cons_of_mem _ h')]
  have hinner := hchain (List.range' 1 p) (by
    intro j hj
    rw [List.mem_range'_1] at hj
    omega)
  rw [laneOps, chainOps, hp, Nat.add_sub_cancel, opSends_append, opSends_append, hinner, htask]
  simp [Params.laneChans, hp, List.range'_concat, hpost, config, Nat.add_comm 1 p]

theorem opSends_lanes (hpost : ∀ c msg, (post (flavour c) msg).sends = [(c, msg)])
    (htask : ∀ c, opSends (task c) = []) (k : Params) (ls : List ℕ) :
    opSends (ls.flatMap (laneOps flavour post task k)) =
      (ls.flatMap k.laneChans).map fun c => (c, config flavour k c) := by
  induction ls with
  | nil => rfl
  | cons l ls ih => simp [ih, opSends_laneOps hpost htask]

end Building

def Posts (flavour : Chan → Sender) (post : Sender → Message → Op)
    (mode : Sending Chan Unit → Op) : Prop :=
  (mode = .block ∨ mode = .detach) ∧ ∀ c msg, post (flavour c) msg = mode (.send c msg (.done ()))

def Ranked (k : Params) (recvs : List Chan) : Prop :=
  ∀ c ∈ recvs, c ∈ k.channels ∧ ∀ c' ∈ recvs, c'.position = c.position

theorem Posts.sends {flavour : Chan → Sender} {post : Sender → Message → Op}
    {mode : Sending Chan Unit → Op} (h : Posts flavour post mode) (c : Chan) (msg : Message) :
    (post (flavour c) msg).sends = [(c, msg)] := by
  rw [h.2]
  rcases h.1 with rfl | rfl
  · rfl
  · rfl

theorem Posts.result {flavour : Chan → Sender} {post : Sender → Message → Op}
    {mode : Sending Chan Unit → Op} (h : Posts flavour post mode) (c : Chan) (msg : Message) :
    (post (flavour c) msg).result = .ok () := by
  rw [h.2]
  rcases h.1 with rfl | rfl
  · rfl
  · rfl

section Programs

variable {flavour : Chan → Sender} {post : Sender → Message → Op} {mode : Sending Chan Unit → Op}
variable {task : Chan → List Op} {launch : List Op} {k : Params}

def setupOps (flavour : Chan → Sender) (post : Sender → Message → Op) (task : Chan → List Op)
    (launch : List Op) (k : Params) : List Op :=
  [.spawn [.concentrator]] ++ (List.range k.lanes).flatMap (laneOps flavour post task k) ++ launch ++
    [post (flavour .concentrator) (.notify (flavour .notifier) k.lanes)]

theorem mem_setupOps {op : Op} (h : op ∈ setupOps flavour post task launch k) :
    op = .spawn [.concentrator] ∨ (∃ c ∈ k.channels, op ∈ task c) ∨ op ∈ launch ∨
      ∃ c msg, op = post (flavour c) msg := by
  simp only [setupOps, List.mem_append, List.mem_singleton, List.mem_flatMap] at h
  obtain ((h | ⟨l, hl, h⟩) | h) | h := h
  · exact .inl h
  · rcases mem_laneOps h with ⟨c, hc, hop⟩ | h
    · refine .inr (.inl ⟨c, ?_, hop⟩)
      simp only [Params.channels, List.mem_append, List.mem_flatMap]
      exact .inl ⟨l, hl, hc⟩
    · exact .inr (.inr (.inr h))
  · exact .inr (.inr (.inl h))
  · exact .inr (.inr (.inr ⟨_, _, h⟩))

theorem setupOps_configures (hpost : Posts flavour post mode)
    (htask : ∀ c ∈ k.channels, ∀ op ∈ task c, ∃ recvs, op = .spawn recvs ∧ Ranked k recvs)
    (hlaunch : ∀ op ∈ launch, ∃ recvs, op = .spawn recvs ∧ Ranked k recvs)
    (hsends : ∀ c, opSends (task c) = [])
    (hserves : ∀ l < k.lanes, ∀ c ∈ k.laneChans l,
      ∃ recvs, c ∈ recvs ∧ (.spawn recvs ∈ task c ∨ .spawn recvs ∈ launch)) :
    Configures flavour k (setupOps flavour post task launch k) := by
  have hcases : ∀ op ∈ setupOps flavour post task launch k,
      (∃ recvs, op = .spawn recvs ∧ Ranked k recvs) ∨ ∃ c msg, op = post (flavour c) msg := by
    intro op hop
    rcases mem_setupOps hop with rfl | ⟨c, hc, h⟩ | h | h
    · exact .inl ⟨_, rfl, by simp [Ranked, k.concentrator_mem]⟩
    · exact .inl (htask c hc op h)
    · exact .inl (hlaunch op h)
    · exact .inr h
  have hmode : ∀ call, (∀ recvs, mode call ≠ .spawn recvs) ∧ ∀ c, mode call ≠ .recv c := by
    intro call
    rcases hpost.1 with rfl | rfl
    · simp
    · simp
  have hsent : opSends launch = [] := by
    unfold opSends
    rw [List.flatMap_eq_nil_iff]
    intro op hop
    obtain ⟨recvs, rfl, -⟩ := hlaunch op hop
    rfl
  constructor
  case sends =>
    simp [setupOps, Params.channels, opSends_lanes hpost.sends hsends, hsent, hpost.sends, config]
  case ends_well =>
    intro op hop
    rcases hcases op hop with ⟨recvs, rfl, -⟩ | ⟨c, msg, rfl⟩
    · rfl
    · exact hpost.result c msg
  case no_recv =>
    intro op hop c
    rcases hcases op hop with ⟨recvs, rfl, -⟩ | ⟨c', msg, rfl⟩
    · simp
    · rw [hpost.2]
      exact (hmode _).2 c
  case serves =>
    intro c hc
    simp only [Params.channels, List.mem_append, List.mem_flatMap, List.mem_singleton,
      List.mem_range] at hc
    rcases hc with ⟨l, hl, hc⟩ | rfl
    · obtain ⟨recvs, hmem, h⟩ := hserves l hl c hc
      refine ⟨recvs, ?_, hmem⟩
      simp only [setupOps, List.mem_append, List.mem_flatMap, List.mem_range]
      rcases h with h | h
      · exact .inl (.inl (.inr ⟨l, hl, task_subset_laneOps hc h⟩))
      · exact .inl (.inr h)
    · exact ⟨[.concentrator], by simp [setupOps], by simp⟩
  case ranks =>
    intro recvs hrecvs
    rcases hcases _ hrecvs with ⟨recvs', he, h⟩ | ⟨c, msg, he⟩
    · cases he
      exact h
    · rw [hpost.2] at he
      exact absurd he.symm ((hmode _).1 recvs)

theorem setupTasks_eq (receiver : Chan → Receiver) :
    setupTasks flavour post receiver k.pipelines k.lanes k.messages =
      (⟨k.messages, (List.range k.lanes).map fun l => flavour (.lane l 1), some (receiver .notifier)⟩,
        setupOps flavour post (fun c => [.spawn [c]]) [] k) := by
  obtain ⟨prev, h⟩ := @foldl_addLane flavour post spawnTask (fun c => [.spawn [c]])
    (fun recvs _ => recvs) (fun _ _ => rfl) k ⟨[.spawn [.concentrator]], [], none, []⟩
    (List.range k.lanes)
  simp [setupTasks, h, setupOps]

theorem setupTasks_configures (hpost : Posts flavour post mode) :
    Configures flavour k (setupOps flavour post (fun c => [.spawn [c]]) [] k) := by
  apply setupOps_configures hpost
  · intro c hc op hop
    exact ⟨[c], by simpa using hop, by simpa [Ranked] using hc⟩
  · simp
  · intro c
    rfl
  · intro l _ c _
    exact ⟨[c], by simp, by simp⟩

end Programs

def keepRecv (recvs : List (List Chan)) (c : Chan) : List (List Chan) :=
  match c with
  | .lane _ id => recvs.modify (id - 1) (· ++ [c])
  | _ => recvs

def Grouped (pipelines : ℕ) (seen : List Chan) (recvs : List (List Chan)) : Prop :=
  recvs.length = pipelines ∧
    ∀ j own, recvs[j]? = some own → ∀ c, c ∈ own ↔ c ∈ seen ∧ c.position = j + 1

theorem Grouped.keepRecv {pipelines : ℕ} {seen : List Chan} {recvs : List (List Chan)}
    (h : Grouped pipelines seen recvs) {l i : ℕ} (hi : 0 < i) :
    Grouped pipelines (seen ++ [.lane l i]) (keepRecv recvs (.lane l i)) := by
  refine ⟨by simpa [Experiment.keepRecv] using h.1, ?_⟩
  intro j own hj c
  simp only [Experiment.keepRecv, List.getElem?_modify] at hj
  obtain ⟨own', hown, he⟩ := Option.map_eq_some_iff.mp hj
  have hseen := h.2 j own' hown c
  split at he
  next hij =>
    subst he
    simp only [List.mem_append, List.mem_singleton, hseen]
    constructor
    · rintro (⟨hc, hp⟩ | rfl)
      · exact ⟨.inl hc, hp⟩
      · exact ⟨.inr rfl, by simp [Chan.position]; omega⟩
    · rintro ⟨hc | rfl, hp⟩
      · exact .inl ⟨hc, hp⟩
      · exact .inr rfl
  next hij =>
    obtain rfl : own' = own := he
    simp only [List.mem_append, List.mem_singleton, hseen]
    constructor
    · rintro ⟨hc, hp⟩
      exact ⟨.inl hc, hp⟩
    · rintro ⟨hc | rfl, hp⟩
      · exact ⟨hc, hp⟩
      · simp only [Chan.position] at hp
        omega

theorem grouped_foldl {pipelines : ℕ} {seen : List Chan} {recvs : List (List Chan)} (cs : List Chan)
    (h : Grouped pipelines seen recvs) (hcs : ∀ c ∈ cs, ∃ l i, c = .lane l i ∧ 0 < i) :
    Grouped pipelines (seen ++ cs) (cs.foldl keepRecv recvs) := by
  induction cs generalizing seen recvs with
  | nil => simpa using h
  | cons c cs ih =>
    obtain ⟨l, i, rfl, hi⟩ := hcs c List.mem_cons_self
    have := ih (h.keepRecv (l := l) hi) fun c hc => hcs c (List.mem_cons_of_mem _ hc)
    simpa using this

section Crossbeam

variable (k : Params)

def threadRecvs : List (List Chan) :=
  ((List.range k.lanes).flatMap k.laneChans).foldl keepRecv (List.replicate k.pipelines [])

theorem threadRecvs_grouped :
    Grouped k.pipelines ((List.range k.lanes).flatMap k.laneChans) (threadRecvs k) := by
  have hstart : Grouped k.pipelines [] (List.replicate k.pipelines ([] : List Chan)) := by
    refine ⟨List.length_replicate, ?_⟩
    intro j own hj c
    have := List.mem_of_getElem? hj
    rw [List.mem_replicate] at this
    simp [this.2]
  have hlanes : ∀ c ∈ (List.range k.lanes).flatMap k.laneChans, ∃ l i, c = .lane l i ∧ 0 < i := by
    intro c hc
    simp only [List.mem_flatMap, Params.laneChans, List.mem_map, List.mem_range'_1] at hc
    obtain ⟨l, -, i, ⟨hi, -⟩, rfl⟩ := hc
    exact ⟨l, i, rfl, hi⟩
  simpa [threadRecvs] using grouped_foldl _ hstart hlanes

theorem crossbeamSetup_eq :
    crossbeamSetup k.pipelines k.lanes k.messages =
      (⟨k.messages, (List.range k.lanes).map fun l => .crossbeamSender (.lane l 1),
        some (.crossbeamReceiver .notifier)⟩,
        setupOps .crossbeamSender (fun sender cmd => .block (sendCmd sender cmd)) (fun _ => [])
          ((threadRecvs k).map .spawn) k) := by
  obtain ⟨prev, h⟩ := @foldl_addLane .crossbeamSender
    (fun sender cmd => .block (sendCmd sender cmd)) pushRecv (fun _ => []) keepRecv
    (by
      intro c b
      cases c with
      | lane l i => simp [pushRecv, keepRecv]
      | concentrator => simp [pushRecv, keepRecv]
      | notifier => simp [pushRecv, keepRecv]) k
    ⟨[.spawn [.concentrator]], [], none, List.replicate k.pipelines []⟩ (List.range k.lanes)
  simp [crossbeamSetup, h, setupOps, threadRecvs]

theorem crossbeamSetup_configures :
    Configures .crossbeamSender k (setupOps .crossbeamSender
      (fun sender cmd => .block (sendCmd sender cmd)) (fun _ => []) ((threadRecvs k).map .spawn) k) := by
  have hgrouped := threadRecvs_grouped k
  have hpost : Posts .crossbeamSender (fun sender cmd => .block (sendCmd sender cmd)) .block :=
    ⟨.inl rfl, fun _ _ => rfl⟩
  apply setupOps_configures hpost
  case htask => simp
  case hsends => intro c; rfl
  case hlaunch =>
    intro op hop
    obtain ⟨own, hown, rfl⟩ := List.mem_map.mp hop
    obtain ⟨j, hj⟩ := List.mem_iff_getElem?.mp hown
    refine ⟨own, rfl, ?_⟩
    intro c hc
    obtain ⟨hmem, hp⟩ := (hgrouped.2 j own hj c).mp hc
    refine ⟨List.mem_append_left _ hmem, ?_⟩
    intro c' hc'
    exact (((hgrouped.2 j own hj c').mp hc').2).trans hp.symm
  case hserves =>
    intro l hl c hc
    have hmem : c ∈ (List.range k.lanes).flatMap k.laneChans := by
      rw [List.mem_flatMap]
      exact ⟨l, List.mem_range.mpr hl, hc⟩
    simp only [Params.laneChans, List.mem_map, List.mem_range'_1] at hc
    obtain ⟨i, ⟨hi, hip⟩, rfl⟩ := hc
    have hlt : i - 1 < (threadRecvs k).length := by
      rw [hgrouped.1]
      omega
    refine ⟨(threadRecvs k)[i - 1], ?_, .inr (List.mem_map_of_mem (List.getElem_mem hlt))⟩
    rw [hgrouped.2 (i - 1) _ (List.getElem?_eq_getElem hlt)]
    exact ⟨hmem, by simp [Chan.position]; omega⟩

end Crossbeam

theorem sendData_eq {send : Send} {flavour : Chan → Sender} (h : Delivers send flavour) (k : Params)
    (receiver : Option Receiver) :
    sendData send ⟨k.messages, (List.range k.lanes).map fun l => flavour (.lane l 1), receiver⟩ =
      .after k.data (.done ()) := by
  have hround : ∀ id, (((List.range k.lanes).map fun l => flavour (.lane l 1)).foldlM
      (fun _ head => send head (.testData id)) () : Sending Chan Unit) =
      .after ((List.range k.lanes).map fun l => (.lane l 1, .testData id)) (.done ()) := by
    intro id
    rw [List.foldlM_map, List.map_eq_flatMap]
    exact Call.foldlM_after (g := fun l => [(.lane l 1, .testData id)]) _ fun l _ => h _ _
  exact Call.foldlM_after _ fun id _ => hround id

/-- What a driver has to be for its forwarders to form the lanes of the experiment. -/
structure Driver.Wires (d : Driver) (k : Params) (send : Send) (flavour : Chan → Sender)
    (mode : Sending Chan Unit → Op) : Prop where
  delivers : Delivers send flavour
  mode_cases : mode = .block ∨ mode = .detach
  receive : ∃ other, d.receive = Forwarder.receiveBy send other
  configures : Configures flavour k (d.setup k.pipelines k.lanes k.messages).2
  awaits : mode = .block → ∀ op ∈ (d.setup k.pipelines k.lanes k.messages).2, ∀ call,
    op ≠ .detach call
  run : d.run (d.setup k.pipelines k.lanes k.messages).1 =
    [mode (.after k.data (.done ())), .recv .notifier]

theorem setupOps_awaits {flavour : Chan → Sender} {post : Sender → Message → Op}
    {task : Chan → List Op} {launch : List Op} {k : Params} (hpost : Posts flavour post .block)
    (htask : ∀ c, ∀ op ∈ task c, ∃ recvs, op = .spawn recvs)
    (hlaunch : ∀ op ∈ launch, ∃ recvs, op = .spawn recvs) :
    ∀ op ∈ setupOps flavour post task launch k, ∀ call, op ≠ .detach call := by
  intro op hop call he
  rcases mem_setupOps hop with h | ⟨c, -, h⟩ | h | ⟨c, msg, h⟩
  · simp [h] at he
  · obtain ⟨recvs, h⟩ := htask c op h
    simp [h] at he
  · obtain ⟨recvs, h⟩ := hlaunch op h
    simp [h] at he
  · rw [h, hpost.2] at he
    simp at he

theorem wires_tasks {d : Driver} {k : Params} {send : Send} {flavour : Chan → Sender}
    {mode : Sending Chan Unit → Op} {post : Sender → Message → Op} {receiver : Chan → Receiver}
    {wait : Receiver → List Op} (hdelivers : Delivers send flavour) (hpost : Posts flavour post mode)
    (hreceive : ∃ other, d.receive = Forwarder.receiveBy send other)
    (hsetup : d.setup = setupTasks flavour post receiver) (hrun : d.run = runWith send mode wait)
    (hwait : wait (receiver .notifier) = [.recv .notifier]) : d.Wires k send flavour mode where
  delivers := hdelivers
  mode_cases := hpost.1
  receive := hreceive
  configures := by
    rw [hsetup, setupTasks_eq]
    exact setupTasks_configures hpost
  awaits := by
    rintro rfl
    rw [hsetup, setupTasks_eq]
    exact setupOps_awaits hpost (by simp) (by simp)
  run := by
    rw [hsetup, setupTasks_eq, hrun, runWith, sendData_eq hdelivers]
    simp [hwait]

theorem wires_tokio (k : Params) : tokioDriver.Wires k sendCmdAsync .tokioSender .detach :=
  wires_tasks sendCmdAsync_tokio ⟨.inr rfl, fun _ _ => rfl⟩ ⟨_, rfl⟩ rfl rfl rfl

theorem wires_crossbeam (k : Params) : crossbeamDriver.Wires k sendCmd .crossbeamSender .block where
  delivers := sendCmd_crossbeam
  mode_cases := .inl rfl
  receive := ⟨_, rfl⟩
  configures := by
    change Configures _ k (crossbeamSetup k.pipelines k.lanes k.messages).2
    rw [crossbeamSetup_eq]
    exact crossbeamSetup_configures k
  awaits := by
    intro _
    change ∀ op ∈ (crossbeamSetup k.pipelines k.lanes k.messages).2, ∀ call, op ≠ .detach call
    rw [crossbeamSetup_eq]
    exact setupOps_awaits ⟨.inl rfl, fun _ _ => rfl⟩ (by simp) (by simp)
  run := by
    change crossbeamDriver.run (crossbeamSetup k.pipelines k.lanes k.messages).1 = _
    rw [crossbeamSetup_eq]
    simp [crossbeamDriver, runWith, sendData_eq sendCmd_crossbeam]

theorem wires_awaiting {d : Driver} (hd : d ∈ awaitingDrivers) (k : Params) :
    ∃ send flavour, d.Wires k send flavour .block := by
  simp only [awaitingDrivers, List.mem_cons, List.not_mem_nil, or_false] at hd
  rcases hd with rfl | rfl | rfl | rfl | rfl | rfl
  · exact ⟨_, _, wires_tasks sendCmdAsync_flume ⟨.inl rfl, fun _ _ => rfl⟩ ⟨_, rfl⟩ rfl rfl rfl⟩
  · exact ⟨_, _, wires_tasks sendCmdAsync_flume ⟨.inl rfl, fun _ _ => rfl⟩ ⟨_, rfl⟩ rfl rfl rfl⟩
  · exact ⟨_, _, wires_tasks sendCmdAsync_smol ⟨.inl rfl, fun _ _ => rfl⟩ ⟨_, rfl⟩ rfl rfl rfl⟩
  · exact ⟨_, _, wires_tasks sendCmdAsync_asyncCrossbeam ⟨.inl rfl, fun _ _ => rfl⟩ ⟨_, rfl⟩ rfl rfl rfl⟩
  · exact ⟨_, _, wires_crossbeam k⟩
  · exact ⟨_, _, wires_tasks sendCmd_d3 ⟨.inl rfl, fun _ _ => rfl⟩ ⟨_, rfl⟩ rfl rfl rfl⟩

end ChannelExecutor.Experiment
