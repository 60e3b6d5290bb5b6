import ChannelExecutor.ForwarderSteps
import ChannelExecutor.DriverPrograms

/-!
`setup` of the crossbeam driver with the vectors it goes through: channels in the order they are
made, a row of receivers and a row of forwarders for each position, and the threads that take the
rows off again.
-/

set_option autoImplicit false

namespace ChannelExecutor.Experiment.CrossbeamWiring

open Lib (Call)

structure Element where
  -- the lane whose loop made the forwarder
  lane : ℕ
  forwarder : Forwarder ℕ
  deriving DecidableEq, Repr

/-- A channel is known by how many were made before it. -/
structure Wiring where
  channels : ℕ
  sent : List (ℕ × TestMessage ℕ)
  heads : List (TestMessageSender ℕ)
  prev : Option (TestMessageSender ℕ)
  recvs : List (List ℕ)
  forwarders : List (List Element)
  -- what the closure of each thread has moved in
  threads : List (List ℕ × List Element)
  notifier : Option (TestMessageReceiver ℕ)
  deriving DecidableEq, Repr

def post (sender : TestMessageSender ℕ) (cmd : TestMessage ℕ) (w : Wiring) : Option Wiring :=
  match (sendCmd sender cmd).result with
  | .ok () => some { w with sent := w.sent ++ (sendCmd sender cmd).sends }
  | .error _ => none

/-- `rows[id].push(a)`, which panics when there is no such row. -/
def pushAt {α : Type} (rows : List (List α)) (id : ℕ) (a : α) : Option (List (List α)) :=
  rows[id]?.map fun row => rows.set id (row ++ [a])

def addElement (lane : ℕ) (w : Wiring) (id : ℕ) : Option Wiring :=
  let s := TestMessageSender.crossbeamSender w.channels
  (pushAt w.recvs id w.channels).bind fun recvs =>
    (pushAt w.forwarders id ⟨lane, .new (id + 1)⟩).bind fun forwarders =>
      let w' := { w with
        channels := w.channels + 1, recvs := recvs, forwarders := forwarders, prev := some s }
      match w.prev with
      | some sender => post sender (.addSender s) w'
      | none => some { w' with heads := w'.heads ++ [s] }

def addLane (pipelines messages : ℕ) (w : Wiring) (lane : ℕ) : Option Wiring :=
  ((List.range pipelines).foldlM (addElement lane) { w with prev := none }).bind fun w =>
    -- `prev.unwrap()`
    w.prev.bind fun sender => post sender (.notify (.crossbeamSender 0) messages) w

def launch (w : Wiring) (_ : ℕ) : Option Wiring :=
  match w.recvs, w.forwarders with
  | recv :: recvs, forwarder :: forwarders =>
    some { w with
      recvs := recvs, forwarders := forwarders, threads := w.threads ++ [(recv, forwarder)] }
  | _, _ => none

def begin (pipelines : ℕ) : Wiring :=
  ⟨1, [], [], none, List.replicate pipelines [], List.replicate pipelines [],
    [([0], [⟨0, .new 0⟩])], none⟩

def setup (pipelines lanes messages : ℕ) : Option Wiring :=
  ((List.range lanes).foldlM (addLane pipelines messages) (begin pipelines)).bind fun w =>
    ((List.range pipelines).foldlM launch w).bind fun w =>
      (post (.crossbeamSender 0) (.notify (.crossbeamSender w.channels) lanes) w).map fun w' =>
        { w' with channels := w.channels + 1, notifier := some (.crossbeamReceiver w.channels) }

section Loops

theorem foldlM_range {β : Type} {f : β → ℕ → Option β} (s : ℕ → β) {n : ℕ}
    (h : ∀ i < n, f (s i) i = some (s (i + 1))) : (List.range n).foldlM f (s 0) = some (s n) := by
  induction n with
  | zero => rfl
  | succ n ih =>
    rw [List.range_succ, List.foldlM_append, ih fun i hi => h i (Nat.lt_succ_of_lt hi)]
    simpa using h n (Nat.lt_succ_self n)

def rows {α : Type} (pipelines l i : ℕ) (g : ℕ → ℕ → α) : List (List α) :=
  (List.range pipelines).map fun id =>
    (List.range (if id < i then l + 1 else l)).map fun lane => g lane id

variable {α : Type} {pipelines l i : ℕ} {g : ℕ → ℕ → α}

theorem rows_zero : rows pipelines 0 0 g = List.replicate pipelines [] := by
  simp [rows, List.map_const']

theorem rows_full : rows pipelines l pipelines g = rows pipelines (l + 1) 0 g := by
  apply List.map_congr_left
  intro id hid
  rw [if_pos (List.mem_range.mp hid), if_neg (Nat.not_lt_zero id)]

theorem pushAt_rows (hi : i < pipelines) :
    pushAt (rows pipelines l i g) i (g l i) = some (rows pipelines l (i + 1) g) := by
  have hget : (rows pipelines l i g)[i]? = some ((List.range l).map fun lane => g lane i) := by
    simp [rows, hi]
  rw [pushAt, hget, Option.map_some]
  congr 1
  apply List.ext_getElem?
  intro j
  rw [List.getElem?_set]
  by_cases hj : i = j
  · subst hj
    simp [rows, hi, List.range_succ]
  · have hlt : (if j < i + 1 then l + 1 else l) = if j < i then l + 1 else l :=
      if_congr (by omega) rfl rfl
    rw [if_neg hj]
    simp only [rows, List.getElem?_map]
    rcases Nat.lt_or_ge j pipelines with hp | hp
    · simp only [List.getElem?_range hp, Option.map_some, hlt]
    · simp [hp]

end Loops

def chan (pipelines l i : ℕ) : ℕ := l * pipelines + i

def laneSends (pipelines l i : ℕ) : List (ℕ × TestMessage ℕ) :=
  (List.range' 1 (i - 1)).map fun j =>
    (chan pipelines l j, .addSender (.crossbeamSender (chan pipelines l (j + 1))))

def lanesSends (pipelines messages l : ℕ) : List (ℕ × TestMessage ℕ) :=
  (List.range l).flatMap fun l => laneSends pipelines l pipelines ++
    [(chan pipelines l pipelines, .notify (.crossbeamSender 0) messages)]

def during (pipelines messages l i : ℕ) : Wiring where
  channels := chan pipelines l (i + 1)
  sent := lanesSends pipelines messages l ++ laneSends pipelines l i
  heads := (List.range (if i = 0 then l else l + 1)).map fun l => .crossbeamSender (chan pipelines l 1)
  prev := if i = 0 then none else some (.crossbeamSender (chan pipelines l i))
  recvs := rows pipelines l i fun l id => chan pipelines l (id + 1)
  forwarders := rows pipelines l i fun l id => ⟨l, .new (id + 1)⟩
  threads := [([0], [⟨0, .new 0⟩])]
  notifier := none

section Setup

variable {pipelines messages l i : ℕ}

theorem post_crossbeam (c : ℕ) (cmd : TestMessage ℕ) (w : Wiring) :
    post (.crossbeamSender c) cmd w = some { w with sent := w.sent ++ [(c, cmd)] } := rfl

theorem laneSends_succ (hi : i ≠ 0) : laneSends pipelines l (i + 1) = laneSends pipelines l i ++
    [(chan pipelines l i, .addSender (.crossbeamSender (chan pipelines l (i + 1))))] := by
  obtain ⟨j, rfl⟩ := Nat.exists_eq_succ_of_ne_zero hi
  simp [laneSends, List.range'_1_concat, Nat.add_comm 1 j]

theorem addElement_during (hi : i < pipelines) :
    addElement l (during pipelines messages l i) i = some (during pipelines messages l (i + 1)) := by
  have hrecvs := pushAt_rows (l := l) (g := fun l id => chan pipelines l (id + 1)) hi
  have hforwarders := pushAt_rows (l := l) (g := fun l id => (⟨l, .new (id + 1)⟩ : Element)) hi
  simp only [addElement, during, hrecvs, hforwarders, Option.bind_some]
  by_cases h0 : i = 0
  · subst h0
    simp [laneSends, chan, List.range_succ]
  · rw [if_neg h0]
    simp only [post_crossbeam, laneSends_succ h0, if_neg h0, if_neg (Nat.succ_ne_zero i),
      List.append_assoc]
    rfl

def afterLane (pipelines messages l : ℕ) : Wiring :=
  { during pipelines messages l 0 with
    prev := if l = 0 then none else some (.crossbeamSender (chan pipelines (l - 1) pipelines)) }

theorem addLane_afterLane (hp : 0 < pipelines) : addLane pipelines messages
    (afterLane pipelines messages l) l = some (afterLane pipelines messages (l + 1)) := by
  have hloop := foldlM_range (during pipelines messages l)
    fun i hi => @addElement_during pipelines messages l i hi
  have hstart : { afterLane pipelines messages l with prev := none } =
      during pipelines messages l 0 := rfl
  have hne : pipelines ≠ 0 := Nat.pos_iff_ne_zero.mp hp
  have hchan : chan pipelines l (pipelines + 1) = chan pipelines (l + 1) 1 := by
    simp only [chan, Nat.succ_mul]
    omega
  rw [addLane, hstart, hloop, Option.bind_some]
  simp only [during, if_neg hne, Option.bind_some, post_crossbeam, afterLane, rows_full, hchan]
  simp [lanesSends, laneSends, List.range_succ]

theorem begin_eq : begin pipelines = afterLane pipelines messages 0 := by
  simp [begin, afterLane, during, rows_zero, lanesSends, laneSends, chan]

theorem foldlM_launch (w : Wiring) {n : ℕ} (hr : w.recvs.length = n) (hf : w.forwarders.length = n) :
    (List.range n).foldlM launch w = some { w with
      recvs := [], forwarders := [], threads := w.threads ++ w.recvs.zip w.forwarders } := by
  have hlaunch := foldlM_range (f := launch) (n := n) (fun j => { w with
    recvs := w.recvs.drop j
    forwarders := w.forwarders.drop j
    threads := w.threads ++ (w.recvs.zip w.forwarders).take j }) ?_
  · simpa [List.drop_eq_nil_of_le, hr, hf, List.take_of_length_le] using hlaunch
  · intro j hj
    have hjr : j < w.recvs.length := hr ▸ hj
    have hjf : j < w.forwarders.length := hf ▸ hj
    rw [launch, List.drop_eq_getElem_cons hjr, List.drop_eq_getElem_cons hjf]
    have htake : (w.recvs.zip w.forwarders).take (j + 1) =
        (w.recvs.zip w.forwarders).take j ++ [(w.recvs[j], w.forwarders[j])] := by
      rw [List.take_add_one, List.getElem?_eq_getElem (by simp; omega)]
      simp
    simp [htake]

def wired (pipelines lanes messages : ℕ) : Wiring where
  channels := chan pipelines lanes 1 + 1
  sent := lanesSends pipelines messages lanes ++
    [(0, .notify (.crossbeamSender (chan pipelines lanes 1)) lanes)]
  heads := (List.range lanes).map fun l => .crossbeamSender (chan pipelines l 1)
  prev := (afterLane pipelines messages lanes).prev
  recvs := []
  forwarders := []
  threads := ([0], [⟨0, .new 0⟩]) :: (List.range pipelines).map fun id =>
    ((List.range lanes).map fun l => chan pipelines l (id + 1),
      (List.range lanes).map fun l => ⟨l, .new (id + 1)⟩)
  notifier := some (.crossbeamReceiver (chan pipelines lanes 1))

theorem setup_eq (hp : 0 < pipelines) (lanes : ℕ) :
    setup pipelines lanes messages = some (wired pipelines lanes messages) := by
  have hlanes := foldlM_range (n := lanes) (afterLane pipelines messages)
    fun l _ => addLane_afterLane hp
  have hlaunch := foldlM_launch (afterLane pipelines messages lanes) (n := pipelines)
    (by simp [afterLane, during, rows]) (by simp [afterLane, during, rows])
  rw [setup, begin_eq, hlanes, Option.bind_some, hlaunch, Option.bind_some]
  simp only [post_crossbeam, Option.map_some, wired]
  congr 1
  simp [afterLane, during, rows, laneSends, List.zip_map']

end Setup

end ChannelExecutor.Experiment.CrossbeamWiring
