import ChannelExecutor.SenderHandles

set_option autoImplicit false

namespace ChannelExecutor.Experiment

open Lib (Call Net System)

inductive Life.Does (o : TrackedDriver) (k : Params) (eager : Bool) (s : Life) : Event → Life → Prop
  | spawn {recvs : List Chan} {rest : List Stmt} (h : s.prog = .op (.spawn recvs) :: rest) :
      Does o k eager s .main { s with prog := rest, threads := s.threads ++ [recvs] }
  | sent {rest : List Stmt} (h : s.prog = .op (.block (.done ())) :: rest) :
      Does o k eager s .main { s with prog := rest }
  | send {c : Chan} {msg : Message} {call : Sending Chan Unit} {rest : List Stmt}
      (h : s.prog = .op (.block (.send c msg call)) :: rest)
      (hroom : (s.net.queue c).length < k.capacity c) :
      Does o k eager s .main { s with net := s.net.push c msg, prog := .op (.block call) :: rest }
  | refuse {c : Chan} {msg : Message} {call : Sending Chan Unit} {rest : List Stmt}
      (h : s.prog = .op (.block (.send c msg call)) :: rest) (hc : c ∈ s.closed) :
      Does o k eager s .main { s with prog := .op (.block call) :: rest }
  | recv {c : Chan} {rest : List Stmt} {net : Net Chan Message (Panic Chan) (Forwarder Chan)}
      (h : s.prog = .op (.recv c) :: rest) (hn : s.net.take c = some net) :
      Does o k eager s .main { s with net := net, prog := rest }
  | create {x : Sender} {rest : List Stmt} (h : s.prog = .create x :: rest) :
      Does o k eager s .main { s with prog := rest, locals := x :: s.locals }
  | keep {x : Sender} {rest : List Stmt} (h : s.prog = .keep x :: rest) :
      Does o k eager s .main { s with prog := rest, heads := s.heads ++ [x] }
  | pass {x : Sender} {rest : List Stmt} (h : s.prog = .leave x :: rest) :
      Does o k eager s .main { s with prog := rest, locals := s.locals.erase x }
  | clear {x : Sender} {heads : List Sender} {rest : List Stmt} (h : s.prog = .clear :: rest)
      (hh : s.heads = x :: heads) : Does o k eager s .main { s with heads := heads }
  | cleared {rest : List Stmt} (h : s.prog = .clear :: rest) (hh : s.heads = []) :
      Does o k eager s .main { s with prog := rest }
  | shut {c : Chan} {rest : List Stmt} (h : s.prog = .close c :: rest) :
      Does o k eager s .main { s with prog := rest, closed := c :: s.closed }
  | run (h : s.prog = []) (ht : s.torn = false) :
      Does o k eager s .run { s with
        prog := (o.driver.run (o.driver.setup k.pipelines k.lanes k.messages).1).map .op
        runs := s.runs + 1 }
  | teardown (h : s.prog = []) (ht : s.torn = false) :
      Does o k eager s .teardown { s with prog := [.clear, .close .notifier], torn := true }
  | receive {thread index : ℕ} {t : State} (hl : thread ∉ s.left)
      (h : stepReceive o.driver s.state thread index = some t) :
      Does o k eager s (.receive thread index) { s with net := t.net }
  | advance {c : Chan} {net : Net Chan Message (Panic Chan) (Forwarder Chan)}
      (h : s.net.advance k.capacity c = some net) : Does o k eager s (.advance c) { s with net := net }
  | lose {c dst : Chan} {msg : Message} {call : Sending Chan (Forwarder Chan)}
      (h : s.net.call c = some (.send dst msg call)) (hc : dst ∈ s.closed) :
      Does o k eager s (.advance c) { s with
        net := { s.net with call := Function.update s.net.call c (some call) } }
  | leave {thread index : ℕ} {recvs : List Chan} {c : Chan} (ht : s.threads[thread]? = some recvs)
      (hl : thread ∉ s.left) (hidle : ∀ c' ∈ recvs, s.net.call c' = none)
      (hc : recvs[index]? = some c) (hq : s.net.queue c = []) (hh : s.holders k c = []) :
      Does o k eager s (.leave thread index) { s with left := thread :: s.left }
  | close {c : Chan} (h : s.Ended c) (hc : c ∉ s.closed) :
      Does o k eager s (.close c) { s with closed := c :: s.closed }
  | drop {c : Chan} (h : s.Ended c) (hc : c ∉ s.dropped) :
      Does o k eager s (.drop c) { s with dropped := c :: s.dropped }
  | free {c : Chan} (h : c ∈ s.closed) (hc : c ∉ s.freed) (hh : eager = true ∨ s.holders k c = []) :
      Does o k eager s (.free c) { s with freed := c :: s.freed }

section Steps

variable {o : TrackedDriver} {k : Params} {eager : Bool} {s t : Life} {e : Event}

@[simp] theorem Life.state_net (s : Life) : s.state.net = s.net := rfl

@[simp] theorem Life.state_main (s : Life) : s.state.main = opsOf s.prog := rfl

theorem refused_cases {β : Type} {call call' : Sending Chan β} (h : s.refused call = some call') :
    ∃ c msg, call = .send c msg call' ∧ c ∈ s.closed := by
  unfold Life.refused at h
  split at h
  next c msg rest =>
    split at h
    next hc =>
      obtain rfl : rest = call' := by simpa using h
      exact ⟨c, msg, rfl, hc⟩
    next => cases h
  next => cases h

theorem stepOp_does {op : Op} {rest : List Stmt} (h : s.prog = .op op :: rest)
    (hop : ∀ call, op ≠ .detach call) (ht : stepOp k s op rest = some t) : s.Does o k eager .main t := by
  obtain ⟨u, hu, rfl⟩ := Option.map_eq_some_iff.mp ht
  have hdoes := stepMain_does (d := o.driver) hu
  cases hdoes with
  | spawn hm =>
    obtain ⟨rfl, rfl⟩ := List.cons.inj hm
    exact .spawn h
  | sent hm =>
    obtain ⟨rfl, rfl⟩ := List.cons.inj hm
    exact .sent h
  | send hm hroom =>
    obtain ⟨rfl, rfl⟩ := List.cons.inj hm
    exact .send h hroom
  | @detach call ops hm => exact absurd (List.cons.inj hm).1 (hop call)
  | recv hm hn =>
    obtain ⟨rfl, rfl⟩ := List.cons.inj hm
    exact .recv h hn

theorem stepStmt_does (h : stepStmt k s = some t) : s.Does o k eager .main t := by
  unfold stepStmt at h
  split at h
  next => cases h
  next => cases h
  next hp =>
    split at h
    next call' hr =>
      obtain ⟨c, msg, rfl, hc⟩ := refused_cases hr
      cases h
      exact .refuse hp hc
    next => exact stepOp_does hp (by simp) h
  next hdetach _ hp => exact stepOp_does hp (fun call he => hdetach call (by rw [he])) h
  next hp =>
    cases h
    exact .create hp
  next hp =>
    cases h
    exact .keep hp
  next hp =>
    cases h
    exact .pass hp
  next hp =>
    split at h
    next hh =>
      cases h
      exact .cleared hp hh
    next hh =>
      cases h
      exact .clear hp hh
  next hp =>
    cases h
    exact .shut hp

theorem stepAdvance_does {c : Chan} (h : stepAdvance k s c = some t) :
    s.Does o k eager (.advance c) t := by
  unfold stepAdvance at h
  split at h
  next call' hr =>
    obtain ⟨call, hcall, hr⟩ := Option.bind_eq_some_iff.mp hr
    obtain ⟨dst, msg, rfl, hc⟩ := refused_cases hr
    cases h
    exact .lose hcall hc
  next =>
    obtain ⟨net, hn, rfl⟩ := Option.map_eq_some_iff.mp h
    exact .advance hn

theorem stepLeave_does {thread index : ℕ} (h : stepLeave k s thread index = some t) :
    s.Does o k eager (.leave thread index) t := by
  unfold stepLeave at h
  split at h
  next recvs ht =>
    split at h
    next hidle =>
      split at h
      next c hc =>
        split at h
        next hq =>
          cases h
          exact .leave ht hidle.1 (by simpa using hidle.2) hc hq.1 hq.2
        next => cases h
      next => cases h
    next => cases h
  next => cases h

theorem stepLife_does (h : stepLife o k eager s e = some t) : s.Does o k eager e t := by
  cases e with
  | main => exact stepStmt_does h
  | run =>
    simp only [stepLife] at h
    split at h
    next hp =>
      cases h
      exact .run hp.1 hp.2
    next => cases h
  | teardown =>
    simp only [stepLife] at h
    split at h
    next hp =>
      cases h
      exact .teardown hp.1 hp.2
    next => cases h
  | receive thread index =>
    simp only [stepLife] at h
    split at h
    next => cases h
    next hl =>
      obtain ⟨u, hu, rfl⟩ := Option.map_eq_some_iff.mp h
      exact .receive hl hu
  | advance c => exact stepAdvance_does h
  | leave thread index => exact stepLeave_does h
  | close c =>
    simp only [stepLife] at h
    split at h
    next hc =>
      cases h
      exact .close hc.1 hc.2
    next => cases h
  | drop c =>
    simp only [stepLife] at h
    split at h
    next hc =>
      cases h
      exact .drop hc.1 hc.2
    next => cases h
  | free c =>
    simp only [stepLife] at h
    split at h
    next hc =>
      cases h
      exact .free hc.1 hc.2.1 hc.2.2
    next => cases h

structure Life.Open (s : Life) : Prop where
  main : ∀ c msg call rest, s.prog = .op (.block (.send c msg call)) :: rest → c ∉ s.closed
  call : ∀ c dst msg call, s.net.call c = some (.send dst msg call) → dst ∉ s.closed

@[simp] theorem opsOf_nil : opsOf [] = [] := rfl

@[simp] theorem opsOf_op (op : Op) (rest : List Stmt) : opsOf (.op op :: rest) = op :: opsOf rest := rfl

theorem opsOf_skip {x : Stmt} (h : x.op? = none) (rest : List Stmt) :
    opsOf (x :: rest) = opsOf rest := by
  simp [opsOf, h]

@[simp] theorem opsOf_map (ops : List Op) : opsOf (ops.map .op) = ops := by
  induction ops with
  | nil => rfl
  | cons op ops ih => rw [List.map_cons, opsOf_op, ih]

theorem opsOf_append (prog prog' : List Stmt) : opsOf (prog ++ prog') = opsOf prog ++ opsOf prog' :=
  List.filterMap_append

theorem stepReceive_state (k : Params) {d : Driver} {u v : State} {thread index : ℕ}
    (h : stepReceive d u thread index = some v) : v = { u with net := v.net } := by
  cases stepReceive_does (k := k) h with
  | accept => rfl

theorem step_receive {thread index : ℕ} {u : State}
    (h : stepReceive o.driver s.state thread index = some u) :
    step o.driver k s.state (.receive thread index) = some (Life.state { s with net := u.net }) := by
  simp only [step]
  rw [h, stepReceive_state k h]
  rfl

theorem step_advance {c : Chan} {net : Net Chan Message (Panic Chan) (Forwarder Chan)}
    (h : s.net.advance k.capacity c = some net) :
    step o.driver k s.state (.advance c) = some (Life.state { s with net := net }) := by
  simp [step, Life.state, h]

theorem Life.Does.state (h : s.Does o k eager e t) (hopen : s.Open) :
    t.state = s.state ∨ ∃ a, (a = .run → e = .run) ∧ step o.driver k s.state a = some t.state := by
  cases h with
  | spawn h => exact .inr ⟨.main, by simp, by simp [step, stepMain, state, h]⟩
  | sent h => exact .inr ⟨.main, by simp, by simp [step, stepMain, state, h]⟩
  | send h hroom =>
    exact .inr ⟨.main, by simp, by simp [step, stepMain, state, h, Net.deliver, hroom]⟩
  | refuse h hc => exact absurd hc (hopen.main _ _ _ _ h)
  | recv h hn => exact .inr ⟨.main, by simp, by simp [step, stepMain, state, h, hn]⟩
  | create h => exact .inl (by rw [state, state, h, opsOf_skip rfl])
  | keep h => exact .inl (by rw [state, state, h, opsOf_skip rfl])
  | pass h => exact .inl (by rw [state, state, h, opsOf_skip rfl])
  | clear h hh => exact .inl rfl
  | cleared h hh => exact .inl (by rw [state, state, h, opsOf_skip rfl])
  | shut h => exact .inl (by rw [state, state, h, opsOf_skip rfl])
  | run h ht => exact .inr ⟨.run, fun _ => rfl, by simp [step, state, h]⟩
  | teardown h ht => exact .inl (by rw [state, state, h, opsOf_skip rfl, opsOf_skip rfl])
  | receive hl h => exact .inr ⟨_, by simp, step_receive h⟩
  | advance h => exact .inr ⟨_, by simp, step_advance h⟩
  | lose h hc => exact absurd hc (hopen.call _ _ _ _ h)
  | leave => exact .inl rfl
  | close => exact .inl rfl
  | drop => exact .inl rfl
  | free => exact .inl rfl

theorem Life.Does.reachable (h : s.Does o k eager e t) (hopen : s.Open)
    (hs : (system o.driver k).Reachable s.state) : (system o.driver k).Reachable t.state := by
  rcases h.state hopen with he | ⟨a, -, ha⟩
  · rwa [he]
  · exact hs.tail ⟨a, trivial, ha⟩

end Steps

end ChannelExecutor.Experiment
