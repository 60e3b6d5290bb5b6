import ChannelExecutor.Lib.Amortized
import ChannelExecutor.NoPanic
import ChannelExecutor.SenderHandles

/-!
`futures_driver.rs`. A send to a `FuturesSender` drops its message, and a receive loop is over when it
finds its channel empty, so that nothing is ever received and `run` finds the notifier closed.
-/

set_option autoImplicit false

namespace ChannelExecutor.Experiment.Futures

open Lib (Call Net System)

/-- What `try_next` gives: `Ok(Some(cmd))`, `Ok(None)` or `Err(TryRecvError)`. -/
inductive TryNext
  | message (msg : Message)
  | closed
  | empty
  deriving DecidableEq, Repr

inductive Job
  -- `spawn_ok` of a receive loop
  | spawn (chan : Chan)
  -- `let (s, r) = mpsc::channel(..)`
  | create (sender : Sender)
  -- `self.heads.push(s.clone())`
  | keep (sender : Sender)
  -- `spawn_ok` of a send, with the handles that are moved and cloned into it
  | detach (call : Sending Chan Unit) (moved cloned : List Sender)
  -- `block_on`, with the handles that are moved into it
  | block (call : Sending Chan Unit) (moved : List Sender)
  | tryNext (chan : Chan)
  deriving DecidableEq, Repr

section Setup

def handle (c : Chan) : Sender := .futuresSender c

def element (l : ℕ) (b : List Job × Option Sender) (id : ℕ) : List Job × Option Sender :=
  let s := handle (.lane l id)
  let jobs := b.1 ++ [.create s, .spawn (.lane l id)]
  match b.2 with
  | some sender => (jobs ++ [.detach (sendCmdAsync sender (.addSender s)) [sender] [s]], some s)
  | none => (jobs ++ [.keep s], some s)

def lane (pipelines messages l : ℕ) : List Job :=
  let b := (List.range' 1 pipelines).foldl (element l) ([], none)
  match b.2 with
  | some sender =>
    b.1 ++ [.detach (sendCmdAsync sender (.notify (handle .concentrator) messages)) [sender]
      [handle .concentrator]]
  -- `prev` is unwrapped inside the task
  | none => b.1 ++ [.detach (.panic .unwrapNone) [] [handle .concentrator]]

def setup (pipelines lanes messages : ℕ) : List Job :=
  [.create (handle .concentrator), .spawn .concentrator] ++
    (List.range lanes).flatMap (lane pipelines messages) ++
    [.create (handle .notifier),
      .block (sendCmdAsync (handle .concentrator) (.notify (handle .notifier) lanes))
        [handle .concentrator, handle .notifier]]

def run (messages : ℕ) (heads : List Sender) : List Job :=
  [.block (sendData sendCmdAsync ⟨messages, heads, none⟩) [], .tryNext .notifier]

end Setup

structure Server where
  net : Net Chan Message (Panic Chan) (Forwarder Chan)
  prog : List Job
  -- the sends of detached tasks, with the handles they hold
  tasks : List (Sending Chan Unit × List Sender)
  -- the channels of the loops that are not over
  loops : List Chan
  locals : List Sender
  heads : List Sender
  printed : List TryNext
  runs : ℕ

def Server.handles (k : Params) (s : Server) : List Sender :=
  s.locals ++ s.heads ++ s.tasks.flatMap Prod.snd ++
    k.sites.flatMap fun c => (s.net.queue c).flatMap TestMessage.handles ++ (s.net.proc c).handles

inductive Event
  | main
  | run
  | task (j : ℕ)
  -- a loop calls `try_next`
  | poll (j : ℕ)
  | advance (chan : Chan)
  deriving DecidableEq, Repr

section Step

variable (k : Params)

def tryNext (s : Server) (c : Chan) : Net Chan Message (Panic Chan) (Forwarder Chan) × TryNext :=
  match s.net.queue c with
  | msg :: rest => (s.net.pop c msg rest, .message msg)
  | [] => (s.net, if (s.handles k).any fun x => x.chan = c then .empty else .closed)

def stepMain (s : Server) : Option Server :=
  match s.prog with
  | [] => none
  | .spawn c :: rest => some { s with prog := rest, loops := s.loops ++ [c] }
  | .create x :: rest => some { s with prog := rest, locals := x :: s.locals }
  | .keep x :: rest => some { s with prog := rest, heads := s.heads ++ [x] }
  | .detach call moved cloned :: rest =>
    some { s with
      prog := rest
      tasks := s.tasks ++ [(call, moved ++ cloned)]
      locals := s.locals.diff moved }
  | .block (.done ()) moved :: rest => some { s with prog := rest, locals := s.locals.diff moved }
  | .block call moved :: rest =>
    (s.net.deliver k.capacity call).map fun (net, call) =>
      { s with net := net, prog := .block call moved :: rest }
  | .tryNext c :: rest =>
    some { s with net := (tryNext k s c).1, prog := rest, printed := s.printed ++ [(tryNext k s c).2] }

def stepTask (s : Server) (j : ℕ) : Option Server :=
  match s.tasks[j]? with
  | some (.done (), _) => some { s with tasks := s.tasks.eraseIdx j }
  | some (call, holds) =>
    (s.net.deliver k.capacity call).map fun (net, call) =>
      { s with net := net, tasks := s.tasks.set j (call, holds) }
  | none => none

def stepPoll (s : Server) (j : ℕ) : Option Server :=
  match s.loops[j]? with
  | some c =>
    if (s.net.call c).isSome then none
    else
      match s.net.queue c with
      | [] => some { s with loops := s.loops.eraseIdx j }
      | _ => (s.net.accept AsyncForwarder.receive c).map fun net => { s with net := net }
  | none => none

def step (s : Server) : Event → Option Server
  | .main => stepMain k s
  | .run =>
    match s.prog with
    | [] => some { s with prog := Futures.run k.messages s.heads, runs := s.runs + 1 }
    | _ => none
  | .task j => stepTask k s j
  | .poll j => stepPoll s j
  | .advance c => (s.net.advance k.capacity c).map fun net => { s with net := net }

def birth : Server :=
  ⟨.start newForwarder, setup k.pipelines k.lanes k.messages, [], [], [], [], [], 0⟩

def system : System Server Event := ⟨birth k, step k⟩

end Step

def Job.Opening : Job → Prop
  | .spawn _ => True
  | .create x => x.chan ≠ .notifier
  | .keep x => ∃ l i, x = handle (.lane l i)
  | .detach call moved cloned => call = .done () ∧ ∀ x ∈ moved ++ cloned, x.chan ≠ .notifier
  | .block _ _ => False
  | .tryNext _ => False

section Programs

variable {k : Params}

theorem sendData_done (messages : ℕ) {heads : List Sender} (h : ∀ x ∈ heads, ∃ c, x = handle c) :
    sendData sendCmdAsync ⟨messages, heads, none⟩ = .done () := by
  have hround : ∀ id ∈ List.range messages,
      heads.foldlM (fun _ head => sendCmdAsync head (.testData id)) () =
        (.after [] (.done ()) : Sending Chan Unit) := by
    intro id _
    have hnone : ∀ x ∈ heads,
        sendCmdAsync x (.testData id) = (.after [] (.done ()) : Sending Chan Unit) := by
      intro x hx
      obtain ⟨c, rfl⟩ := h x hx
      rfl
    rw [Call.foldlM_after heads hnone, List.flatMap_eq_nil_iff.mpr fun _ _ => rfl]
  have hall := Call.foldlM_after (List.range messages) hround
  rw [List.flatMap_eq_nil_iff.mpr fun _ _ => rfl] at hall
  exact hall

theorem element_opening (l : ℕ) (b : List Job × Option Sender) (id : ℕ)
    (hjobs : ∀ job ∈ b.1, job.Opening) (hprev : ∀ x, b.2 = some x → ∃ i, x = handle (.lane l i)) :
    (∀ job ∈ (element l b id).1, job.Opening) ∧ (element l b id).2 = some (handle (.lane l id)) := by
  have hnew : ∀ job ∈ b.1 ++ [.create (handle (.lane l id)), .spawn (.lane l id)], job.Opening := by
    intro job hjob
    rcases List.mem_append.mp hjob with hjob | hjob
    · exact hjobs job hjob
    · simp only [List.mem_cons, List.not_mem_nil, or_false] at hjob
      rcases hjob with rfl | rfl
      · simp [Job.Opening, handle, TestMessageSender.chan]
      · trivial
  unfold element
  cases hb : b.2 with
  | none =>
    refine ⟨?_, rfl⟩
    intro job hjob
    rcases List.mem_append.mp hjob with hjob | hjob
    · exact hnew job hjob
    · rw [List.mem_singleton.mp hjob]
      exact ⟨l, id, rfl⟩
  | some x =>
    obtain ⟨i, rfl⟩ := hprev x hb
    refine ⟨?_, rfl⟩
    intro job hjob
    rcases List.mem_append.mp hjob with hjob | hjob
    · exact hnew job hjob
    · rw [List.mem_singleton.mp hjob]
      exact ⟨rfl, by simp [handle, TestMessageSender.chan]⟩

theorem lane_opening (l : ℕ) : ∀ job ∈ lane k.pipelines k.messages l, job.Opening := by
  have hfold : ∀ ids : List ℕ, ids ≠ [] → ∀ b : List Job × Option Sender,
      (∀ job ∈ b.1, job.Opening) → (∀ x, b.2 = some x → ∃ i, x = handle (.lane l i)) →
      (∀ job ∈ (ids.foldl (element l) b).1, job.Opening) ∧
        ∃ i, (ids.foldl (element l) b).2 = some (handle (.lane l i)) := by
    intro ids
    induction ids with
    | nil => exact fun h => absurd rfl h
    | cons id ids ih =>
      intro _ b hjobs hprev
      obtain ⟨hjobs', hprev'⟩ := element_opening l b id hjobs hprev
      by_cases hids : ids = []
      · subst hids
        exact ⟨hjobs', id, hprev'⟩
      · refine ih hids _ hjobs' ?_
        intro x hx
        exact ⟨id, Option.some.inj (hx.symm.trans hprev')⟩
  have hne : List.range' 1 k.pipelines ≠ [] := by
    have := k.pipelines_pos
    simp only [ne_eq, List.range'_eq_nil_iff]
    omega
  obtain ⟨hjobs, i, hprev⟩ := hfold (List.range' 1 k.pipelines) hne ([], none) (by simp) (by simp)
  intro job hjob
  simp only [lane, hprev] at hjob
  rcases List.mem_append.mp hjob with hjob | hjob
  · exact hjobs job hjob
  · rw [List.mem_singleton.mp hjob]
    exact ⟨rfl, by simp [handle, TestMessageSender.chan]⟩

/-- The end of `setup`: the only sender of the notifier goes into a message that is dropped. -/
def closing : List Job :=
  [.create (handle .notifier), .block (.done ()) [handle .concentrator, handle .notifier]]

theorem setup_eq (k : Params) : ∃ jobs, setup k.pipelines k.lanes k.messages = jobs ++ closing ∧
    ∀ job ∈ jobs, job.Opening := by
  refine ⟨_, rfl, ?_⟩
  intro job hjob
  rcases List.mem_append.mp hjob with hjob | hjob
  · simp only [List.mem_cons, List.not_mem_nil, or_false] at hjob
    rcases hjob with rfl | rfl
    · simp [Job.Opening, handle, TestMessageSender.chan]
    · trivial
  · obtain ⟨l, -, hjob⟩ := List.mem_flatMap.mp hjob
    exact lane_opening l job hjob

end Programs

/-- Each step of a thread that begins another one counts for both. -/
def Job.weight : Job → ℕ
  | .spawn _ => 2
  | .detach _ _ _ => 2
  | _ => 1

def Server.left (s : Server) : ℕ := (s.prog.map Job.weight).sum + s.tasks.length + s.loops.length

def Clear (handles : List Sender) : Prop := ∀ x ∈ handles, x.chan ≠ .notifier

inductive Stage (prog : List Job) (locals : List Sender) (runs printed : ℕ) : Prop
  | opening (jobs : List Job) (hprog : prog = jobs ++ closing) (hjobs : ∀ job ∈ jobs, job.Opening)
      (hlocals : Clear locals) (hruns : runs = printed)
  | last (rest : List Sender)
      (hprog : prog = [.block (.done ()) [handle .concentrator, handle .notifier]])
      (hlocals : locals = handle .notifier :: rest) (hrest : Clear rest) (hruns : runs = printed)
  | sending (hprog : prog = [.block (.done ()) [], .tryNext .notifier]) (hlocals : Clear locals)
      (hruns : runs = printed + 1)
  | asking (hprog : prog = [.tryNext .notifier]) (hlocals : Clear locals) (hruns : runs = printed + 1)
  | returned (hprog : prog = []) (hlocals : Clear locals) (hruns : runs = printed)

structure Idle (s : Server) : Prop where
  net : s.net = .start newForwarder
  tasks : ∀ t ∈ s.tasks, t.1 = .done () ∧ Clear t.2
  heads : ∀ x ∈ s.heads, ∃ l i, x = handle (.lane l i)
  printed : ∀ result ∈ s.printed, result = .closed
  stage : Stage s.prog s.locals s.runs s.printed.length

section Run

variable {k : Params} {s t : Server}

theorem element_weight (l : ℕ) (b : List Job × Option Sender) (id : ℕ) :
    ((element l b id).1.map Job.weight).sum =
      (b.1.map Job.weight).sum + (if b.2.isSome then 5 else 4) ∧ (element l b id).2.isSome := by
  unfold element
  cases b.2 <;> simp [Job.weight]

theorem lane_weight (k : Params) (l : ℕ) :
    ((lane k.pipelines k.messages l).map Job.weight).sum = 5 * k.pipelines + 1 := by
  have hfold : ∀ (ids : List ℕ) (b : List Job × Option Sender), b.2.isSome →
      ((ids.foldl (element l) b).1.map Job.weight).sum = (b.1.map Job.weight).sum + 5 * ids.length ∧
        (ids.foldl (element l) b).2.isSome := by
    intro ids
    induction ids with
    | nil => exact fun b hb => ⟨rfl, hb⟩
    | cons id ids ih =>
      intro b hb
      obtain ⟨hweight, hprev⟩ := element_weight l b id
      obtain ⟨hrest, hlast⟩ := ih _ hprev
      rw [if_pos hb] at hweight
      refine ⟨?_, hlast⟩
      rw [List.foldl_cons, hrest, hweight, List.length_cons]
      omega
  obtain ⟨n, hn⟩ := Nat.exists_eq_succ_of_ne_zero k.pipelines_pos.ne'
  obtain ⟨hweight, hprev⟩ := element_weight l ([], none) 1
  obtain ⟨hrest, hlast⟩ := hfold (List.range' 2 n) _ hprev
  obtain ⟨x, hx⟩ := Option.isSome_iff_exists.mp hlast
  simp only [lane, hn, Nat.succ_eq_add_one, List.range'_succ, List.foldl_cons, hx, List.map_append,
    List.sum_append, hrest, hweight]
  simp [Job.weight]
  omega

theorem setup_weight (k : Params) : ((setup k.pipelines k.lanes k.messages).map Job.weight).sum =
    5 + k.lanes * (5 * k.pipelines + 1) := by
  have hlanes : ∀ ls : List ℕ, ((ls.flatMap (lane k.pipelines k.messages)).map Job.weight).sum =
      ls.length * (5 * k.pipelines + 1) := by
    intro ls
    induction ls with
    | nil => simp
    | cons l ls ih =>
      rw [List.flatMap_cons, List.map_append, List.sum_append, ih, lane_weight, List.length_cons,
        Nat.succ_mul ls.length, Nat.add_comm]
  simp only [setup, List.map_append, List.sum_append, hlanes, List.length_range]
  simp [Job.weight]
  omega

theorem Idle.quiet (hs : Idle s) (c : Chan) : s.net.call c = none ∧ s.net.queue c = [] := by
  rw [hs.net]
  exact ⟨rfl, rfl⟩

theorem Idle.handles (hs : Idle s) (hlocals : Clear s.locals) : Clear (s.handles k) := by
  intro x hx
  simp only [Server.handles, hs.net, List.mem_append, List.mem_flatMap] at hx
  rcases hx with ((hx | hx) | ⟨task, htask, hx⟩) | ⟨c, -, hx⟩
  · exact hlocals x hx
  · obtain ⟨l, i, rfl⟩ := hs.heads x hx
    simp [handle, TestMessageSender.chan]
  · exact (hs.tasks task htask).2 x hx
  · simp [Net.start, newForwarder, Forwarder.handles, Forwarder.new] at hx

theorem Idle.tryNext_closed (hs : Idle s) (hlocals : Clear s.locals) :
    tryNext k s .notifier = (s.net, .closed) := by
  have hclear := hs.handles (k := k) hlocals
  have hany : (s.handles k).any (fun x => x.chan = .notifier) = false := by
    simpa [List.any_eq_false, Clear] using hclear
  simp [tryNext, hs.net, Net.start, hany]

theorem Clear.cons {x : Sender} {handles : List Sender} (hx : x.chan ≠ .notifier)
    (h : Clear handles) : Clear (x :: handles) := List.forall_mem_cons.mpr ⟨hx, h⟩

theorem Clear.diff {handles : List Sender} (h : Clear handles) (moved : List Sender) :
    Clear (handles.diff moved) := fun x hx => h x (List.diff_subset handles moved hx)

theorem Idle.opening_step (hs : Idle s) {job : Job} {jobs : List Job}
    (hprog : s.prog = job :: jobs ++ closing) (hjobs : ∀ job' ∈ job :: jobs, job'.Opening)
    (hlocals : Clear s.locals) (hruns : s.runs = s.printed.length) (h : stepMain k s = some t) :
    Idle t ∧ t.left + 1 = s.left ∧ t.runs = s.runs := by
  obtain ⟨hjob, hrest⟩ := List.forall_mem_cons.mp hjobs
  cases job with
  | spawn c =>
    obtain rfl : _ = t := by simpa [stepMain, hprog] using h
    refine ⟨{ hs with stage := .opening jobs rfl hrest hlocals hruns }, ?_, rfl⟩
    simp [Server.left, hprog, Job.weight]
    omega
  | create x =>
    obtain rfl : _ = t := by simpa [stepMain, hprog] using h
    refine ⟨{ hs with stage := .opening jobs rfl hrest (hlocals.cons hjob) hruns }, ?_, rfl⟩
    simp [Server.left, hprog, Job.weight]
    omega
  | keep x =>
    obtain rfl : _ = t := by simpa [stepMain, hprog] using h
    have hheads : ∀ y ∈ s.heads ++ [x], ∃ l i, y = handle (.lane l i) := by
      intro y hy
      rcases List.mem_append.mp hy with hy | hy
      · exact hs.heads y hy
      · rw [List.mem_singleton.mp hy]
        exact hjob
    refine ⟨{ hs with heads := hheads, stage := .opening jobs rfl hrest hlocals hruns }, ?_, rfl⟩
    simp [Server.left, hprog, Job.weight]
    omega
  | detach call moved cloned =>
    obtain rfl : _ = t := by simpa [stepMain, hprog] using h
    have htasks : ∀ task ∈ s.tasks ++ [(call, moved ++ cloned)],
        task.1 = .done () ∧ Clear task.2 := by
      intro task htask
      rcases List.mem_append.mp htask with htask | htask
      · exact hs.tasks task htask
      · rw [List.mem_singleton.mp htask]
        exact hjob
    refine ⟨{ hs with
      tasks := htasks
      stage := .opening jobs rfl hrest (hlocals.diff moved) hruns }, ?_, rfl⟩
    simp [Server.left, hprog, Job.weight]
    omega
  | block call moved => exact absurd hjob id
  | tryNext c => exact absurd hjob id

theorem Idle.main_step (hs : Idle s) (h : stepMain k s = some t) :
    Idle t ∧ t.left + 1 = s.left ∧ t.runs = s.runs := by
  cases hs.stage with
  | opening jobs hprog hjobs hlocals hruns =>
    cases jobs with
    | cons job jobs => exact hs.opening_step hprog hjobs hlocals hruns h
    | nil =>
      obtain rfl : _ = t := by simpa [stepMain, hprog, closing] using h
      refine ⟨{ hs with stage := .last s.locals rfl rfl hlocals hruns }, ?_, rfl⟩
      simp [Server.left, hprog, closing, Job.weight]
      omega
  | last rest hprog hlocals hrest hruns =>
    obtain rfl : _ = t := by simpa [stepMain, hprog] using h
    have hgone : Clear ((s.locals.erase (handle .concentrator)).erase (handle .notifier)) := by
      rw [hlocals, List.erase_cons_tail (by simp [handle]), List.erase_cons_head]
      exact fun x hx => hrest x (List.mem_of_mem_erase hx)
    refine ⟨{ hs with stage := .returned rfl hgone hruns }, ?_, rfl⟩
    simp [Server.left, hprog, Job.weight]
    omega
  | sending hprog hlocals hruns =>
    obtain rfl : _ = t := by simpa [stepMain, hprog] using h
    refine ⟨{ hs with stage := .asking rfl hlocals hruns }, ?_, rfl⟩
    simp [Server.left, hprog, Job.weight]
    omega
  | asking hprog hlocals hruns =>
    have hclosed := hs.tryNext_closed (k := k) hlocals
    obtain rfl : _ = t := by simpa [stepMain, hprog, hclosed] using h
    have hprinted : ∀ result ∈ s.printed ++ [.closed], result = .closed := by
      intro result hresult
      rcases List.mem_append.mp hresult with hresult | hresult
      · exact hs.printed result hresult
      · exact List.mem_singleton.mp hresult
    refine ⟨{ hs with printed := hprinted, stage := .returned rfl hlocals (by simpa using hruns) }, ?_, rfl⟩
    simp [Server.left, hprog, Job.weight]
    omega
  | returned hprog hlocals hruns => simp [stepMain, hprog] at h

theorem Idle.run_step (hs : Idle s) (h : step k s .run = some t) :
    Idle t ∧ t.left = s.left + 2 ∧ t.runs = s.runs + 1 := by
  cases hs.stage with
  | opening jobs hprog => simp [step, hprog, closing] at h
  | last rest hprog => simp [step, hprog] at h
  | sending hprog => simp [step, hprog] at h
  | asking hprog => simp [step, hprog] at h
  | returned hprog hlocals hruns =>
    have hheads : ∀ x ∈ s.heads, ∃ c, x = handle c := by
      intro x hx
      obtain ⟨l, i, hx⟩ := hs.heads x hx
      exact ⟨.lane l i, hx⟩
    have hsends := sendData_done k.messages hheads
    obtain rfl : _ = t := by simpa [step, hprog, Futures.run, hsends] using h
    refine ⟨{ hs with stage := .sending rfl hlocals (congrArg Nat.succ hruns) }, ?_, rfl⟩
    simp [Server.left, hprog, Job.weight]
    omega

theorem Idle.task_step {j : ℕ} (hs : Idle s) (h : stepTask k s j = some t) :
    Idle t ∧ t.left + 1 = s.left ∧ t.runs = s.runs := by
  cases htask : s.tasks[j]? with
  | none => simp [stepTask, htask] at h
  | some task =>
    obtain ⟨call, holds⟩ := task
    obtain ⟨hj, -⟩ := List.getElem?_eq_some_iff.mp htask
    obtain ⟨rfl, -⟩ : call = .done () ∧ _ := hs.tasks _ (List.mem_of_getElem? htask)
    obtain rfl : _ = t := by simpa [stepTask, htask] using h
    refine ⟨{ hs with
      tasks := fun task htask => hs.tasks task (List.mem_of_mem_eraseIdx htask)
      stage := hs.stage }, ?_, rfl⟩
    simp only [Server.left, List.length_eraseIdx_of_lt hj]
    omega

theorem Idle.poll_step {j : ℕ} (hs : Idle s) (h : stepPoll s j = some t) :
    Idle t ∧ t.left + 1 = s.left ∧ t.runs = s.runs := by
  cases hloop : s.loops[j]? with
  | none => simp [stepPoll, hloop] at h
  | some c =>
    obtain ⟨hj, -⟩ := List.getElem?_eq_some_iff.mp hloop
    obtain ⟨hcall, hqueue⟩ := hs.quiet c
    obtain rfl : _ = t := by simpa [stepPoll, hloop, hcall, hqueue] using h
    refine ⟨{ hs with stage := hs.stage }, ?_, rfl⟩
    simp only [Server.left, List.length_eraseIdx_of_lt hj]
    omega

theorem Idle.step_exact {e : Event} (hs : Idle s) (h : step k s e = some t) :
    Idle t ∧ 3 * t.runs + s.left = 3 * s.runs + t.left + 1 := by
  cases e with
  | main =>
    obtain ⟨ht, hleft, hruns⟩ := hs.main_step h
    exact ⟨ht, by omega⟩
  | run =>
    obtain ⟨ht, hleft, hruns⟩ := hs.run_step h
    exact ⟨ht, by omega⟩
  | task j =>
    obtain ⟨ht, hleft, hruns⟩ := hs.task_step h
    exact ⟨ht, by omega⟩
  | poll j =>
    obtain ⟨ht, hleft, hruns⟩ := hs.poll_step h
    exact ⟨ht, by omega⟩
  | advance c => simp [step, Net.advance, (hs.quiet c).1] at h

theorem idle_birth (k : Params) : Idle (birth k) := by
  obtain ⟨jobs, hprog, hjobs⟩ := setup_eq k
  exact
    { net := rfl
      tasks := by simp [birth]
      heads := by simp [birth]
      printed := by simp [birth]
      stage := .opening jobs hprog hjobs (by simp [birth, Clear]) rfl }

theorem Idle.stuck (hs : Idle s) (h : ∀ e, e ≠ .run → step k s e = none) :
    s.prog = [] ∧ s.tasks = [] ∧ s.loops = [] := by
  have hmain : stepMain k s = none := h .main (by simp)
  refine ⟨?_, ?_, ?_⟩
  · cases hs.stage with
    | opening jobs hprog hjobs =>
      cases jobs with
      | nil => simp [stepMain, hprog, closing] at hmain
      | cons job jobs =>
        have hjob := hjobs job List.mem_cons_self
        cases job with
        | block call moved => exact absurd hjob id
        | tryNext c => exact absurd hjob id
        | _ => simp [stepMain, hprog] at hmain
    | last rest hprog => simp [stepMain, hprog] at hmain
    | sending hprog => simp [stepMain, hprog] at hmain
    | asking hprog => simp [stepMain, hprog] at hmain
    | returned hprog => exact hprog
  · by_contra hne
    obtain ⟨task, tasks, htasks⟩ := List.exists_cons_of_ne_nil hne
    obtain ⟨call, holds⟩ := task
    obtain ⟨rfl, -⟩ : call = .done () ∧ _ := hs.tasks (call, holds) (by simp [htasks])
    have := h (.task 0) (by simp)
    simp [step, stepTask, htasks] at this
  · by_contra hne
    obtain ⟨c, loops, hloops⟩ := List.exists_cons_of_ne_nil hne
    obtain ⟨hcall, hqueue⟩ := hs.quiet c
    have := h (.poll 0) (by simp)
    simp [step, stepPoll, hloops, hcall, hqueue] at this

end Run

theorem futures_idle {k : Params} {es : List Event} {s : Server}
    (h : (system k).exec (fun _ _ => true) (birth k) es = some s) :
    s.net = .start newForwarder ∧
    (∀ result ∈ s.printed, result = .closed) ∧
    (s.prog = [] → s.printed.length = s.runs) ∧
    es.length + s.left = 5 + k.lanes * (5 * k.pipelines + 1) + 3 * s.runs ∧
    ((∀ e, e ≠ .run → step k s e = none) → s.prog = [] ∧ s.tasks = [] ∧ s.loops = []) := by
  have hstep : ∀ s e t, Idle s → true = true → (system k).step s e = some t →
      Idle t ∧ 3 * t.runs + s.left = 3 * s.runs + t.left + 1 :=
    fun s e t hs _ he => hs.step_exact he
  obtain ⟨hs, hlen⟩ := System.exec_exact hstep (idle_birth k) h
  have hbirth : (birth k).left = 5 + k.lanes * (5 * k.pipelines + 1) := by
    rw [Server.left, birth, setup_weight]
    rfl
  have hzero : (birth k).runs = 0 := rfl
  refine ⟨hs.net, hs.printed, ?_, by omega, hs.stuck⟩
  intro hprog
  cases hs.stage with
  | opening jobs hjobs => simp [hjobs, closing] at hprog
  | last rest hlast => simp [hlast] at hprog
  | sending hsending => simp [hsending] at hprog
  | asking hasking => simp [hasking] at hprog
  | returned _ _ hruns => exact hruns.symm

def smallIdleRun : List Event :=
  List.replicate 11 .main ++ [.poll 2, .run, .task 1, .main, .poll 0, .main, .task 0, .poll 0]

def afterIdleRun : Server :=
  ((system small).exec (fun _ _ => true) (birth small) smallIdleRun).get rfl

theorem futures_idle_small :
    afterIdleRun.printed = [.closed] ∧ afterIdleRun.loops = [] ∧
    afterIdleRun.net = .start newForwarder ∧ smallIdleRun.length + afterIdleRun.left = 19 := by
  obtain ⟨hnet, -, -, hlen, -⟩ := futures_idle (s := afterIdleRun) (Option.some_get _).symm
  exact ⟨rfl, rfl, hnet, hlen⟩

end ChannelExecutor.Experiment.Futures
