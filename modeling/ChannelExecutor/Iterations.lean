import ChannelExecutor.Cascade
import ChannelExecutor.Settled

/-!
`experiment` of `main.rs`: `setup`, so many calls of `run`, and `teardown`. Whatever the schedule, it
comes to an end with every loop over, nothing lost and nothing left in memory.
-/

set_option autoImplicit false

namespace ChannelExecutor.Experiment

open Lib (Call Net System)
open State

def experiment (iterations : ℕ) (s : Life) : Event → Bool
  | .run => s.runs < iterations
  | .teardown => s.runs = iterations
  | _ => true

def Params.runWork (k : Params) : ℕ :=
  Op.work k.weight (.block (.after k.data (.done ()))) + 6

def Life.upcoming (k : Params) (iterations : ℕ) (s : Life) : ℕ :=
  if s.torn then s.remaining k
  else s.state.work k + 2 * s.prog.length + s.heads.length + s.threads.length +
    3 * k.sites.length + 3 + (iterations - s.runs) * k.runWork

structure Life.Over (o : TrackedDriver) (k : Params) (iterations : ℕ) (s : Life) : Prop where
  prog : s.prog = []
  runs : s.runs = iterations
  notified : s.net.got .notifier = List.replicate iterations (.testData k.lanes)
  received : ∀ c ∈ k.sites, seqs (s.net.got c) = seqs (s.net.put c)
  -- without a run, a thread may end while there still is a `Notify` for one of its lanes
  emptied : 0 < iterations → ∀ c ∈ k.sites, s.net.got c = s.net.put c
  settled : 0 < iterations → ∀ c ∈ k.channels, s.state.site c = k.settled o.flavour iterations c
  ended : ∀ thread, ¬ s.Live thread
  locals : s.locals = []
  heads : s.heads = []
  holders : ∀ c ∈ k.sites, s.holders k c = []
  freed : ∀ c ∈ k.sites, c ∈ s.freed
  dropped : ∀ c ∈ k.channels, c ∈ s.dropped

section Experiment

variable {o : TrackedDriver} {k : Params} {send : Send} {eager : Bool} {s t : Life} {e : Event}
variable {iterations : ℕ}

theorem Life.Does.runs_eq (h : s.Does o k eager e t) (hrun : e ≠ .run) : t.runs = s.runs := by
  cases h with
  | run => exact absurd rfl hrun
  | _ => rfl

theorem Life.Does.torn_eq (h : s.Does o k eager e t) (htear : e ≠ .teardown) : t.torn = s.torn := by
  cases h with
  | teardown => exact absurd rfl htear
  | _ => rfl

theorem Life.Does.standing_lt (h : s.Does o k eager e t) (ho : o.Sound k send)
    (hi : Inv o.driver k o.flavour (· ∈ k.channels) s.state) (hopen : s.Open) (ht : t.Standing o k)
    (hrun : e ≠ .run) (htear : e ≠ .teardown) :
    t.state.work k + 2 * t.prog.length + t.heads.length + t.threads.length <
      s.state.work k + 2 * s.prog.length + s.heads.length + s.threads.length := by
  have hK : ∀ c ∈ k.channels, k.relays c → c ∈ k.channels := fun _ hc _ => hc
  have hwork : t.state.work k ≤ s.state.work k := by
    rcases h.state hopen with he | ⟨a, ha, hstep⟩
    · rw [he]
    · exact Nat.le_of_lt (hi.work_lt ho.wires hK (fun har => hrun (ha har)) hstep)
  cases h with
  | spawn hp =>
    simp only [hp, List.length_cons, List.length_append, List.length_nil] at hwork ⊢
    omega
  | sent hp =>
    simp only [hp, List.length_cons]
    omega
  | @send c msg call rest hp hroom =>
    have hstep : step o.driver k s.state .main = some (Life.state
        { s with net := s.net.push c msg, prog := .op (.block call) :: rest }) := by
      simp [step, stepMain, Life.state, hp, Net.deliver, hroom]
    have hlt := hi.work_lt ho.wires hK (by simp) hstep
    simp only [hp, List.length_cons]
    omega
  | refuse hp hc => exact absurd hc (hopen.main _ _ _ _ hp)
  | recv hp hn =>
    simp only [hp, List.length_cons]
    omega
  | create hp =>
    simp only [hp, List.length_cons]
    omega
  | keep hp =>
    simp only [hp, List.length_cons, List.length_append, List.length_nil]
    omega
  | pass hp =>
    simp only [hp, List.length_cons]
    omega
  | clear hp hh =>
    simp only [hh, List.length_cons]
    omega
  | cleared hp hh =>
    simp only [hp, List.length_cons]
    omega
  | shut hp =>
    simp only [hp, List.length_cons]
    omega
  | run hp htorn => exact absurd rfl hrun
  | teardown hp htorn => exact absurd rfl htear
  | receive hl hr =>
    have hlt := hi.work_lt ho.wires hK (by simp) (step_receive hr)
    simp only
    omega
  | advance hn =>
    have hlt := hi.work_lt ho.wires hK (by simp) (step_advance hn)
    simp only
    omega
  | lose hcall hc => exact absurd hc (hopen.call _ _ _ _ hcall)
  | leave => exact absurd ht.left (by simp)
  | close => exact absurd ht.closed (by simp)
  | drop => exact absurd ht.dropped (by simp)
  | free => exact absurd ht.freed (by simp)

structure Life.Underway (o : TrackedDriver) (k : Params) (iterations : ℕ) (s : Life) : Prop where
  tended : s.Tended o k
  runs_le : s.runs ≤ iterations
  torn : s.torn = true → s.runs = iterations
  shut : s.torn = true → .close .notifier ∈ s.prog ∨ .notifier ∈ s.closed

theorem countP_not_mem_nil {α : Type} [DecidableEq α] (ls : List α) :
    ls.countP (· ∉ ([] : List α)) = ls.length := by
  simp

theorem Life.Standing.run_upcoming (hs : s.torn = false) (ho : o.Sound k send) (hp : s.prog = [])
    (hlt : s.runs < iterations) :
    Life.upcoming k iterations { s with
      prog := (o.driver.run (o.driver.setup k.pipelines k.lanes k.messages).1).map .op
      runs := s.runs + 1 } < s.upcoming k iterations := by
  obtain ⟨rest, rfl⟩ := Nat.exists_eq_add_of_lt hlt
  rw [Life.upcoming, if_neg (by simp [hs]), Life.upcoming, if_neg (by simp [hs])]
  have hprog : ((o.driver.run (o.driver.setup k.pipelines k.lanes k.messages).1).map
      (Op.work k.weight)).sum = Op.work k.weight (.block (.after k.data (.done ()))) + 1 := by
    rw [ho.wires.run]
    rfl
  have hlen : (o.driver.run (o.driver.setup k.pipelines k.lanes k.messages).1).length = 2 := by
    rw [ho.wires.run]
    rfl
  have hrest : s.runs + rest + 1 - s.runs = rest + 1 := by omega
  have hrest' : s.runs + rest + 1 - (s.runs + 1) = rest := by omega
  simp only [Life.state, State.work, hp, opsOf_nil, opsOf_map, Params.runWork, List.length_map,
    List.map_nil, List.sum_nil, List.length_nil, hprog, hlen, hrest, hrest', Nat.add_mul, Nat.one_mul]
  omega

theorem Life.Standing.teardown_upcoming (hs : s.Standing o k) (ht : s.torn = false) (hp : s.prog = []) :
    Life.upcoming k iterations { s with prog := [.clear, .close .notifier], torn := true } <
      s.upcoming k iterations := by
  have hstate : Life.state { s with prog := [.clear, .close .notifier], torn := true } = s.state := by
    rw [Life.state, Life.state, hp, opsOf_skip rfl, opsOf_skip rfl]
  rw [Life.upcoming, if_pos rfl, Life.upcoming, if_neg (by simp [ht]), Life.remaining, hstate]
  simp only [hs.left, hs.closed, hs.dropped, hs.freed, countP_not_mem_nil, List.length_range,
    List.length_cons, List.length_nil]
  omega

theorem Life.Does.shut_notifier (h : s.Does o k eager e t) (hs : s.Falling k)
    (hshut : .close .notifier ∈ s.prog ∨ .notifier ∈ s.closed) :
    .close .notifier ∈ t.prog ∨ .notifier ∈ t.closed := by
  cases h with
  | @shut c rest hp =>
    have hcases := hs.prog_cases
    rw [hp] at hcases
    simp only [List.cons.injEq, reduceCtorEq, false_and, Stmt.close.injEq, false_or, or_false] at hcases
    exact .inr (hcases.1 ▸ List.mem_cons_self)
  | run hp => simpa [hp] using hshut
  | teardown => exact .inl (by simp)
  | close => exact hshut.imp id (List.mem_cons_of_mem _)
  | spawn hp => simpa [hp] using hshut
  | sent hp => simpa [hp] using hshut
  | send hp => simpa [hp] using hshut
  | refuse hp => simpa [hp] using hshut
  | recv hp => simpa [hp] using hshut
  | create hp => simpa [hp] using hshut
  | keep hp => simpa [hp] using hshut
  | pass hp => simpa [hp] using hshut
  | cleared hp => simpa [hp] using hshut
  | _ => exact hshut

theorem Life.Underway.step (hs : s.Underway o k iterations) (ho : o.Sound k send)
    (hok : experiment iterations s e = true) (h : stepLife o k eager s e = some t) :
    t.Underway o k iterations ∧ t.upcoming k iterations < s.upcoming k iterations := by
  have hdoes := stepLife_does h
  have ht := hs.tended.step ho h
  have hi := (hs.tended.inv ho).1
  have hopen := hs.tended.open ho
  cases htorn : s.torn with
  | true =>
    -- the teardown goes on, and there is no further call of `run`
    obtain ⟨-, htorn', hlt⟩ := (hs.tended.falling htorn).step ho hi hopen htorn hdoes
    have hruns : t.runs = s.runs := by
      apply hdoes.runs_eq
      rintro rfl
      cases hdoes with
      | run hp hrun => simp [htorn] at hrun
    have hshut := hdoes.shut_notifier (hs.tended.falling htorn) (hs.shut htorn)
    refine ⟨⟨ht, hruns ▸ hs.runs_le, fun _ => hruns ▸ hs.torn htorn, fun _ => hshut⟩, ?_⟩
    rwa [Life.upcoming, if_pos htorn', Life.upcoming, if_pos htorn]
  | false =>
    by_cases hrun : e = .run
    · subst hrun
      have hlt : s.runs < iterations := of_decide_eq_true hok
      cases hdoes with
      | run hp _ =>
        have hfalse : s.torn = true → False := by simp [htorn]
        exact ⟨⟨ht, hlt, fun h => (hfalse h).elim, fun h => (hfalse h).elim⟩,
          Life.Standing.run_upcoming htorn ho hp hlt⟩
    by_cases htear : e = .teardown
    · subst htear
      have heq : s.runs = iterations := of_decide_eq_true hok
      cases hdoes with
      | teardown hp _ =>
        exact ⟨⟨ht, hs.runs_le, fun _ => heq, fun _ => .inl (by simp)⟩,
          (hs.tended.standing htorn).teardown_upcoming htorn hp⟩
    have hruns := hdoes.runs_eq hrun
    have htorn' : t.torn = false := (hdoes.torn_eq htear).trans htorn
    have hlt := hdoes.standing_lt ho hi hopen (ht.standing htorn') hrun htear
    refine ⟨⟨ht, hruns ▸ hs.runs_le, by simp [htorn'], by simp [htorn']⟩, ?_⟩
    rw [Life.upcoming, if_neg (by simp [htorn']), Life.upcoming, if_neg (by simp [htorn]), hruns]
    omega

theorem underway_birth (ho : o.Sound k send) : (birth o k).Underway o k iterations :=
  ⟨tended_birth ho, Nat.zero_le _, by simp [birth], by simp [birth]⟩

theorem stepMain_single {u : State} {op : Op} {ops : List Op} (hm : u.main = op :: ops)
    (h : stepMain k u ≠ none) : stepMain k { u with main := [op] } ≠ none := by
  cases op with
  | spawn recvs => simp [stepMain]
  | detach call => simp [stepMain]
  | recv c =>
    simp only [stepMain, hm] at h ⊢
    simpa using h
  | block call =>
    cases call with
    | done => simp [stepMain]
    | send c msg rest =>
      simp only [stepMain, hm] at h ⊢
      simpa using h
    | panic e =>
      simp only [stepMain, hm] at h ⊢
      simpa using h

theorem Life.Standing.takes_step (hs : s.Standing o k) (hi : Inv o.driver k o.flavour (· ∈ k.channels) s.state)
    (haw : Awaited s.state) (ho : o.Sound k send) (hp : s.prog ≠ []) :
    ∃ e, experiment iterations s e = true ∧ stepLife o k eager s e ≠ none := by
  have hrefused : ∀ {β : Type} (call : Sending Chan β), s.refused call = none := by
    intro β call
    cases call with
    | send c msg rest => simp [Life.refused, hs.closed]
    | done => rfl
    | panic e => rfl
  obtain ⟨x, rest, hprog⟩ := List.exists_cons_of_ne_nil hp
  cases x with
  | create x => exact ⟨.main, rfl, by simp [stepLife, stepStmt, hprog]⟩
  | keep x => exact ⟨.main, rfl, by simp [stepLife, stepStmt, hprog]⟩
  | leave x => exact ⟨.main, rfl, by simp [stepLife, stepStmt, hprog]⟩
  | close c => exact ⟨.main, rfl, by simp [stepLife, stepStmt, hprog]⟩
  | clear =>
    refine ⟨.main, rfl, ?_⟩
    cases hh : s.heads with
    | nil => simp [stepLife, stepStmt, hprog, hh]
    | cons x heads => simp [stepLife, stepStmt, hprog, hh]
  | op op =>
    have hm : s.state.main = op :: opsOf rest := by simp [hprog]
    obtain ⟨a, t, ha, hstep⟩ := hi.takes_step haw ho.wires (hm ▸ List.cons_ne_nil _ _)
    cases a with
    | run => exact absurd rfl ha
    | main =>
      refine ⟨.main, rfl, ?_⟩
      have hone : stepMain k { s.state with main := [op] } ≠ none := by
        apply stepMain_single hm
        change Experiment.step o.driver k s.state .main ≠ none
        simp [hstep]
      have hop : stepOp k s op rest ≠ none := by simpa [stepOp] using hone
      cases op with
      | detach call => exact absurd rfl (haw.no_detach _ (hm ▸ List.mem_cons_self) call)
      | spawn recvs => simpa [stepLife, stepStmt, hprog] using hop
      | recv c => simpa [stepLife, stepStmt, hprog] using hop
      | block call => simpa [stepLife, stepStmt, hprog, hrefused] using hop
    | receive thread index =>
      refine ⟨.receive thread index, rfl, ?_⟩
      change stepReceive o.driver s.state thread index = some t at hstep
      simp [stepLife, hs.left, hstep]
    | advance c =>
      refine ⟨.advance c, rfl, ?_⟩
      obtain ⟨net, hn, -⟩ := Option.map_eq_some_iff.mp hstep
      have hbind : (s.net.call c).bind s.refused = none := by
        cases s.net.call c with
        | none => rfl
        | some call => exact hrefused call
      change s.net.advance k.capacity c = some net at hn
      simp [stepLife, stepAdvance, hbind, hn]
    | task j =>
      cases step_does hstep with
      | task hj hroom => simp [haw.tasks] at hj

theorem Life.Underway.stuck_torn (hs : s.Underway o k iterations) (ho : o.Sound k send)
    (hstuck : ∀ e, experiment iterations s e = true → stepLife o k eager s e = none) : s.torn = true := by
  by_contra htorn
  have htorn : s.torn = false := by simpa using htorn
  obtain ⟨hi, haw⟩ := hs.tended.inv ho
  have hp : s.prog = [] := by
    by_contra hp
    obtain ⟨e, hok, hstep⟩ := (hs.tended.standing htorn).takes_step hi haw ho hp
    exact hstep (hstuck e hok)
  rcases Nat.lt_or_eq_of_le hs.runs_le with hlt | heq
  · have := hstuck .run (by simpa [experiment] using hlt)
    simp [stepLife, hp, htorn] at this
  · have := hstuck .teardown (by simpa [experiment] using heq)
    simp [stepLife, hp, htorn] at this

theorem Life.Underway.over (hs : s.Underway o k iterations) (ho : o.Sound k send)
    (hstuck : ∀ e, experiment iterations s e = true → stepLife o k eager s e = none) :
    s.Over o k iterations := by
  have htorn := hs.stuck_torn ho hstuck
  have hfall := hs.tended.falling htorn
  obtain ⟨hi, haw⟩ := hs.tended.inv ho
  have hall : ∀ e, stepLife o k eager s e = none := by
    intro e
    cases e with
    | run => simp [stepLife, htorn]
    | teardown => simp [stepLife, htorn]
    | _ => exact hstuck _ rfl
  obtain ⟨hp, hheads⟩ := hfall.stuck_prog hall
  have hruns := hs.torn htorn
  have hchannels : ∀ c ∈ k.channels, s.holders k c = [] ∧ c ∈ s.freed ∧ c ∈ s.dropped :=
    fun c hc => hfall.stuck_channel ho hi hall _ c hc rfl
  have hnotifier : s.holders k .notifier = [] :=
    hfall.holders_nil ho hi hheads fun c hc _ => (hchannels c hc).2
  have hclosed : .notifier ∈ s.closed := (hs.shut htorn).resolve_left (by simp [hp])
  have hnotified := hi.notifier_settled ho.wires hfall.idle
  have hsettled : 0 < iterations → ∀ c ∈ k.channels, s.state.site c = k.settled o.flavour iterations c := by
    intro hpos c hc
    have hdrained := (hi.endOfRun ho.wires (show 0 < s.runs by omega) (hi.runs_le_of_rest hfall.idle)).drained c hc
    have hsite := hi.settled haw ho.wires hs.tended.reachable hfall.idle hc hdrained
    rwa [show s.state.runs = iterations from hruns] at hsite
  constructor
  case prog => exact hp
  case runs => exact hruns
  case notified =>
    have hgot := hnotified.2.2
    rw [Params.intake, List.map_replicate, show s.state.runs = iterations from hruns] at hgot
    exact hgot
  case received => exact fun c hc => hi.received_all ho.wires hfall.idle hc
  case emptied =>
    intro hpos c hc
    rcases List.mem_cons.mp hc with rfl | hc
    · exact hnotified.2.2.trans hnotified.2.1.symm
    · have hsite := hsettled hpos c hc
      exact (congrArg Site.got hsite).trans (congrArg Site.put hsite).symm
  case settled => exact hsettled
  case ended => exact hs.tended.stuck_left ho htorn hall
  case locals => exact hfall.locals
  case heads => exact hheads
  case holders => exact List.forall_mem_cons.mpr ⟨hnotifier, fun c hc => (hchannels c hc).1⟩
  case freed =>
    refine List.forall_mem_cons.mpr ⟨?_, fun c hc => (hchannels c hc).2.1⟩
    by_contra hfreed
    have := hall (.free .notifier)
    simp [stepLife, hclosed, hfreed, hnotifier] at this
  case dropped => exact fun c hc => (hchannels c hc).2.2

end Experiment

/-- Whatever happens in which order, `experiment` ends: it never panics, it takes a bounded number of
steps, and where it stops it is over. -/
theorem experiment_completes {o : TrackedDriver} (ho : o ∈ TrackedDriver.all) {k : Params} {eager : Bool}
    {iterations : ℕ} {es : List Event} {s : Life}
    (h : (lifeSystem o k eager).exec (experiment iterations) (birth o k) es = some s) :
    (∀ e, ¬ s.state.Panics e) ∧
    es.length + s.upcoming k iterations ≤ (birth o k).upcoming k iterations ∧
    ((∀ e, experiment iterations s e = true → stepLife o k eager s e = none) →
      s.Over o k iterations) ∧
    ∃ rest t, (lifeSystem o k eager).exec (experiment iterations) s rest = some t ∧
      t.Over o k iterations := by
  obtain ⟨send, hsound⟩ := TrackedDriver.sound_all k ho
  have hstep : ∀ s e t, s.Underway o k iterations → experiment iterations s e = true →
      (lifeSystem o k eager).step s e = some t →
      t.Underway o k iterations ∧ t.upcoming k iterations < s.upcoming k iterations :=
    fun s e t hs hok he => hs.step hsound hok he
  obtain ⟨hs, hlen⟩ := System.exec_bounded hstep (underway_birth hsound) h
  refine ⟨(hs.tended.inv hsound).1.no_panic hsound.wires fun _ hc _ => hc, hlen, hs.over hsound, ?_⟩
  obtain ⟨rest, t, hrest, ht, hstuck⟩ := System.exec_completes hstep hs
  exact ⟨rest, t, hrest, ht.over hsound hstuck⟩

def smallEvents : List Event := List.replicate 18 .main ++ [.receive 1 0, .run, .main]

def withinExperiment : Life :=
  ((lifeSystem .crossbeam small false).exec (experiment 1) (birth .crossbeam small) smallEvents).get rfl

theorem experiment_completes_small :
    (withinExperiment.runs = 1 ∧ smallEvents.length + withinExperiment.upcoming small 1 ≤ 93) ∧
    ∃ rest t, (lifeSystem .crossbeam small false).exec (experiment 1) withinExperiment rest = some t ∧
      t.Over .crossbeam small 1 := by
  have h := experiment_completes (s := withinExperiment) (by simp [TrackedDriver.all])
    (Option.some_get _).symm
  exact ⟨⟨rfl, h.2.1⟩, h.2.2.2⟩

end ChannelExecutor.Experiment
