import ChannelExecutor.Teardown

set_option autoImplicit false

namespace ChannelExecutor.Experiment

open Lib (Call Net System)
open State

section Counting

variable {α : Type} [DecidableEq α]

theorem countP_cons_le (ls : List α) (a : α) (xs : List α) :
    ls.countP (· ∉ a :: xs) ≤ ls.countP (· ∉ xs) := by
  apply List.countP_mono_left
  intro x _ hx
  simp only [List.mem_cons, not_or, decide_eq_true_eq] at hx ⊢
  exact hx.2

theorem countP_cons_lt {ls : List α} {a : α} (ha : a ∈ ls) {xs : List α} (hxs : a ∉ xs) :
    ls.countP (· ∉ a :: xs) < ls.countP (· ∉ xs) := by
  induction ls with
  | nil => cases ha
  | cons y ls ih =>
    have hle := countP_cons_le ls a xs
    by_cases hya : y = a
    · subst hya
      rw [List.countP_cons_of_neg (by simp), List.countP_cons_of_pos (by simpa using hxs)]
      omega
    · have hlt := ih (List.mem_of_ne_of_mem (Ne.symm hya) ha)
      by_cases hy : y ∈ xs
      · rw [List.countP_cons_of_neg (by simp [hy]), List.countP_cons_of_neg (by simp [hy])]
        exact hlt
      · rw [List.countP_cons_of_pos (by simp [hya, hy]), List.countP_cons_of_pos (by simp [hy])]
        omega

end Counting

def Life.remaining (k : Params) (s : Life) : ℕ :=
  s.state.work k + s.prog.length + s.heads.length +
    (List.range s.threads.length).countP (· ∉ s.left) + k.sites.countP (· ∉ s.closed) +
    k.sites.countP (· ∉ s.dropped) + k.sites.countP (· ∉ s.freed)

def Life.Live (s : Life) (thread : ℕ) : Prop := thread < s.threads.length ∧ thread ∉ s.left

structure Life.Tended (o : TrackedDriver) (k : Params) (s : Life) : Prop where
  reachable : (system o.driver k).Reachable s.state
  standing : s.torn = false → s.Standing o k
  falling : s.torn = true → s.Falling k

section Cascade

variable {o : TrackedDriver} {k : Params} {send : Send} {eager : Bool} {s t : Life} {e : Event}

theorem Life.Tended.inv (hs : s.Tended o k) (ho : o.Sound k send) :
    Inv o.driver k o.flavour (· ∈ k.channels) s.state ∧ Awaited s.state :=
  reaches_awaited ho.wires hs.reachable

theorem Life.Tended.open (hs : s.Tended o k) (ho : o.Sound k send) : s.Open := by
  cases ht : s.torn with
  | false =>
    have hclosed := (hs.standing ht).closed
    exact ⟨by simp [hclosed], by simp [hclosed]⟩
  | true =>
    have hfall := hs.falling ht
    constructor
    · intro c msg call rest hp
      have hidle := hfall.idle
      simp [hp] at hidle
    · intro c dst msg call hcall
      obtain ⟨f, hf⟩ := (hs.inv ho).1.call_done ho.wires hfall.idle hcall
      cases hf

theorem Inv.ended_mem {d : Driver} {flavour : Chan → Sender}
    (hi : Inv d k flavour (· ∈ k.channels) s.state) {c : Chan} (hc : s.Ended c) : c ∈ k.sites := by
  obtain ⟨thread, -, hmem⟩ := hc
  cases ht : s.threads[thread]? with
  | none => simp [ht] at hmem
  | some recvs =>
    rw [ht] at hmem
    exact k.mem_sites (hi.served_mem (.inl (List.mem_of_getElem? ht)) c hmem)

theorem Life.Falling.step (hs : s.Falling k) (ho : o.Sound k send)
    (hi : Inv o.driver k o.flavour (· ∈ k.channels) s.state) (hopen : s.Open) (ht : s.torn = true)
    (hdoes : s.Does o k eager e t) : t.Falling k ∧ t.torn = true ∧ t.remaining k < s.remaining k := by
  have hK : ∀ c ∈ k.channels, k.relays c → c ∈ k.channels := fun _ hc _ => hc
  have hprog := hs.prog_cases
  have hidle := hs.idle
  cases hdoes with
  | spawn hp => simp [hp] at hidle
  | sent hp => simp [hp] at hidle
  | send hp => simp [hp] at hidle
  | refuse hp => simp [hp] at hidle
  | recv hp => simp [hp] at hidle
  | create hp => simp [hp] at hprog
  | keep hp => simp [hp] at hprog
  | pass hp => simp [hp] at hprog
  | run hp htorn => simp [ht] at htorn
  | teardown hp htorn => simp [ht] at htorn
  | @clear x heads rest hp hh =>
    refine ⟨⟨hs.prog, hs.locals, fun hclear => ?_, hs.closed⟩, ht, ?_⟩
    · exact absurd (hp ▸ List.mem_cons_self) hclear
    · have hstate : Life.state { s with heads := heads } = s.state := rfl
      simp only [Life.remaining, hstate, hh, List.length_cons]
      omega
  | @cleared rest hp hh =>
    have hsuffix : rest <:+ s.prog := hp ▸ List.suffix_cons _ _
    refine ⟨⟨hsuffix.trans hs.prog, hs.locals, fun _ => hh, hs.closed⟩, ht, ?_⟩
    have hstate : Life.state { s with prog := rest } = s.state := by
      rw [Life.state, Life.state, hp, opsOf_skip rfl]
    simp only [Life.remaining, hstate, hp, List.length_cons]
    omega
  | @shut c rest hp =>
    have hsuffix : rest <:+ s.prog := hp ▸ List.suffix_cons _ _
    have hclosing : s.prog = [.close .notifier] := by
      rcases hprog with h | h | h
      · simp [h] at hp
      · exact h
      · simp [h] at hp
    obtain ⟨hc, -⟩ := List.cons.inj (hp.symm.trans hclosing)
    cases hc
    refine ⟨⟨hsuffix.trans hs.prog, hs.locals, fun _ => hs.heads (by simp [hclosing]), ?_⟩, ht, ?_⟩
    · exact List.forall_mem_cons.mpr ⟨List.mem_cons_self, hs.closed⟩
    · have hstate : Life.state { s with prog := rest, closed := .notifier :: s.closed } = s.state := by
        rw [Life.state, Life.state, hp, opsOf_skip rfl]
      have := countP_cons_le k.sites .notifier s.closed
      simp only [Life.remaining, hstate, hp, List.length_cons]
      omega
  | receive hl hr =>
    have hlt := hi.work_lt ho.wires hK (by simp) (step_receive hr)
    refine ⟨⟨hs.prog, hs.locals, hs.heads, hs.closed⟩, ht, ?_⟩
    simp only [Life.remaining]
    omega
  | advance hn =>
    have hlt := hi.work_lt ho.wires hK (by simp) (step_advance hn)
    refine ⟨⟨hs.prog, hs.locals, hs.heads, hs.closed⟩, ht, ?_⟩
    simp only [Life.remaining]
    omega
  | lose hcall hc => exact absurd hc (hopen.call _ _ _ _ hcall)
  | @leave thread index recvs c hthread hl hidle hc hq hh =>
    have hlt := countP_cons_lt (List.mem_range.mpr (List.getElem?_eq_some_iff.mp hthread).1) hl
    have hstate : Life.state { s with left := thread :: s.left } = s.state := rfl
    refine ⟨⟨hs.prog, hs.locals, hs.heads, hs.closed⟩, ht, ?_⟩
    simp only [Life.remaining, hstate]
    omega
  | @close c hc hclosed =>
    have hlt := countP_cons_lt (hi.ended_mem hc) hclosed
    have hstate : Life.state { s with closed := c :: s.closed } = s.state := rfl
    refine ⟨⟨hs.prog, hs.locals, hs.heads, ?_⟩, ht, ?_⟩
    · exact List.forall_mem_cons.mpr ⟨hi.ended_mem hc, hs.closed⟩
    · simp only [Life.remaining, hstate]
      omega
  | @drop c hc hdropped =>
    have hlt := countP_cons_lt (hi.ended_mem hc) hdropped
    have hstate : Life.state { s with dropped := c :: s.dropped } = s.state := rfl
    refine ⟨⟨hs.prog, hs.locals, hs.heads, hs.closed⟩, ht, ?_⟩
    simp only [Life.remaining, hstate]
    omega
  | @free c hc hfreed hh =>
    have hlt := countP_cons_lt (hs.closed c hc) hfreed
    have hstate : Life.state { s with freed := c :: s.freed } = s.state := rfl
    refine ⟨⟨hs.prog, hs.locals, hs.heads, hs.closed⟩, ht, ?_⟩
    simp only [Life.remaining, hstate]
    omega

theorem Life.Standing.fall (hs : s.Standing o k) (hp : s.prog = []) :
    Life.Falling k { s with prog := [.clear, .close .notifier], torn := true } := by
  obtain ⟨h, hh⟩ := hs.held
  have hlocals := hh.locals_end
  rw [hp] at hlocals
  refine ⟨List.suffix_rfl, hh.locals.symm.trans hlocals, fun hclear => ?_, by simp [hs.closed]⟩
  exact absurd List.mem_cons_self hclear

theorem Life.Tended.step (hs : s.Tended o k) (ho : o.Sound k send)
    (h : stepLife o k eager s e = some t) : t.Tended o k := by
  have hdoes := stepLife_does h
  have hreach := hdoes.reachable (hs.open ho) hs.reachable
  have hi := (hs.inv ho).1
  have hi' := (reaches_awaited ho.wires hreach).1
  refine ⟨hreach, ?_, ?_⟩
  · intro ht
    cases hst : s.torn with
    | false => exact (hs.standing hst).step ho hi hi' hdoes ht
    | true =>
      have := ((hs.falling hst).step ho hi (hs.open ho) hst hdoes).2.1
      simp [ht] at this
  · intro ht
    cases hst : s.torn with
    | false =>
      cases hdoes with
      | teardown hp htorn => exact (hs.standing hst).fall hp
      | _ => exact absurd (hst.symm.trans ht) (by simp)
    | true => exact ((hs.falling hst).step ho hi (hs.open ho) hst hdoes).1

theorem tended_birth (ho : o.Sound k send) : (birth o k).Tended o k := by
  refine ⟨?_, fun _ => standing_birth ho, fun h => by cases h⟩
  have : (birth o k).state = (system o.driver k).init := by
    change (⟨_, _, _, _, _⟩ : State) = ⟨_, _, _, _, _⟩
    rw [← ho.ops]
    rfl
  rw [this]
  exact .refl

theorem reaches_tended (ho : o.Sound k send) (h : (lifeSystem o k eager).Reachable s) : s.Tended o k :=
  System.Reaches.invariant h (tended_birth ho) fun _ _ _ hs _ hstep => hs.step ho hstep

theorem spawned_ne_nil (ho : o.Sound k send) {u : State} (h : (system o.driver k).Reachable u) :
    ∀ recvs, recvs ∈ u.threads ∨ .spawn recvs ∈ u.main → recvs ≠ [] := by
  apply System.Reaches.invariant (I := fun u => ∀ recvs, recvs ∈ u.threads ∨ .spawn recvs ∈ u.main →
    recvs ≠ []) h
  · intro recvs hr
    rcases hr with hr | hr
    · cases hr
    · exact ho.spawns recvs hr
  · intro u a v hu _ hstep recvs hr
    exact hu recvs (((step_does hstep).threads ho.wires recvs).mp hr)

theorem Life.Tended.stuck_left (hs : s.Tended o k) (ho : o.Sound k send) (ht : s.torn = true)
    (hstuck : ∀ e, stepLife o k eager s e = none) (thread : ℕ) : ¬ s.Live thread := by
  rintro ⟨hlt, hleft⟩
  have hi := (hs.inv ho).1
  have hthread := List.getElem?_eq_getElem hlt
  have hmem := List.mem_of_getElem? hthread
  obtain ⟨c, hc⟩ := List.exists_mem_of_ne_nil _ (spawned_ne_nil ho hs.reachable _ (.inl hmem))
  have hchan := hi.served_mem (.inl hmem) c hc
  have hholders := ((hs.falling ht).stuck_channel ho hi hstuck _ c hchan rfl).1
  exact hleft ((hs.falling ht).thread_left ho hi hstuck hthread hc hholders)

end Cascade

/-- Until the teardown no loop ends, and after the setup the senders are held as intended. From a
teardown on, whatever the order of steps and whenever a library frees its queues, all loops end, and
all data had been received before. -/
theorem teardown_cascades {o : TrackedDriver} (ho : o ∈ TrackedDriver.all) {k : Params} {eager : Bool}
    {s : Life} (h : (lifeSystem o k eager).Reachable s) :
    (s.torn = false → s.left = []) ∧
    (s.torn = false → s.SetUp → s.HandlesExact o.flavour k) ∧
    (s.torn = true →
      (∀ c ∈ k.channels, ∃ recvs ∈ s.threads, c ∈ recvs) ∧
      ((∃ thread, s.Live thread) → ∃ e t, stepLife o k eager s e = some t) ∧
      (∀ e t, stepLife o k eager s e = some t → t.remaining k < s.remaining k) ∧
      (∀ t, (lifeSystem o k eager).Reaches System.Anything s t →
        (lifeSystem o k eager).Stuck System.Anything t → ∀ thread, ¬ t.Live thread) ∧
      (∀ c ∈ k.sites, seqs (s.net.got c) = seqs (s.net.put c))) := by
  obtain ⟨send, hsound⟩ := TrackedDriver.sound_all k ho
  have hs := reaches_tended hsound h
  obtain ⟨hi, haw⟩ := hs.inv hsound
  refine ⟨fun ht => (hs.standing ht).left, fun ht => (hs.standing ht).exact hsound hi haw, ?_⟩
  intro ht
  have hfall := hs.falling ht
  refine ⟨?_, ?_, ?_, ?_, fun c hc => hi.received_all hsound.wires hfall.idle hc⟩
  · intro c hc
    obtain ⟨recvs, hr, hmem⟩ := hi.serves c hc
    exact ⟨recvs, hr.resolve_right (by simp [hfall.idle]), hmem⟩
  · rintro ⟨thread, hlive⟩
    by_contra hnone
    have hstuck : ∀ e, stepLife o k eager s e = none := by
      intro e
      by_contra hstep
      obtain ⟨t, he⟩ := Option.ne_none_iff_exists'.mp hstep
      exact hnone ⟨e, t, he⟩
    exact hs.stuck_left hsound ht hstuck thread hlive
  · exact fun e t he => (hfall.step hsound hi (hs.open hsound) ht (stepLife_does he)).2.2
  · intro t hst hstuck
    have htorn : t.torn = true := by
      apply (hst.invariant (I := fun t => t.Tended o k ∧ t.torn = true) ⟨hs, ht⟩ _).2
      rintro u e v ⟨hu, htu⟩ - he
      exact ⟨hu.step hsound he, ((hu.falling htu).step hsound (hu.inv hsound).1 (hu.open hsound) htu
        (stepLife_does he)).2.1⟩
    exact (reaches_tended hsound (h.trans hst)).stuck_left hsound htorn fun e => hstuck e trivial

def twoLanes : Params :=
  ⟨2, 2, 1, fun _ => 1, Nat.two_pos, Nat.two_pos, Nat.one_pos, fun _ => Nat.one_pos⟩

def afterSetup : Life :=
  ((lifeSystem .crossbeam twoLanes false).exec (fun _ _ => true) (birth .crossbeam twoLanes)
    (List.replicate 27 .main)).get rfl

theorem afterSetup_reachable : (lifeSystem .crossbeam twoLanes false).Reachable afterSetup :=
  System.Reaches.mono (fun _ _ _ => trivial) (System.exec_get _ _ _ _ rfl)

def afterLeaving : Life :=
  ((lifeSystem .crossbeam twoLanes false).exec (fun _ _ => true) afterSetup
    [.teardown, .main, .receive 1 0, .advance (.lane 0 1), .leave 1 0]).get rfl

theorem afterLeaving_reachable : (lifeSystem .crossbeam twoLanes false).Reachable afterLeaving :=
  afterSetup_reachable.trans
    (System.Reaches.mono (fun _ _ _ => trivial) (System.exec_get _ _ _ _ rfl))

theorem teardown_cascades_two :
    (afterSetup.prog = [] ∧ afterSetup.HandlesExact .crossbeamSender twoLanes) ∧
    (afterLeaving.left = [1] ∧
      afterLeaving.net.queue (.lane 1 1) = [.addSender (.crossbeamSender (.lane 1 2))] ∧
      ∀ t, (lifeSystem .crossbeam twoLanes false).Reaches System.Anything afterLeaving t →
        (lifeSystem .crossbeam twoLanes false).Stuck System.Anything t → ∀ thread, ¬ t.Live thread) := by
  have hall : TrackedDriver.crossbeam ∈ TrackedDriver.all := by simp [TrackedDriver.all]
  refine ⟨⟨rfl, (teardown_cascades hall afterSetup_reachable).2.1 rfl (.inl rfl)⟩, rfl, rfl, ?_⟩
  exact ((teardown_cascades hall afterLeaving_reachable).2.2 rfl).2.2.2.1

end ChannelExecutor.Experiment
