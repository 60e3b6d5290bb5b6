import ChannelExecutor.HandleOwners

set_option autoImplicit false

namespace ChannelExecutor.Experiment

open Lib (Call Net System)
open State

structure Life.Holds (o : TrackedDriver) (k : Params) (s : Life) (h : Held) : Prop where
  locals : h.locals = s.locals
  heads : h.heads = s.heads
  told : ∀ p ∈ h.told, p.2 ∈ s.net.put p.1
  runs : h.Runs k s.prog
  locals_end : (s.prog.foldl Held.after h).locals = []
  heads_end : (s.prog.foldl Held.after h).heads = (o.driver.setup k.pipelines k.lanes k.messages).1.heads
  served : ∀ recvs ∈ s.threads, ∀ c ∈ recvs, h.Has c

structure Life.Standing (o : TrackedDriver) (k : Params) (s : Life) : Prop where
  left : s.left = []
  closed : s.closed = []
  dropped : s.dropped = []
  freed : s.freed = []
  held : ∃ h, s.Holds o k h
  -- `run` leaves the handles of the main thread alone
  running : s.runs ≠ 0 → ∀ x ∈ s.prog, ∃ op, x = .op op

section Standing

variable {o : TrackedDriver} {k : Params} {send : Send} {eager : Bool} {s t : Life} {e : Event} {h : Held}

theorem mem_holders {place : Holder} {x : Sender} {c : Chan} (hx : (place, x) ∈ s.handles k)
    (hc : x.chan = c) : place ∈ s.holders k c :=
  List.mem_map.mpr ⟨(place, x), List.mem_filter.mpr ⟨hx, by simpa using hc⟩, rfl⟩

theorem Inv.handles_of_put {d : Driver} {flavour : Chan → Sender}
    (hi : Inv d k flavour (· ∈ k.channels) s.state) (hw : d.Wires k send flavour .block)
    (hdropped : s.dropped = []) (hfreed : s.freed = []) {c : Chan} {msg : Message} {x : Sender}
    (hmsg : msg ∈ s.net.put c) (hx : x ∈ msg.handles) : ∃ place, (place, x) ∈ s.handles k := by
  have hconfig : msg ∈ configs (s.net.put c) :=
    List.mem_filter.mpr ⟨hmsg, by simp [seq?_of_handles hx]⟩
  obtain ⟨hc, rfl⟩ : c ∈ k.channels ∧ msg = config flavour k c := by
    have hmem := (hi.told c).mem_iff.mp (List.mem_append_left _ hconfig)
    split at hmem
    next hc => exact ⟨hc, by simpa using hmem⟩
    next => cases hmem
  have hfifo : s.net.put c = s.net.got c ++ s.net.queue c := hi.sound.fifo c
  have hhandles : ∀ place, (place, x) ∈ s.queuedHandles c ++ s.ownHandles c → (place, x) ∈ s.handles k := by
    intro place hplace
    exact List.mem_append_right _ (List.mem_flatMap.mpr ⟨c, hc, hplace⟩)
  rcases List.mem_append.mp (hfifo ▸ hmsg) with hgot | hqueue
  · have hown : x ∈ (s.forwarder c).handles := by
      rw [hi.forwarder_handles hw hc, if_neg (List.ne_nil_of_mem hgot)]
      rwa [config_handles] at hx
    refine ⟨.forwarder c, hhandles _ (List.mem_append_right _ ?_)⟩
    rw [Life.ownHandles, hdropped, if_neg List.not_mem_nil]
    exact List.mem_map_of_mem (List.mem_append_left _ hown)
  · refine ⟨.queued c (config flavour k c), hhandles _ (List.mem_append_left _ ?_)⟩
    rw [Life.queuedHandles, hfreed, if_neg List.not_mem_nil]
    exact List.mem_flatMap.mpr ⟨_, hqueue, List.mem_map_of_mem hx⟩

theorem Life.Holds.has_holder (hh : s.Holds o k h) (ho : o.Sound k send)
    (hi : Inv o.driver k o.flavour (· ∈ k.channels) s.state) (hdropped : s.dropped = [])
    (hfreed : s.freed = []) {c : Chan} (hc : h.Has c) : s.holders k c ≠ [] := by
  obtain ⟨x, hxc, hx⟩ := hc
  obtain ⟨place, hplace⟩ : ∃ place, (place, x) ∈ s.handles k := by
    rcases hx with hx | hx | ⟨p, hp, hx⟩
    · refine ⟨.local, ?_⟩
      simp only [Life.handles, List.mem_append]
      exact .inl (.inl (.inl (.inl (List.mem_map_of_mem (hh.locals ▸ hx)))))
    · obtain ⟨l, hl⟩ := List.mem_iff_getElem?.mp (hh.heads ▸ hx)
      refine ⟨.head l, ?_⟩
      simp only [Life.handles, List.mem_append]
      refine .inl (.inl (.inl (.inr (List.mem_map.mpr ⟨(x, l), ?_, rfl⟩))))
      exact List.mem_zipIdx_iff_getElem?.mpr hl
    · exact hi.handles_of_put ho.wires hdropped hfreed (hh.told p hp) hx
  exact List.ne_nil_of_mem (mem_holders hplace hxc)

theorem Inv.served_mem {d : Driver} {flavour : Chan → Sender} {K : Chan → Prop} {u : State}
    (hi : Inv d k flavour K u) {recvs : List Chan}
    (h : recvs ∈ u.threads ∨ .spawn recvs ∈ u.main) : ∀ c ∈ recvs, c ∈ k.channels :=
  fun c hc => (hi.ranks recvs h c hc).1

theorem Life.Holds.next {x : Stmt} {rest : List Stmt} (hh : s.Holds o k h) (hp : s.prog = x :: rest)
    (hprog : t.prog = rest) (hlocals : t.locals = (h.after x).locals)
    (hheads : t.heads = (h.after x).heads) (hput : ∀ c, ∀ msg ∈ s.net.put c, msg ∈ t.net.put c)
    (htold : (h.after x).told = h.told)
    (hthreads : ∀ recvs ∈ t.threads, recvs ∈ s.threads ∨ x = .op (.spawn recvs))
    (hserved : ∀ recvs ∈ t.threads, ∀ c ∈ recvs, c ∈ k.channels) : t.Holds o k (h.after x) := by
  have hruns := hp ▸ hh.runs
  constructor
  case locals => exact hlocals.symm
  case heads => exact hheads.symm
  case told =>
    intro p hmem
    exact hput _ _ (hh.told p (htold ▸ hmem))
  case runs => exact hprog ▸ hruns.2
  case locals_end =>
    rw [hprog]
    have := hh.locals_end
    rwa [hp] at this
  case heads_end =>
    rw [hprog]
    have := hh.heads_end
    rwa [hp] at this
  case served =>
    intro recvs hr c hc
    have hhas : h.Has c := by
      rcases hthreads recvs hr with hr | rfl
      · exact hh.served recvs hr c hc
      · exact hruns.1 c hc
    exact hhas.after hruns.1 (hserved recvs hr c hc)

theorem Life.Holds.same (hh : s.Holds o k h) (hprog : t.prog = s.prog) (hlocals : t.locals = s.locals)
    (hheads : t.heads = s.heads) (hput : ∀ c, ∀ msg ∈ s.net.put c, msg ∈ t.net.put c)
    (hthreads : t.threads = s.threads) : t.Holds o k h := by
  constructor
  case locals => exact hh.locals.trans hlocals.symm
  case heads => exact hh.heads.trans hheads.symm
  case told => exact fun p hp => hput _ _ (hh.told p hp)
  case runs => exact hprog ▸ hh.runs
  case locals_end => exact hprog ▸ hh.locals_end
  case heads_end => exact hprog ▸ hh.heads_end
  case served => exact hthreads ▸ hh.served

theorem mem_put_push (n : Net Chan Message (Panic Chan) (Forwarder Chan)) (dst : Chan) (m : Message)
    (c : Chan) : ∀ msg ∈ n.put c, msg ∈ (n.push dst m).put c := by
  intro msg hmsg
  by_cases hc : c = dst
  · subst hc
    simp [Net.push, hmsg]
  · simpa [Net.push, hc] using hmsg

theorem Life.Holds.post {c : Chan} {msg : Message} {call : Sending Chan Unit} {rest : List Stmt}
    (hh : s.Holds o k h) (hp : s.prog = .op (.block (.send c msg call)) :: rest) :
    Life.Holds o k { s with net := s.net.push c msg, prog := .op (.block call) :: rest }
      { h with told := h.told ++ [(c, msg)] } := by
  have hruns := hp ▸ hh.runs
  have hafter : Held.after { h with told := h.told ++ [(c, msg)] } (.op (.block call)) =
      h.after (.op (.block (.send c msg call))) := by
    simp [Held.after]
  constructor
  case locals => exact hh.locals
  case heads => exact hh.heads
  case told =>
    intro p hmem
    rcases List.mem_append.mp hmem with hmem | hmem
    · exact mem_put_push _ _ _ _ _ (hh.told p hmem)
    · rw [List.mem_singleton.mp hmem]
      simp [Net.push]
  case runs => exact ⟨trivial, hafter ▸ hruns.2⟩
  case locals_end =>
    have := hh.locals_end
    rw [hp, List.foldl_cons] at this
    rwa [List.foldl_cons, hafter]
  case heads_end =>
    have := hh.heads_end
    rw [hp, List.foldl_cons] at this
    rwa [List.foldl_cons, hafter]
  case served =>
    intro recvs hr c' hc'
    obtain ⟨x, hx, hh⟩ := hh.served recvs hr c' hc'
    exact ⟨x, hx, hh.imp id fun hh => hh.tell _ _⟩

theorem put_take (n : Net Chan Message (Panic Chan) (Forwarder Chan)) {c : Chan}
    {net : Net Chan Message (Panic Chan) (Forwarder Chan)} (h : n.take c = some net) :
    net.put = n.put := by
  obtain ⟨msg, rest, -, rfl⟩ := Net.take_cases h
  rfl

theorem put_receive (k : Params) {d : Driver} {u v : State} {thread index : ℕ}
    (h : stepReceive d u thread index = some v) : v.net.put = u.net.put := by
  cases stepReceive_does (k := k) h with
  | accept ht hidle hc hn =>
    obtain ⟨msg, rest, -, -, rfl⟩ := Net.accept_cases hn
    rfl

theorem mem_put_advance {n net : Net Chan Message (Panic Chan) (Forwarder Chan)} {c : Chan}
    (h : n.advance k.capacity c = some net) (c' : Chan) : ∀ msg ∈ n.put c', msg ∈ net.put c' := by
  obtain ⟨dst, msg, rest, -, -, rfl⟩ | ⟨b, -, rfl⟩ := Net.advance_cases h
  · exact mem_put_push n dst msg c'
  · exact fun _ hmsg => hmsg

theorem Life.Standing.held_step (hs : s.Standing o k) (ho : o.Sound k send)
    (hi' : Inv o.driver k o.flavour (· ∈ k.channels) t.state) (hdoes : s.Does o k eager e t)
    (ht : t.torn = false) : ∃ h, t.Holds o k h := by
  obtain ⟨h, hh⟩ := hs.held
  have hserved : ∀ recvs ∈ t.threads, ∀ c ∈ recvs, c ∈ k.channels :=
    fun recvs hr => hi'.served_mem (.inl hr)
  cases hdoes with
  | spawn hp =>
    refine ⟨_, hh.next hp rfl hh.locals.symm hh.heads.symm (fun _ _ hm => hm) (by simp [Held.after])
      ?_ hserved⟩
    intro recvs hr
    rcases List.mem_append.mp hr with hr | hr
    · exact .inl hr
    · exact .inr (by rw [List.mem_singleton.mp hr])
  | sent hp =>
    exact ⟨_, hh.next hp rfl hh.locals.symm hh.heads.symm (fun _ _ hm => hm) (by simp [Held.after])
      (fun _ hr => .inl hr) hserved⟩
  | send hp hroom => exact ⟨_, hh.post hp⟩
  | refuse hp hc =>
    rw [hs.closed] at hc
    cases hc
  | recv hp hn =>
    refine ⟨_, hh.next hp rfl hh.locals.symm hh.heads.symm ?_ (by simp [Held.after])
      (fun _ hr => .inl hr) hserved⟩
    rw [put_take _ hn]
    exact fun _ _ hm => hm
  | create hp =>
    exact ⟨_, hh.next hp rfl (by rw [← hh.locals]; rfl) hh.heads.symm (fun _ _ hm => hm) rfl
      (fun _ hr => .inl hr) hserved⟩
  | keep hp =>
    exact ⟨_, hh.next hp rfl hh.locals.symm (by rw [← hh.heads]; rfl) (fun _ _ hm => hm) rfl
      (fun _ hr => .inl hr) hserved⟩
  | pass hp =>
    exact ⟨_, hh.next hp rfl (by rw [← hh.locals]; rfl) hh.heads.symm (fun _ _ hm => hm) rfl
      (fun _ hr => .inl hr) hserved⟩
  -- these statements come with the teardown
  | clear hp hheads => exact absurd (hp ▸ hh.runs).1 id
  | cleared hp hheads => exact absurd (hp ▸ hh.runs).1 id
  | shut hp => exact absurd (hp ▸ hh.runs).1 id
  | run hp htorn =>
    have hlocals := hh.locals_end
    have hheads := hh.heads_end
    rw [hp] at hlocals hheads
    refine ⟨h, hh.locals, hh.heads, hh.told, ?_, ?_, ?_, hh.served⟩
    · rw [ho.wires.run]
      exact ⟨trivial, trivial, trivial⟩
    · rw [ho.wires.run]
      exact hlocals
    · rw [ho.wires.run]
      exact hheads
  | teardown hp htorn => cases ht
  | receive hl hr =>
    refine ⟨h, hh.same rfl rfl rfl ?_ rfl⟩
    rw [put_receive k hr]
    exact fun _ _ hm => hm
  | advance hn => exact ⟨h, hh.same rfl rfl rfl (mem_put_advance hn) rfl⟩
  | lose hcall hc =>
    rw [hs.closed] at hc
    cases hc
  | leave => exact ⟨h, hh.same rfl rfl rfl (fun _ _ hm => hm) rfl⟩
  | close => exact ⟨h, hh.same rfl rfl rfl (fun _ _ hm => hm) rfl⟩
  | drop => exact ⟨h, hh.same rfl rfl rfl (fun _ _ hm => hm) rfl⟩
  | free => exact ⟨h, hh.same rfl rfl rfl (fun _ _ hm => hm) rfl⟩

theorem Life.Standing.running_step (hs : s.Standing o k) (hdoes : s.Does o k eager e t)
    (ht : t.torn = false) : t.runs ≠ 0 → ∀ x ∈ t.prog, ∃ op, x = .op op := by
  have htail : ∀ {x rest}, s.prog = x :: rest → s.runs ≠ 0 → ∀ y ∈ rest, ∃ op, y = .op op :=
    fun hp hr y hy => hs.running hr y (by simp [hp, hy])
  cases hdoes with
  | spawn hp => exact htail hp
  | sent hp => exact htail hp
  | send hp hroom => exact fun hr => List.forall_mem_cons.mpr ⟨⟨_, rfl⟩, htail hp hr⟩
  | refuse hp hc => exact fun hr => List.forall_mem_cons.mpr ⟨⟨_, rfl⟩, htail hp hr⟩
  | recv hp hn => exact htail hp
  | create hp => exact htail hp
  | keep hp => exact htail hp
  | pass hp => exact htail hp
  | clear hp hheads => exact hs.running
  | cleared hp hheads => exact htail hp
  | shut hp => exact htail hp
  | run hp htorn =>
    intro _ x hx
    obtain ⟨op, -, rfl⟩ := List.mem_map.mp hx
    exact ⟨op, rfl⟩
  | teardown hp htorn => cases ht
  | receive => exact hs.running
  | advance => exact hs.running
  | lose => exact hs.running
  | leave => exact hs.running
  | close => exact hs.running
  | drop => exact hs.running
  | free => exact hs.running

theorem Life.Standing.step (hs : s.Standing o k) (ho : o.Sound k send)
    (hi : Inv o.driver k o.flavour (· ∈ k.channels) s.state)
    (hi' : Inv o.driver k o.flavour (· ∈ k.channels) t.state) (hdoes : s.Does o k eager e t)
    (ht : t.torn = false) : t.Standing o k := by
  have hheld := hs.held_step ho hi' hdoes ht
  have hrunning := hs.running_step hdoes ht
  have hended : ∀ c, ¬ s.Ended c := by
    rintro c ⟨thread, hthread, -⟩
    rw [hs.left] at hthread
    cases hthread
  obtain ⟨h, hh⟩ := hs.held
  cases hdoes with
  | leave hthread hl hidle hc hq hnone =>
    have hhas := hh.served _ (List.mem_of_getElem? hthread) _ (List.mem_of_getElem? hc)
    exact absurd hnone (hh.has_holder ho hi hs.dropped hs.freed hhas)
  | close hc hclosed => exact absurd hc (hended _)
  | drop hc hdropped => exact absurd hc (hended _)
  | free hc hfreed hnone =>
    rw [hs.closed] at hc
    cases hc
  | shut hp => exact absurd (hp ▸ hh.runs).1 id
  | _ => exact ⟨hs.left, hs.closed, hs.dropped, hs.freed, hheld, hrunning⟩

theorem standing_birth (ho : o.Sound k send) : (birth o k).Standing o k := by
  refine ⟨rfl, rfl, rfl, rfl, ⟨.nothing, rfl, rfl, ?_, ho.runs, ho.locals, ho.heads, ?_⟩, ?_⟩
  · intro p hp
    cases hp
  · intro recvs hr
    cases hr
  · exact fun hr => absurd rfl hr

theorem Held.foldl_ops {prog : List Stmt} (hprog : ∀ x ∈ prog, ∃ op, x = .op op) (h : Held) :
    (prog.foldl after h).locals = h.locals ∧ (prog.foldl after h).heads = h.heads := by
  induction prog generalizing h with
  | nil => exact ⟨rfl, rfl⟩
  | cons x prog ih =>
    obtain ⟨op, rfl⟩ := hprog x List.mem_cons_self
    exact ih (fun y hy => hprog y (List.mem_cons_of_mem _ hy)) (h.after (.op op))

theorem Life.Standing.exact (hs : s.Standing o k) (ho : o.Sound k send)
    (hi : Inv o.driver k o.flavour (· ∈ k.channels) s.state) (haw : Awaited s.state)
    (hset : s.SetUp) : s.HandlesExact o.flavour k := by
  obtain ⟨h, hh⟩ := hs.held
  have hops : ∀ x ∈ s.prog, ∃ op, x = .op op := by
    rcases hset with hp | hr
    · simp [hp]
    · exact hs.running hr
  obtain ⟨hlocals, hheads⟩ := Held.foldl_ops hops h
  have hpending : ∀ c, configs (addressed c s.state.pending) = [] := by
    rcases hset with hp | hr
    · intro c
      simp [State.pending, scripts, Life.state, hp]
    · exact haw.early hr
  apply hi.handlesExact ho.wires ho.flavour hpending
  · rw [← hh.locals, ← hlocals, hh.locals_end]
  · rw [← hh.heads, ← hheads, hh.heads_end, ho.heads_eq]
  · exact hs.freed
  · exact hs.dropped

end Standing

end ChannelExecutor.Experiment
