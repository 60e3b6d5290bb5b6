import ChannelExecutor.HandleSteps

set_option autoImplicit false

namespace ChannelExecutor.Experiment

open Lib (Call)

structure Held where
  locals : List Sender
  heads : List Sender
  told : List (Chan × Message)

namespace Held

def nothing : Held := ⟨[], [], []⟩

def after (h : Held) : Stmt → Held
  | .op o => { h with told := h.told ++ o.sends }
  | .create x => { h with locals := x :: h.locals }
  | .keep x => { h with heads := h.heads ++ [x] }
  | .leave x => { h with locals := h.locals.erase x }
  | .clear => { h with heads := [] }
  | .close _ => h

def Outside (h : Held) (x : Sender) : Prop := x ∈ h.heads ∨ ∃ p ∈ h.told, x ∈ p.2.handles

def Has (h : Held) (c : Chan) : Prop := ∃ x : Sender, x.chan = c ∧ (x ∈ h.locals ∨ h.Outside x)

def Allows (k : Params) (h : Held) : Stmt → Prop
  | .leave x => x.chan ∈ k.channels → h.Outside x
  | .op (.spawn recvs) => ∀ c ∈ recvs, h.Has c
  -- these come with the teardown
  | .clear => False
  | .close _ => False
  | _ => True

def Runs (k : Params) (h : Held) : List Stmt → Prop
  | [] => True
  | x :: prog => h.Allows k x ∧ (h.after x).Runs k prog

variable {k : Params} {h : Held}

theorem runs_append {prog prog' : List Stmt} :
    h.Runs k (prog ++ prog') ↔ h.Runs k prog ∧ (prog.foldl after h).Runs k prog' := by
  induction prog generalizing h with
  | nil => simp [Runs]
  | cons x prog ih => simp [Runs, ih, and_assoc]

theorem Outside.keep {x : Sender} (hx : h.Outside x) (locals more : List Sender) :
    Outside ⟨locals, h.heads ++ more, h.told⟩ x :=
  hx.imp (List.mem_append_left _) id

theorem Outside.tell {x : Sender} (hx : h.Outside x) (locals : List Sender)
    (more : List (Chan × Message)) : Outside ⟨locals, h.heads, h.told ++ more⟩ x := by
  rcases hx with hx | ⟨p, hp, hx⟩
  · exact .inl hx
  · exact .inr ⟨p, List.mem_append_left _ hp, hx⟩

theorem Has.after {x : Stmt} {c : Chan} (hc : h.Has c) (hx : h.Allows k x) (hk : c ∈ k.channels) :
    (h.after x).Has c := by
  obtain ⟨y, rfl, hy⟩ := hc
  refine ⟨y, rfl, ?_⟩
  cases x with
  | op o => exact hy.imp id fun hy => hy.tell _ _
  | create x => exact hy.imp (List.mem_cons_of_mem _) id
  | keep x => exact hy.imp id fun hy => hy.keep _ _
  | leave x =>
    by_cases hxy : x = y
    · subst hxy
      exact .inr (hx hk)
    · exact hy.imp (fun hy => (List.mem_erase_of_ne (Ne.symm hxy)).mpr hy) id
  | clear => cases hx
  | close c => cases hx

def tellThenLeave (c : Chan) (msg : Message) (x : Sender) : List Stmt :=
  [.op (.block (.send c msg (.done ()))), .leave x]

theorem foldl_tellThenLeave (h : Held) (c : Chan) (msg : Message) (x : Sender) :
    (tellThenLeave c msg x).foldl after h = ⟨h.locals.erase x, h.heads, h.told ++ [(c, msg)]⟩ := rfl

theorem Outside.runs_tellThenLeave {x : Sender} (hx : h.Outside x) (c : Chan) (msg : Message) :
    h.Runs k (tellThenLeave c msg x) :=
  ⟨trivial, fun _ => hx.tell _ _, trivial⟩

end Held

namespace Tracking

def held (t : Tracking) : Held := t.prog.foldl Held.after .nothing

structure Along (k : Params) (flavour : Chan → Sender) (t : Tracking) (b : Building) : Prop where
  ops : opsOf t.prog = b.ops
  heads : t.held.heads = b.heads
  recvs : t.recvs = b.recvs
  runs : Held.nothing.Runs k t.prog
  locals : t.held.locals = t.prev.toList ++ [flavour .concentrator]
  prev : ∀ x, t.prev = some x → t.held.Outside x
  rows : ∀ own ∈ t.recvs, ∀ c ∈ own, t.held.Outside (flavour c)

section Loops

variable {k : Params} {flavour : Chan → Sender} {post : Sender → Message → Op}
variable {connect : Chan → Tracking → Tracking} {connect' : Chan → Building → Building}
variable {task : Chan → List Stmt} {keep : List (List Chan) → Chan → List (List Chan)}

structure Connects (connect : Chan → Tracking → Tracking) (connect' : Chan → Building → Building)
    (task : Chan → List Stmt) (keep : List (List Chan) → Chan → List (List Chan)) : Prop where
  tracked : ∀ c t, connect c t = { t with prog := t.prog ++ task c, recvs := keep t.recvs c }
  plain : ∀ c b, connect' c b = { b with ops := b.ops ++ opsOf (task c), recvs := keep b.recvs c }
  task_cases : ∀ c, task c = [] ∨ task c = [.op (.spawn [c])]
  keep_mem : ∀ rows c, ∀ own ∈ keep rows c, ∀ c' ∈ own, c' = c ∨ ∃ own' ∈ rows, c' ∈ own'

theorem Connects.held (h : Connects connect connect' task keep) (c : Chan) (e : Held) :
    (task c).foldl Held.after e = e := by
  rcases h.task_cases c with ht | ht
  · rw [ht]
    rfl
  · simp [ht, Held.after]

theorem Connects.runs (h : Connects connect connect' task keep) {c : Chan} {e : Held} {x : Sender}
    (hx : x.chan = c) (hl : x ∈ e.locals) : e.Runs k (task c) := by
  rcases h.task_cases c with ht | ht
  · rw [ht]
    trivial
  · rw [ht]
    refine ⟨?_, trivial⟩
    intro c' hc'
    rw [List.mem_singleton.mp hc']
    exact ⟨x, hx, .inl hl⟩

theorem Connects.opened (h : Connects connect connect' task keep) {c : Chan} {x : Sender}
    (hx : x.chan = c) (e : Held) :
    (.create x :: task c).foldl Held.after e = { e with locals := x :: e.locals } ∧
      e.Runs k (.create x :: task c) ∧ opsOf (.create x :: task c) = opsOf (task c) :=
  ⟨h.held c _, ⟨trivial, h.runs hx List.mem_cons_self⟩, opsOf_skip rfl _⟩

theorem Connects.rows_cases (h : Connects connect connect' task keep) (rows : List (List Chan))
    (c : Chan) : ∀ own ∈ keep rows c, ∀ c' ∈ own,
      some (flavour c) = some (flavour c') ∨ ∃ own' ∈ rows, c' ∈ own' := by
  intro own hown c' hc'
  rcases h.keep_mem rows c own hown c' hc' with rfl | hold
  · exact .inl rfl
  · exact .inr hold

theorem Along.extend {t : Tracking} {b : Building} (h : Along k flavour t b) {more : List Stmt}
    (prev prev' : Option Sender) (heads : List Sender) (told : List (Chan × Message))
    (recvs : List (List Chan)) (hruns : t.held.Runs k more)
    (hheld : more.foldl Held.after t.held =
      ⟨prev.toList ++ [flavour .concentrator], t.held.heads ++ heads, t.held.told ++ told⟩)
    (hprev : ∀ x, prev = some x → x ∈ heads ∨ ∃ p ∈ told, x ∈ p.2.handles)
    (hrecvs : ∀ own ∈ recvs, ∀ c ∈ own, prev = some (flavour c) ∨ ∃ own' ∈ t.recvs, c ∈ own') :
    Along k flavour ⟨t.prog ++ more, prev, recvs⟩
      ⟨b.ops ++ opsOf more, b.heads ++ heads, prev', recvs⟩ := by
  have hend : (⟨t.prog ++ more, prev, recvs⟩ : Tracking).held =
      ⟨prev.toList ++ [flavour .concentrator], t.held.heads ++ heads, t.held.told ++ told⟩ := by
    rw [← hheld, held, List.foldl_append]
    rfl
  have hnew : ∀ x, prev = some x → Held.Outside
      ⟨prev.toList ++ [flavour .concentrator], t.held.heads ++ heads, t.held.told ++ told⟩ x := by
    intro x hx
    rcases hprev x hx with hx | ⟨p, hp, hx⟩
    · exact .inl (List.mem_append_right _ hx)
    · exact .inr ⟨p, List.mem_append_right _ hp, hx⟩
  constructor
  case ops => rw [opsOf_append, h.ops]
  case heads => rw [hend, h.heads]
  case recvs => rfl
  case runs => exact Held.runs_append.mpr ⟨h.runs, hruns⟩
  case locals => rw [hend]
  case prev =>
    rw [hend]
    exact hnew
  case rows =>
    rw [hend]
    intro own hown c hc
    rcases hrecvs own hown c hc with hx | ⟨own', hown', hc'⟩
    · exact hnew _ hx
    · have hold := h.rows own' hown' c hc'
      exact (hold.keep t.held.locals heads).tell _ told

theorem Along.first {t : Tracking} {b : Building} (h : Along k flavour t b)
    (hconnect : Connects connect connect' task keep) (hflavour : ∀ c, (flavour c).chan = c)
    (hnone : t.prev = none) (c : Chan) (prev' : Option Sender) :
    Along k flavour
      ⟨t.prog ++ (.create (flavour c) :: task c ++ [.keep (flavour c)]), some (flavour c),
        keep t.recvs c⟩
      ⟨b.ops ++ opsOf (task c), b.heads ++ [flavour c], prev', keep b.recvs c⟩ := by
  obtain ⟨hheld, hruns, hops⟩ := hconnect.opened (hflavour c) t.held
  have hlocals : t.held.locals = [flavour .concentrator] := by rw [h.locals, hnone]; rfl
  have hend : (.create (flavour c) :: task c ++ [Stmt.keep (flavour c)]).foldl Held.after t.held =
      ⟨[flavour c, flavour .concentrator], t.held.heads ++ [flavour c], t.held.told ++ []⟩ := by
    rw [List.foldl_append, hheld, hlocals, List.append_nil]
    rfl
  have hruns' : t.held.Runs k (.create (flavour c) :: task c ++ [.keep (flavour c)]) :=
    Held.runs_append.mpr ⟨hruns, trivial, trivial⟩
  have hall := h.extend (some (flavour c)) prev' [flavour c] [] (keep t.recvs c) hruns' hend
    (by simp) (hconnect.rows_cases t.recvs c)
  rw [opsOf_append, hops, opsOf_skip rfl, opsOf_nil, List.append_nil] at hall
  rw [← h.recvs]
  exact hall

theorem Along.next {t : Tracking} {b : Building} (h : Along k flavour t b)
    (hconnect : Connects connect connect' task keep) (hflavour : ∀ c, (flavour c).chan = c)
    {c d : Chan} (hsome : t.prev = some (flavour d)) (hcd : c ≠ d) (prev' : Option Sender) :
    Along k flavour
      ⟨t.prog ++ (.create (flavour c) :: task c ++
        Held.tellThenLeave d (.addSender (flavour c)) (flavour d)), some (flavour c), keep t.recvs c⟩
      ⟨b.ops ++ opsOf (task c) ++ [.block (.send d (.addSender (flavour c)) (.done ()))], b.heads,
        prev', keep b.recvs c⟩ := by
  obtain ⟨hheld, hruns, hops⟩ := hconnect.opened (hflavour c) t.held
  have hlocals : t.held.locals = [flavour d, flavour .concentrator] := by rw [h.locals, hsome]; rfl
  have hne : flavour c ≠ flavour d := by
    intro he
    have hchan := congrArg TestMessageSender.chan he
    exact hcd (by rwa [hflavour, hflavour] at hchan)
  have hout : Held.Outside { t.held with locals := flavour c :: t.held.locals } (flavour d) :=
    h.prev _ hsome
  have hend : (.create (flavour c) :: task c ++
      Held.tellThenLeave d (.addSender (flavour c)) (flavour d)).foldl Held.after t.held =
      ⟨[flavour c, flavour .concentrator], t.held.heads ++ [],
        t.held.told ++ [(d, .addSender (flavour c))]⟩ := by
    rw [List.foldl_append, hheld, hlocals, Held.foldl_tellThenLeave, List.append_nil]
    simp [hne]
  have hruns' : t.held.Runs k (.create (flavour c) :: task c ++
      Held.tellThenLeave d (.addSender (flavour c)) (flavour d)) := by
    refine Held.runs_append.mpr ⟨hruns, ?_⟩
    rw [hheld]
    exact hout.runs_tellThenLeave _ _
  have hall := h.extend (some (flavour c)) prev' [] [(d, .addSender (flavour c))] (keep t.recvs c)
    hruns' hend (by simp [TestMessage.handles]) (hconnect.rows_cases t.recvs c)
  rw [opsOf_append, hops, List.append_nil] at hall
  rw [List.append_assoc b.ops, ← h.recvs]
  exact hall

theorem Along.element {t : Tracking} {b : Building} (h : Along k flavour t b)
    (hconnect : Connects connect connect' task keep) (hpost : Posts flavour post .block)
    (hflavour : ∀ c, (flavour c).chan = c) {l i : ℕ} (hprev : t.prev = b.prev)
    (hlast : t.prev = none ∨ ∃ j, t.prev = some (flavour (.lane l j)) ∧ j ≠ i) :
    Along k flavour (Tracking.element flavour post connect l t i)
      (Experiment.element flavour post connect' l b i) ∧
    (Tracking.element flavour post connect l t i).prev = some (flavour (.lane l i)) ∧
    (Experiment.element flavour post connect' l b i).prev = some (flavour (.lane l i)) := by
  rcases hlast with hnone | ⟨j, hsome, hji⟩
  · have hnone' : b.prev = none := hprev ▸ hnone
    have hfirst := h.first hconnect hflavour hnone (.lane l i) (some (flavour (.lane l i)))
    simp only [Tracking.element, Experiment.element, hconnect.tracked, hconnect.plain, hnone, hnone',
      and_self, and_true]
    simpa using hfirst
  · have hsome' : b.prev = some (flavour (.lane l j)) := hprev ▸ hsome
    have hlane : Chan.lane l i ≠ .lane l j := fun he => hji (Chan.lane.inj he).2.symm
    have hnext := h.next hconnect hflavour hsome hlane (some (flavour (.lane l i)))
    simp only [Tracking.element, Experiment.element, hconnect.tracked, hconnect.plain, hsome, hsome',
      and_self, and_true, hpost.2]
    simpa [Held.tellThenLeave] using hnext

theorem Along.elements {t : Tracking} {b : Building} (h : Along k flavour t b)
    (hconnect : Connects connect connect' task keep) (hpost : Posts flavour post .block)
    (hflavour : ∀ c, (flavour c).chan = c) (l : ℕ) (ht : t.prev = none) (hb : b.prev = none) (n : ℕ) :
    let t' := (List.range' 1 n).foldl (Tracking.element flavour post connect l) t
    let b' := (List.range' 1 n).foldl (Experiment.element flavour post connect' l) b
    Along k flavour t' b' ∧ t'.prev = b'.prev ∧
      t'.prev = if n = 0 then none else some (flavour (.lane l n)) := by
  induction n with
  | zero => exact ⟨h, ht.trans hb.symm, ht⟩
  | succ n ih =>
    obtain ⟨hn, hprev, hlast⟩ := ih
    simp only [List.range'_1_concat, List.foldl_append, List.foldl_cons, List.foldl_nil]
    obtain ⟨hnew, htp, hbp⟩ := hn.element (l := l) (i := 1 + n) hconnect hpost hflavour hprev (by
      rw [hlast]
      split
      · exact .inl rfl
      · exact .inr ⟨n, rfl, by omega⟩)
    exact ⟨hnew, htp.trans hbp.symm, by rw [htp, Nat.add_comm]; rfl⟩

theorem Along.addLane {t : Tracking} {b : Building} (h : Along k flavour t b)
    (hconnect : Connects connect connect' task keep) (hpost : Posts flavour post .block)
    (hflavour : ∀ c, (flavour c).chan = c) (ht : t.prev = none) (l : ℕ) :
    let t' := Tracking.addLane flavour post connect k.pipelines k.messages t l
    Along k flavour t' (Experiment.addLane flavour post connect' k.pipelines k.messages b l) ∧
      t'.prev = none ∧ t'.held.Outside (flavour .concentrator) := by
  have hstart : Along k flavour { t with prev := none } { b with prev := none } := by
    rw [← ht]
    exact ⟨h.ops, h.heads, h.recvs, h.runs, h.locals, h.prev, h.rows⟩
  obtain ⟨hlane, hprev, hlast⟩ := hstart.elements hconnect hpost hflavour l rfl rfl k.pipelines
  rw [if_neg (Nat.ne_of_gt k.pipelines_pos)] at hlast
  have hlast' := hprev.symm.trans hlast
  simp only [Tracking.addLane, Experiment.addLane, hlast, hlast', hpost.2]
  generalize (List.range' 1 k.pipelines).foldl (Tracking.element flavour post connect l)
    { t with prev := none } = u at *
  have hend : (Held.tellThenLeave (.lane l k.pipelines) (.notify (flavour .concentrator) k.messages)
      (flavour (.lane l k.pipelines))).foldl Held.after u.held = ⟨[flavour .concentrator],
        u.held.heads ++ [],
        u.held.told ++ [(.lane l k.pipelines, .notify (flavour .concentrator) k.messages)]⟩ := by
    rw [Held.foldl_tellThenLeave, hlane.locals, hlast, List.append_nil]
    simp
  have hall := hlane.extend none (some (flavour (.lane l k.pipelines))) [] _ u.recvs
    (Held.Outside.runs_tellThenLeave (hlane.prev _ hlast) _ _) hend (by simp)
    fun own hown c hc => .inr ⟨own, hown, hc⟩
  refine ⟨?_, trivial, ?_⟩
  · rw [List.append_nil, hlane.recvs] at hall
    exact hlane.recvs ▸ hall
  · rw [held, List.foldl_append]
    change Held.Outside ((Held.tellThenLeave _ _ _).foldl Held.after u.held) _
    rw [hend]
    exact .inr ⟨_, List.mem_append_right _ (List.mem_singleton.mpr rfl), List.mem_singleton.mpr rfl⟩

theorem Along.lanes {t : Tracking} {b : Building} (h : Along k flavour t b)
    (hconnect : Connects connect connect' task keep) (hpost : Posts flavour post .block)
    (hflavour : ∀ c, (flavour c).chan = c) (ht : t.prev = none) (n : ℕ) :
    let t' := (List.range n).foldl (Tracking.addLane flavour post connect k.pipelines k.messages) t
    Along k flavour t' ((List.range n).foldl
        (Experiment.addLane flavour post connect' k.pipelines k.messages) b) ∧
      t'.prev = none ∧ (0 < n → t'.held.Outside (flavour .concentrator)) := by
  induction n with
  | zero => exact ⟨h, ht, fun hn => absurd hn (Nat.lt_irrefl 0)⟩
  | succ n ih =>
    obtain ⟨hn, hprev, -⟩ := ih
    simp only [List.range_succ, List.foldl_append, List.foldl_cons, List.foldl_nil]
    obtain ⟨hlane, hnone, hout⟩ := hn.addLane hconnect hpost hflavour hprev n
    exact ⟨hlane, hnone, fun _ => hout⟩

theorem Along.start (k : Params) (hflavour : ∀ c, (flavour c).chan = c) {recvs : List (List Chan)}
    (hrecvs : ∀ own ∈ recvs, own = []) :
    Along k flavour ⟨[.create (flavour .concentrator), .op (.spawn [.concentrator])], none, recvs⟩
      ⟨[.spawn [.concentrator]], [], none, recvs⟩ := by
  constructor
  case ops => rfl
  case heads => rfl
  case recvs => rfl
  case runs =>
    refine ⟨trivial, ?_, trivial⟩
    intro c hc
    rw [List.mem_singleton.mp hc]
    exact ⟨flavour .concentrator, hflavour _, .inl List.mem_cons_self⟩
  case locals => rfl
  case prev => simp
  case rows =>
    intro own hown c hc
    simp [hrecvs own hown] at hc

theorem Along.spawns {t : Tracking} {b : Building} (h : Along k flavour t b)
    (hflavour : ∀ c, (flavour c).chan = c) {rows : List (List Chan)} (hrows : ∀ own ∈ rows, own ∈ t.recvs) :
    t.held.Runs k ((rows.map .spawn).map .op) ∧
      ((rows.map .spawn).map Stmt.op).foldl Held.after t.held = t.held := by
  induction rows with
  | nil => exact ⟨trivial, rfl⟩
  | cons own rows ih =>
    have hafter : t.held.after (.op (.spawn own)) = t.held := by simp [Held.after]
    obtain ⟨hruns, hheld⟩ := ih fun own' h' => hrows own' (List.mem_cons_of_mem _ h')
    simp only [List.map_cons, List.foldl_cons, Held.Runs, hafter]
    refine ⟨⟨?_, hruns⟩, hheld⟩
    intro c hc
    exact ⟨flavour c, hflavour c, .inr (h.rows own (hrows own List.mem_cons_self) c hc)⟩

theorem setupWith_sound (hconnect : Connects connect connect' task keep)
    (hpost : Posts flavour post .block) (hflavour : ∀ c, (flavour c).chan = c)
    {recvs : List (List Chan)} (hrecvs : ∀ own ∈ recvs, own = []) {launch : Tracking → List Stmt}
    {spawned : List (List Chan) → List (List Chan)} (hspawned : ∀ rows, ∀ own ∈ spawned rows, own ∈ rows)
    (hlaunch : ∀ t : Tracking, launch t = ((spawned t.recvs).map .spawn).map .op) :
    let b := (List.range k.lanes).foldl
      (Experiment.addLane flavour post connect' k.pipelines k.messages)
      ⟨[.spawn [.concentrator]], [], none, recvs⟩
    let prog := setupWith flavour post connect launch recvs k.pipelines k.lanes k.messages
    opsOf prog = b.ops ++ (spawned b.recvs).map .spawn ++
      [post (flavour .concentrator) (.notify (flavour .notifier) k.lanes)] ∧
    Held.nothing.Runs k prog ∧ (prog.foldl Held.after .nothing).locals = [] ∧
    (prog.foldl Held.after .nothing).heads = b.heads := by
  intro b prog
  obtain ⟨h, hprev, hout⟩ := (Along.start k hflavour hrecvs).lanes hconnect hpost hflavour rfl k.lanes
  have hout := hout k.lanes_pos
  have hprog : prog = ((List.range k.lanes).foldl
      (Tracking.addLane flavour post connect k.pipelines k.messages) _).prog ++ launch _ ++ _ := rfl
  rw [hlaunch] at hprog
  generalize (List.range k.lanes).foldl
    (Tracking.addLane flavour post connect k.pipelines k.messages) _ = t at *
  have hlocals : t.held.locals = [flavour .concentrator] := by rw [h.locals, hprev]; rfl
  obtain ⟨hspawns, hheld⟩ := h.spawns hflavour (hspawned t.recvs)
  have hmid : (t.prog ++ ((spawned t.recvs).map .spawn).map Stmt.op).foldl Held.after .nothing =
      t.held := by
    rw [List.foldl_append]
    exact hheld
  have hend : prog.foldl Held.after .nothing = ⟨[], t.held.heads, t.held.told ++
      (post (flavour .concentrator) (.notify (flavour .notifier) k.lanes)).sends⟩ := by
    rw [hprog, List.foldl_append, hmid]
    simp [Held.after, hlocals]
  refine ⟨?_, ?_, by rw [hend], by rw [hend, h.heads]⟩
  · rw [hprog, opsOf_append, opsOf_append, opsOf_map, h.ops, h.recvs]
    rfl
  · rw [hprog]
    refine Held.runs_append.mpr ⟨Held.runs_append.mpr ⟨h.runs, hspawns⟩, ?_⟩
    rw [hmid, hpost.2]
    -- the sender of the notifier is moved into the last message, and the notifier has no loop
    refine ⟨trivial, ?_, ?_⟩
    · intro hc
      rw [hflavour] at hc
      exact absurd hc k.notifier_not_mem
    · exact Held.Outside.runs_tellThenLeave hout _ _

end Loops

theorem connects_spawnTask : Connects spawnTask Experiment.spawnTask
    (fun c => [.op (.spawn [c])]) (fun rows _ => rows) where
  tracked _ _ := rfl
  plain _ _ := rfl
  task_cases _ := .inr rfl
  keep_mem _ _ own hown _ hc' := .inr ⟨own, hown, hc'⟩

theorem keepRecv_mem (rows : List (List Chan)) (c : Chan) :
    ∀ own ∈ keepRecv rows c, ∀ c' ∈ own, c' = c ∨ ∃ own' ∈ rows, c' ∈ own' := by
  intro own hown c' hc'
  cases c with
  | lane l i =>
    obtain ⟨j, hj⟩ := List.mem_iff_getElem?.mp hown
    simp only [keepRecv, List.getElem?_modify] at hj
    obtain ⟨own', hown', rfl⟩ := Option.map_eq_some_iff.mp hj
    have hmem := List.mem_of_getElem? hown'
    split at hc'
    · rcases List.mem_append.mp hc' with hc' | hc'
      · exact .inr ⟨own', hmem, hc'⟩
      · exact .inl (List.mem_singleton.mp hc')
    · exact .inr ⟨own', hmem, hc'⟩
  | concentrator => exact .inr ⟨own, hown, hc'⟩
  | notifier => exact .inr ⟨own, hown, hc'⟩

theorem connects_pushRecv : Connects pushRecv Experiment.pushRecv (fun _ => []) keepRecv where
  tracked c t := by cases c <;> simp [pushRecv, keepRecv]
  plain c b := by cases c <;> simp [Experiment.pushRecv, keepRecv]
  task_cases _ := .inl rfl
  keep_mem := keepRecv_mem

end Tracking

/-- What following the handles of a driver means, and what comes out of it. -/
structure TrackedDriver.Sound (o : TrackedDriver) (k : Params) (send : Send) : Prop where
  flavour : ∀ c, (o.flavour c).chan = c
  wires : o.driver.Wires k send o.flavour .block
  ops : opsOf (o.setup k.pipelines k.lanes k.messages) =
    (o.driver.setup k.pipelines k.lanes k.messages).2
  runs : Held.nothing.Runs k (o.setup k.pipelines k.lanes k.messages)
  locals : ((o.setup k.pipelines k.lanes k.messages).foldl Held.after .nothing).locals = []
  heads : ((o.setup k.pipelines k.lanes k.messages).foldl Held.after .nothing).heads =
    (o.driver.setup k.pipelines k.lanes k.messages).1.heads
  heads_eq : (o.driver.setup k.pipelines k.lanes k.messages).1.heads =
    (List.range k.lanes).map fun l => o.flavour (.lane l 1)
  spawns : ∀ recvs, .spawn recvs ∈ (o.driver.setup k.pipelines k.lanes k.messages).2 → recvs ≠ []

namespace TrackedDriver

variable (k : Params)

theorem setupOps_spawns {flavour : Chan → Sender} {post : Sender → Message → Op}
    {task : Chan → List Op} {launch : List Op} (hpost : Posts flavour post .block)
    (htask : ∀ c recvs, .spawn recvs ∈ task c → recvs ≠ [])
    (hlaunch : ∀ recvs, .spawn recvs ∈ launch → recvs ≠ []) {recvs : List Chan}
    (h : .spawn recvs ∈ setupOps flavour post task launch k) : recvs ≠ [] := by
  rcases mem_setupOps h with he | ⟨c, -, hc⟩ | hl | ⟨c, msg, he⟩
  · cases he
    simp
  · exact htask c recvs hc
  · exact hlaunch recvs hl
  · rw [hpost.2] at he
    cases he

theorem threadRecvs_ne_nil {recvs : List Chan} (h : recvs ∈ threadRecvs k) : recvs ≠ [] := by
  obtain ⟨hlength, hrows⟩ := threadRecvs_grouped k
  obtain ⟨j, hj⟩ := List.mem_iff_getElem?.mp h
  have hlt := (List.getElem?_eq_some_iff.mp hj).1
  have hmem : Chan.lane 0 (j + 1) ∈ recvs := by
    rw [hrows j recvs hj, List.mem_flatMap]
    refine ⟨⟨0, List.mem_range.mpr k.lanes_pos, ?_⟩, rfl⟩
    simp only [Params.laneChans, List.mem_map, List.mem_range'_1]
    exact ⟨j + 1, by omega, rfl⟩
  exact List.ne_nil_of_mem hmem

theorem sound_tasks {o : TrackedDriver} (hflavour : o.flavour = .flumeSender)
    (hwires : o.driver.Wires k sendCmdAsync .flumeSender .block)
    (hsetup : o.setup = Tracking.setupTasks)
    (hdriver : o.driver.setup = Experiment.setupTasks .flumeSender awaitCmd .flumeReceiver) :
    o.Sound k sendCmdAsync := by
  obtain ⟨hops, hruns, hlocals, hheads⟩ := @Tracking.setupWith_sound k .flumeSender awaitCmd
    Tracking.spawnTask Experiment.spawnTask _ _ Tracking.connects_spawnTask ⟨.inl rfl, fun _ _ => rfl⟩
    (fun _ => rfl) [] (by simp) (fun _ => []) (fun _ => []) (by simp) (fun _ => rfl)
  rw [← hflavour] at hwires
  refine ⟨by rw [hflavour]; exact fun _ => rfl, hwires, ?_, ?_, ?_, ?_, ?_, ?_⟩
  · rw [hsetup, hdriver]
    exact hops.trans (by simp [Experiment.setupTasks])
  · rw [hsetup]
    exact hruns
  · rw [hsetup]
    exact hlocals
  · rw [hsetup, hdriver]
    exact hheads
  · rw [hdriver, setupTasks_eq, hflavour]
  · rw [hdriver, setupTasks_eq]
    intro recvs hr
    exact setupOps_spawns k ⟨.inl rfl, fun _ _ => rfl⟩ (by simp) (by simp) hr

theorem sound_crossbeam : crossbeam.Sound k sendCmd := by
  obtain ⟨hops, hruns, hlocals, hheads⟩ := @Tracking.setupWith_sound k .crossbeamSender
    (fun sender cmd => .block (sendCmd sender cmd)) Tracking.pushRecv Experiment.pushRecv _ _
    Tracking.connects_pushRecv ⟨.inl rfl, fun _ _ => rfl⟩ (fun _ => rfl)
    (List.replicate k.pipelines []) (by simp) (fun b => b.recvs.map fun recv => .op (.spawn recv))
    id (by simp) (fun _ => by simp)
  refine ⟨fun _ => rfl, wires_crossbeam k, ?_, hruns, hlocals, ?_, ?_, ?_⟩
  · exact hops.trans (by simp [crossbeam, crossbeamDriver, Experiment.crossbeamSetup])
  · exact hheads
  · change (Experiment.crossbeamSetup k.pipelines k.lanes k.messages).1.heads = _
    rw [crossbeamSetup_eq]
    rfl
  · change ∀ recvs, .spawn recvs ∈ (Experiment.crossbeamSetup k.pipelines k.lanes k.messages).2 → _
    rw [crossbeamSetup_eq]
    intro recvs hr
    refine setupOps_spawns k ⟨.inl rfl, fun _ _ => rfl⟩ (by simp) ?_ hr
    intro recvs hr
    exact threadRecvs_ne_nil k (by simpa using hr)

theorem sound_all {o : TrackedDriver} (ho : o ∈ all) : ∃ send, o.Sound k send := by
  have hwires : ∀ d : Driver, d.receive = AsyncForwarder.receive →
      d.setup = Experiment.setupTasks .flumeSender awaitCmd .flumeReceiver →
      d.run = flumeTokioDriver.run → d.Wires k sendCmdAsync .flumeSender .block := by
    intro d hreceive hsetup hrun
    exact wires_tasks sendCmdAsync_flume ⟨.inl rfl, fun _ _ => rfl⟩ ⟨_, hreceive⟩ hsetup hrun rfl
  simp only [all, List.mem_cons, List.not_mem_nil, or_false] at ho
  rcases ho with rfl | rfl | rfl
  · exact ⟨_, sound_tasks k rfl (hwires _ rfl rfl rfl) rfl rfl⟩
  · exact ⟨_, sound_tasks k rfl (hwires _ rfl rfl rfl) rfl rfl⟩
  · exact ⟨_, sound_crossbeam k⟩

end TrackedDriver

end ChannelExecutor.Experiment
