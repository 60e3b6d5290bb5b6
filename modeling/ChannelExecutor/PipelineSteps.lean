import ChannelExecutor.PipelineEntries

set_option autoImplicit false

namespace ChannelExecutor.Experiment

open Lib (Call Net)
open State

section Steps

variable {d : Driver} {k : Params} {send : Send} {flavour : Chan → Sender}
variable {mode : Sending Chan Unit → Op} {K : Chan → Prop} {s t : State} {a : Act}

theorem Inv.recv_notifier (hi : Inv d k flavour K s) {c : Chan} (hc : .recv c ∈ s.main) :
    c = .notifier := by
  cases hi.phase with
  | rest h hg hr => exact absurd rfl (h _ hc c)
  | wait h hops hg =>
    rw [h, List.mem_append, List.mem_singleton] at hc
    rcases hc with hc | hc
    · exact absurd rfl ((hops _ hc).1 c)
    · exact Op.recv.inj hc

theorem Turn.sound (hi : Inv d k flavour K s) (h : Turn d k s a t) :
    t.net.Sound d.receive newForwarder (· ∈ k.channels) := by
  cases h with
  | quiet hs hnet => rw [hnet]; exact hi.sound
  | post hs hputs hnet => rw [hnet]; exact hi.sound.push _ _
  | take hs hc hnet =>
    rw [hi.recv_notifier hc] at hnet
    exact hi.sound.take k.notifier_not_mem hnet
  | accept hs hc hnet => exact hi.sound.accept hnet
  | advance hs ha hnet => exact hi.sound.advance hnet

theorem Turn.active (hi : Inv d k flavour K s) (h : Turn d k s a t) (c : Chan)
    (hc : t.net.call c ≠ none) : c ∈ k.channels := by
  cases h with
  | quiet hs hnet => exact hi.active c (hnet ▸ hc)
  | post hs hputs hnet =>
    rw [hnet] at hc
    exact hi.active c hc
  | take hs hcm hnet =>
    obtain ⟨msg, rest, -, ht⟩ := Net.take_cases hnet
    rw [ht] at hc
    exact hi.active c hc
  | @accept c' hs hserved hnet =>
    obtain ⟨msg, rest, -, -, ht⟩ := Net.accept_cases hnet
    by_cases hcc : c = c'
    · subst hcc
      obtain ⟨recvs, hr, hmem⟩ := hserved
      exact (hi.ranks recvs (.inl hr) c hmem).1
    · apply hi.active c
      rw [ht] at hc
      simpa [hcc] using hc
  | @advance c' hs ha hnet =>
    by_cases hcc : c = c'
    · subst hcc
      obtain ⟨dst, msg, rest, hcall, -, ht⟩ | ⟨b, hcall, ht⟩ := Net.advance_cases hnet
      · exact hi.active c (by simp [hcall])
      · exact hi.active c (by simp [hcall])
    · apply hi.active c
      obtain ⟨dst, msg, rest, hcall, -, ht⟩ | ⟨b, hcall, ht⟩ := Net.advance_cases hnet
      · rw [ht] at hc
        simpa [Net.sent, hcc] using hc
      · rw [ht] at hc
        simpa [Net.finished, hcc] using hc

theorem got_notifier_accept {c : Chan} {net : Net Chan Message (Panic Chan) (Forwarder Chan)}
    (hc : c ∈ k.channels) (h : s.net.accept d.receive c = some net) :
    net.got .notifier = s.net.got .notifier := by
  obtain ⟨msg, rest, -, -, rfl⟩ := Net.accept_cases h
  have hne : Chan.notifier ≠ c := fun he => k.notifier_not_mem (he ▸ hc)
  simp [Net.pop, hne]

theorem got_advance {c : Chan} {net : Net Chan Message (Panic Chan) (Forwarder Chan)}
    (h : s.net.advance k.capacity c = some net) : net.got = s.net.got := by
  obtain ⟨dst, msg, rest, -, -, rfl⟩ | ⟨b, -, rfl⟩ := Net.advance_cases h
  · rfl
  · rfl

theorem Phase.of_same {s t : State} (h : Phase s) (hm : t.main = s.main)
    (hg : t.net.got .notifier = s.net.got .notifier) (hr : t.runs = s.runs) : Phase t := by
  cases h with
  | rest h hgot hrest => exact .rest (hm ▸ h) (by rw [hg, hr, hgot]) (by rwa [hr, hm])
  | wait h hops hgot => exact .wait (hm.trans h) hops (by rw [hg, hr, hgot])

theorem Phase.of_tail {s t : State} {op : Op} {ops : List Op} (h : Phase s) (hs : s.main = op :: ops)
    (hop : ∀ c, op ≠ .recv c)
    (hm : t.main = ops ∨ ∃ op', t.main = op' :: ops ∧ (∀ c, op' ≠ .recv c) ∧ ∀ recvs, op' ≠ .spawn recvs)
    (hg : t.net.got .notifier = s.net.got .notifier) (hr : t.runs = s.runs) : Phase t := by
  cases h with
  | rest h hgot hrest =>
    have hzero : s.runs = 0 := hrest.resolve_right (by simp [hs])
    refine .rest ?_ (by rw [hg, hr, hgot]) (.inl (hr.trans hzero))
    intro op' hop' c
    rcases hm with hm | ⟨op'', hm, hne, -⟩
    · exact h op' (by simp [hs, ← hm, hop']) c
    · rw [hm, List.mem_cons] at hop'
      rcases hop' with rfl | hop'
      · exact hne c
      · exact h op' (by simp [hs, hop']) c
  | @wait before h hops hgot =>
    cases before with
    | nil =>
      obtain ⟨rfl, -⟩ := List.cons.inj (hs.symm.trans h)
      exact absurd rfl (hop .notifier)
    | cons op' before =>
      obtain ⟨rfl, rfl⟩ := List.cons.inj (hs.symm.trans h)
      have htail := fun x hx => hops x (List.mem_cons_of_mem _ hx)
      rcases hm with hm | ⟨op'', hm, hne⟩
      · exact .wait hm htail (by rw [hg, hr, hgot])
      · refine @Phase.wait t (op'' :: before) hm ?_ (by rw [hg, hr, hgot])
        intro x hx
        rcases List.mem_cons.mp hx with rfl | hx
        · exact hne
        · exact htail x hx

theorem Does.phase (hi : Inv d k flavour K s) (hw : d.Wires k send flavour mode)
    (h : Does d k s a t) : Phase t := by
  have hphase := hi.phase
  cases h with
  | spawn h => exact hphase.of_tail h (by simp) (.inl rfl) rfl rfl
  | sent h => exact hphase.of_tail h (by simp) (.inl rfl) rfl rfl
  | send h hroom => exact hphase.of_tail h (by simp) (.inr ⟨_, rfl, by simp⟩) rfl rfl
  | detach h => exact hphase.of_tail h (by simp) (.inl rfl) rfl rfl
  | @recv c ops net h hn =>
    obtain rfl := hi.recv_notifier (c := c) (by simp [h])
    obtain ⟨msg, rest, -, rfl⟩ := Net.take_cases hn
    cases hphase with
    | rest hne hg hr => exact absurd rfl (hne (.recv .notifier) (by simp [h]) .notifier)
    | @wait before hm hops hg =>
      cases before with
      | cons op before =>
        obtain ⟨rfl, -⟩ := List.cons.inj (hm.symm.trans h)
        exact absurd rfl ((hops _ List.mem_cons_self).1 .notifier)
      | nil =>
        obtain ⟨-, rfl⟩ := List.cons.inj (h.symm.trans hm)
        exact .rest (by simp) (by simpa [Net.pop] using hg) (.inr rfl)
  | run h =>
    cases hphase with
    | rest hne hg hr =>
      refine @Phase.wait _ [mode (.after k.data (.done ()))] hw.run ?_ (by simpa using hg)
      intro op hop
      obtain rfl := List.mem_singleton.mp hop
      rcases hw.mode_cases with rfl | rfl
      · simp
      · simp
    | wait hm hops hg => simp [h] at hm
  | accept ht hidle hc hn =>
    have hmem := List.mem_of_getElem? hc
    have := (hi.ranks _ (.inl (List.mem_of_getElem? ht)) _ hmem).1
    exact hphase.of_same rfl (got_notifier_accept this hn) rfl
  | advance hn => exact hphase.of_same rfl (by rw [got_advance hn]) rfl
  | task h hroom => exact hphase.of_same rfl rfl rfl

theorem Does.calm (hi : Inv d k flavour K s) (hw : d.Wires k send flavour mode)
    (h : Does d k s a t) :
    (∀ op ∈ t.main, op.result = .ok ()) ∧ ∀ call ∈ t.tasks, call.result = .ok () := by
  obtain ⟨hmain, htasks⟩ := hi.calm
  have htail : ∀ {op ops}, s.main = op :: ops → ∀ op' ∈ ops, op'.result = .ok () := by
    intro op ops h op' hop'
    exact hmain op' (by simp [h, hop'])
  cases h with
  | spawn h => exact ⟨htail h, htasks⟩
  | sent h => exact ⟨htail h, htasks⟩
  | @send c msg rest ops h hroom =>
    refine ⟨?_, htasks⟩
    intro op hop
    rcases List.mem_cons.mp hop with rfl | hop
    · exact hmain (.block (.send c msg rest)) (by simp [h])
    · exact htail h op hop
  | @detach call ops h =>
    refine ⟨htail h, ?_⟩
    intro call' hc
    rcases List.mem_append.mp hc with hc | hc
    · exact htasks _ hc
    · rw [List.mem_singleton.mp hc]
      exact hmain (.detach call) (by simp [h])
  | recv h hn => exact ⟨htail h, htasks⟩
  | run h =>
    refine ⟨?_, htasks⟩
    rw [hw.run]
    intro op hop
    rcases hw.mode_cases with rfl | rfl
    · simp only [List.mem_cons, List.not_mem_nil, or_false] at hop
      rcases hop with rfl | rfl
      · simp [Op.result]
      · rfl
    · simp only [List.mem_cons, List.not_mem_nil, or_false] at hop
      rcases hop with rfl | rfl
      · simp [Op.result]
      · rfl
  | accept ht hidle hc hn => exact ⟨hmain, htasks⟩
  | advance hn => exact ⟨hmain, htasks⟩
  | @task j c msg rest h hroom =>
    refine ⟨hmain, ?_⟩
    intro call hc
    rcases List.mem_or_eq_of_mem_set hc with hc | rfl
    · exact htasks _ hc
    · exact htasks (.send c msg call) (List.mem_of_getElem? h)

theorem Does.threads (hw : d.Wires k send flavour mode)
    (h : Does d k s a t) (recvs : List Chan) :
    (recvs ∈ t.threads ∨ .spawn recvs ∈ t.main) ↔ (recvs ∈ s.threads ∨ .spawn recvs ∈ s.main) := by
  cases h with
  | @spawn recvs' ops h =>
    simp only [h, List.mem_append, List.mem_cons, List.not_mem_nil, or_false, Op.spawn.injEq]
    rw [or_assoc]
  | sent h => simp [h]
  | send h hroom => simp [h]
  | detach h => simp [h]
  | recv h hn => simp [h]
  | run h =>
    rw [hw.run]
    rcases hw.mode_cases with rfl | rfl
    · simp [h]
    · simp [h]
  | accept ht hidle hc hn => rfl
  | advance hn => rfl
  | task h hroom => rfl

theorem dataOf_data (k : Params) : dataOf k.data = k.data := by
  apply List.filter_eq_self.mpr
  rintro ⟨c, msg⟩ hp
  simp only [Params.data, List.mem_flatMap, List.mem_map, Prod.mk.injEq] at hp
  obtain ⟨seq, -, l, -, -, rfl⟩ := hp
  rfl

theorem configs_addressed_data (k : Params) (c : Chan) : configs (addressed c k.data) = [] := by
  apply List.filter_eq_nil_iff.mpr
  intro msg hmsg
  have := mem_addressed.mp hmsg
  rw [← dataOf_data] at this
  obtain ⟨-, seq, rfl⟩ := mem_dataOf.mp this
  simp [TestMessage.seq?]

theorem addressed_data (k : Params) {l : ℕ} (hl : l < k.lanes) :
    addressed (.lane l 1) k.data = (List.range k.messages).map .testData := by
  have hrounds : ∀ ids : List ℕ, addressed (.lane l 1) (ids.flatMap fun seq =>
      (List.range k.lanes).map fun l => (.lane l 1, .testData seq)) = ids.map .testData := by
    intro ids
    induction ids with
    | nil => rfl
    | cons seq ids ih =>
      rw [List.flatMap_cons, addressed_append, ih, addressed_map (g := fun l => .lane l 1)
        (fun a b h => (Chan.lane.inj h).1) List.nodup_range (List.mem_range.mpr hl)]
      rfl
  exact hrounds _

theorem rounds_add (m r : ℕ) : rounds m ((r + 1) * m) = rounds m (r * m) ++ List.range m := by
  have hlast : ∀ n ≤ m, rounds m (r * m + n) = rounds m (r * m) ++ List.range n := by
    intro n hn
    induction n with
    | zero => simp
    | succ n ih =>
      rw [← Nat.add_assoc, rounds_succ, ih (by omega), List.range_succ, Nat.mul_comm r m,
        Nat.mul_add_mod, Nat.mod_eq_of_lt (by omega), List.append_assoc]
  rw [Nat.add_mul, Nat.one_mul]
  exact hlast m (Nat.le_refl m)

theorem Inv.runs_le_of_rest (hi : Inv d k flavour K s) (h : s.main = []) :
    s.runs ≤ (s.net.put .notifier).length := by
  have hfifo := congrArg List.length (hi.sound.fifo .notifier)
  rw [List.length_append] at hfifo
  cases hi.phase with
  | rest hne hg hr => omega
  | wait hm hops hg => simp [h] at hm

theorem Does.run_scripts (hw : d.Wires k send flavour mode) (h : Does d k s .run t) :
    s.main = [] ∧ t.net = s.net ∧ t.runs = s.runs + 1 ∧
      s.scripts = s.tasks.map Call.sends ∧ t.scripts = k.data :: [] :: s.scripts := by
  cases h with
  | run hm =>
    have hs : s.scripts = s.tasks.map Call.sends := by simp [scripts, hm]
    refine ⟨hm, rfl, rfl, hs, ?_⟩
    rw [hs]
    simp only [scripts, hw.run]
    rcases hw.mode_cases with rfl | rfl
    · simp
    · simp

theorem Inv.run_of_line (hi : Inv d k flavour K s) (hw : d.Wires k send flavour mode)
    (hline : s.line = []) (h : Does d k s .run t) : Inv d k flavour K t := by
  obtain ⟨hm, hnet, hruns, -, hscripts⟩ := h.run_scripts hw
  have hthreads := h.threads hw
  have hnil : ∀ data ∈ s.scripts.map dataOf, data = [] := List.flatten_eq_nil_iff.mp hline
  have hlinet : t.line = k.data := by
    rw [State.line, hscripts, List.map_cons, List.map_cons, dataOf_data, List.flatten_cons,
      List.flatten_cons]
    change k.data ++ ([] ++ s.line) = k.data
    simp [hline]
  constructor
  case sound => exact hnet ▸ hi.sound
  case told =>
    intro c
    have htold := hi.told c
    rw [hnet, State.pending, hscripts]
    simpa [configs_addressed_data, State.pending] using htold
  case sole =>
    rw [hscripts, List.map_cons, List.map_cons]
    refine List.pairwise_cons.mpr ⟨?_, List.pairwise_cons.mpr ⟨fun _ _ => .inl rfl, sole_of_all_nil hnil⟩⟩
    intro data hdata
    rcases List.mem_cons.mp hdata with rfl | hdata
    · exact .inr rfl
    · exact .inr (hnil _ hdata)
  case line_suffix => exact hlinet ▸ List.suffix_rfl
  case heads =>
    intro l hl
    have hheads := hi.heads l hl
    rw [hline, addressed_nil, seqs_nil, List.append_nil] at hheads
    rw [hlinet, hnet, hruns, hheads, addressed_data k hl, seqs_map_testData, rounds_add]
  case flow => exact hnet ▸ hi.flow
  case merged => exact hnet ▸ hi.merged
  case notified => exact hnet ▸ hi.notified
  case active => exact hnet ▸ hi.active
  case ready => exact hnet ▸ hi.ready
  case calm => exact h.calm hi hw
  case phase => exact h.phase hi hw
  case serves =>
    intro c hc
    obtain ⟨recvs, hr, hmem⟩ := hi.serves c hc
    exact ⟨recvs, (hthreads recvs).mpr hr, hmem⟩
  case ranks => exact fun recvs hr => hi.ranks recvs ((hthreads recvs).mp hr)

theorem step_inv_of (hi : Inv d k flavour K s) (hw : d.Wires k send flavour mode)
    (hnext : ∀ c ∈ k.channels, ∀ p ∈ s.sends c, ∃ seq, p = (k.next c, .testData seq))
    (hline : s.main = [] → s.line = []) (hfirst : ConfigFirst K s a)
    (h : step d k s a = some t) : Inv d k flavour K t := by
  have hdoes := step_does h
  by_cases ha : a = .run
  · subst ha
    exact hi.run_of_line hw (hline (hdoes.run_scripts hw).1) hdoes
  have hthreads := hdoes.threads hw
  obtain ⟨hturn, hruns⟩ := does_turn hdoes ha
  have hentry := hi.entry_of_next hnext hfirst hturn
  constructor
  case sound => exact hturn.sound hi
  case told => exact hentry.told hi
  case sole => exact (hentry.sole hi).1
  case line_suffix => exact (hentry.sole hi).2
  case heads =>
    rw [hruns]
    exact hentry.heads hi
  case flow => exact hentry.flow hi
  case merged => exact hentry.merged hi
  case notified => exact hentry.notified hi
  case active => exact hturn.active hi
  case ready => exact hentry.ready hi
  case calm => exact hdoes.calm hi hw
  case phase => exact hdoes.phase hi hw
  case serves =>
    intro c hc
    obtain ⟨recvs, hr, hmem⟩ := hi.serves c hc
    exact ⟨recvs, (hthreads recvs).mpr hr, hmem⟩
  case ranks => exact fun recvs hr => hi.ranks recvs ((hthreads recvs).mp hr)

theorem step_inv (hi : Inv d k flavour K s) (hw : d.Wires k send flavour mode)
    (hK : ∀ c ∈ k.channels, k.relays c → K c) (hfirst : ConfigFirst K s a)
    (h : step d k s a = some t) : Inv d k flavour K t :=
  step_inv_of hi hw (fun _ hc => (hi.sends_next hw hK hc).1)
    (fun hm => hi.line_nil hw hK (hi.runs_le_of_rest hm)) hfirst h

theorem inv_start (hw : d.Wires k send flavour mode) : Inv d k flavour K (start d k) := by
  have hconf := hw.configures
  have hscripts : (start d k).scripts = ((d.setup k.pipelines k.lanes k.messages).2).map Op.sends := by
    simp [scripts, start]
  have hpending : (start d k).pending = k.channels.map fun c => (c, config flavour k c) := by
    rw [State.pending, hscripts, ← List.flatMap_def]
    exact hconf.sends
  have hdata : dataOf (start d k).pending = [] := by
    rw [hpending]
    apply List.filter_eq_nil_iff.mpr
    intro p hp
    obtain ⟨c, -, rfl⟩ := List.mem_map.mp hp
    simp [config_seq?]
  have hline : (start d k).line = [] := by rw [line_eq, hdata]
  constructor
  case sound => exact Net.sound_start
  case told =>
    intro c
    rw [hpending]
    by_cases hc : c ∈ k.channels
    · have hone := addressed_map (g := fun c => c) (m := config flavour k) (fun _ _ h => h)
        k.channels_nodup hc
      rw [if_pos hc, hone, configs_config (config_seq? ..)]
      exact .rfl
    · have hnone := addressed_map_none (g := fun c => c) (m := config flavour k) (c := c)
        fun a ha he => hc (he ▸ ha)
      rw [if_neg hc, hnone]
      exact .rfl
  case sole => exact sole_of_all_nil (List.flatten_eq_nil_iff.mp hline)
  case line_suffix => exact hline ▸ List.nil_suffix
  case heads =>
    intro l hl
    rw [hline]
    simp [start, Net.start, rounds]
  case flow => exact fun l _ i _ _ => rfl
  case merged => simp [start, Net.start]
  case notified => rfl
  case active => exact fun c hc => absurd rfl hc
  case ready => exact fun c _ => .inl rfl
  case calm => exact ⟨hconf.ends_well, by simp [start]⟩
  case phase => exact .rest hconf.no_recv rfl (.inl rfl)
  case serves =>
    intro c hc
    obtain ⟨recvs, hr, hmem⟩ := hconf.serves c hc
    exact ⟨recvs, .inr hr, hmem⟩
  case ranks =>
    intro recvs hr
    rcases hr with hr | hr
    · simp [start] at hr
    · exact hconf.ranks recvs hr

theorem reaches_inv (hw : d.Wires k send flavour mode) (hK : ∀ c ∈ k.channels, k.relays c → K c)
    (h : (system d k).ReachableBy (ConfigFirst K) s) : Inv d k flavour K s :=
  h.invariant (inv_start hw) fun _ _ _ hi hfirst hstep => step_inv hi hw hK hfirst hstep

end Steps

end ChannelExecutor.Experiment
