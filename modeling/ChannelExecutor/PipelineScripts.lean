import ChannelExecutor.PipelineSystem
import Mathlib.Data.List.Perm.Basic

set_option autoImplicit false

namespace ChannelExecutor.Experiment

open Lib (Call Net)

section Lists

variable {α : Type}

def Sole (ls : List (List α)) : Prop := ls.Pairwise fun a b => a = [] ∨ b = []

theorem Sole.perm {ls ls' : List (List α)} (hs : Sole ls) (h : ls.Perm ls') : Sole ls' :=
  h.pairwise hs fun hab => hab.symm

theorem Sole.flatten_perm {ls ls' : List (List α)} (hs : Sole ls) (h : ls.Perm ls') :
    ls.flatten = ls'.flatten := by
  induction h with
  | nil => rfl
  | cons a _ ih => simp [ih (List.pairwise_cons.mp hs).2]
  | swap a b l =>
    obtain hb | ha : b = [] ∨ a = [] := (List.pairwise_cons.mp hs).1 a List.mem_cons_self
    · simp [hb]
    · simp [ha]
  | trans h _ ih ih' => exact (ih hs).trans (ih' (hs.perm h))

theorem sole_nil_append {n : ℕ} {ls : List (List α)} (h : Sole (List.replicate n [] ++ ls)) :
    Sole ls ∧ (List.replicate n [] ++ ls).flatten = ls.flatten :=
  ⟨(List.pairwise_append.mp h).2.1, by simp⟩

theorem sole_of_all_nil {ls : List (List α)} (h : ∀ l ∈ ls, l = []) : Sole ls := by
  induction ls with
  | nil => exact .nil
  | cons l ls ih =>
    refine List.pairwise_cons.mpr ⟨fun _ _ => .inl (h l List.mem_cons_self), ?_⟩
    exact ih fun l' h' => h l' (List.mem_cons_of_mem _ h')

end Lists

def addressed (c : Chan) (l : List (Chan × Message)) : List Message :=
  (l.filter fun p => p.1 = c).map Prod.snd

def dataOf (l : List (Chan × Message)) : List (Chan × Message) := l.filter fun p => p.2.seq?.isSome

@[simp] theorem addressed_nil (c : Chan) : addressed c [] = [] := rfl

@[simp] theorem addressed_append (c : Chan) (l l' : List (Chan × Message)) :
    addressed c (l ++ l') = addressed c l ++ addressed c l' := by
  simp [addressed]

@[simp] theorem addressed_self (c : Chan) (msg : Message) (l : List (Chan × Message)) :
    addressed c ((c, msg) :: l) = msg :: addressed c l := by
  simp [addressed]

theorem addressed_other {c c' : Chan} (h : c' ≠ c) (msg : Message) (l : List (Chan × Message)) :
    addressed c ((c', msg) :: l) = addressed c l := by
  simp [addressed, h]

theorem mem_addressed {c : Chan} {msg : Message} {l : List (Chan × Message)} :
    msg ∈ addressed c l ↔ (c, msg) ∈ l := by
  simp only [addressed, List.mem_map, List.mem_filter, decide_eq_true_eq]
  constructor
  · rintro ⟨⟨c', msg'⟩, ⟨hp, rfl⟩, rfl⟩
    exact hp
  · intro h
    exact ⟨(c, msg), ⟨h, rfl⟩, rfl⟩

theorem addressed_map_none {α : Type} {g : α → Chan} {m : α → Message} {c : Chan} {ls : List α}
    (h : ∀ a ∈ ls, g a ≠ c) : addressed c (ls.map fun a => (g a, m a)) = [] := by
  rw [List.eq_nil_iff_forall_not_mem]
  intro msg hmsg
  obtain ⟨a, ha, he⟩ := List.mem_map.mp (mem_addressed.mp hmsg)
  exact h a ha (Prod.mk.inj he).1

theorem addressed_map {α : Type} {g : α → Chan} {m : α → Message} (hg : ∀ a b, g a = g b → a = b)
    {ls : List α} (hn : ls.Nodup) {a : α} (ha : a ∈ ls) :
    addressed (g a) (ls.map fun a => (g a, m a)) = [m a] := by
  induction ls with
  | nil => cases ha
  | cons b ls ih =>
    obtain ⟨hb, hn⟩ := List.nodup_cons.mp hn
    rw [List.map_cons]
    by_cases hab : b = a
    · subst hab
      rw [addressed_self, addressed_map_none]
      intro x hx he
      exact hb (hg x b he ▸ hx)
    · rw [addressed_other fun he => hab (hg b a he)]
      exact ih hn (List.mem_of_ne_of_mem (Ne.symm hab) ha)

theorem mem_dataOf {c : Chan} {msg : Message} {l : List (Chan × Message)} :
    (c, msg) ∈ dataOf l ↔ (c, msg) ∈ l ∧ ∃ seq, msg = .testData seq := by
  simp only [dataOf, List.mem_filter]
  cases msg with
  | testData seq => simp [TestMessage.seq?]
  | addSender sender => simp [TestMessage.seq?]
  | notify sender count => simp [TestMessage.seq?]

namespace State

def scripts (s : State) : List (List (Chan × Message)) :=
  s.main.map Op.sends ++ s.tasks.map Call.sends

def pending (s : State) : List (Chan × Message) := s.scripts.flatten

def line (s : State) : List (Chan × Message) := (s.scripts.map dataOf).flatten

theorem line_eq (s : State) : s.line = dataOf s.pending := by
  simp only [line, pending, dataOf, List.filter_flatten]
  rfl

end State

open State

def Calm (s t : State) : Prop := ∃ n, s.scripts.Perm (List.replicate n [] ++ t.scripts)

def Emits (s t : State) (c : Chan) (msg : Message) : Prop :=
  ∃ rest others, s.scripts.Perm (((c, msg) :: rest) :: others) ∧ t.scripts.Perm (rest :: others)

section Scripts

variable {s t : State} {c : Chan} {msg : Message}

theorem Calm.pending_perm (h : Calm s t) : s.pending.Perm t.pending := by
  obtain ⟨n, hp⟩ := h
  have := hp.flatten
  simpa [State.pending] using this

theorem Calm.line (h : Calm s t) (hs : Sole (s.scripts.map dataOf)) :
    Sole (t.scripts.map dataOf) ∧ t.line = s.line := by
  obtain ⟨n, hp⟩ := h
  have hperm := hp.map dataOf
  rw [List.map_append, List.map_replicate] at hperm
  obtain ⟨hsole, hflat⟩ := sole_nil_append (hs.perm hperm)
  exact ⟨hsole, (hs.flatten_perm hperm |>.trans hflat).symm⟩

theorem Emits.pending_perm (h : Emits s t c msg) : s.pending.Perm ((c, msg) :: t.pending) := by
  obtain ⟨rest, others, hs, ht⟩ := h
  apply hs.flatten.trans
  exact (ht.flatten.cons (c, msg)).symm

theorem Emits.line_data {seq : ℕ} (h : Emits s t c (.testData seq)) (hs : Sole (s.scripts.map dataOf)) :
    Sole (t.scripts.map dataOf) ∧ s.line = (c, .testData seq) :: t.line := by
  obtain ⟨rest, others, hps, hpt⟩ := h
  have hhead := hs.perm (hps.map dataOf)
  have hothers : ∀ l ∈ others.map dataOf, l = [] := by
    intro l hl
    have := (List.pairwise_cons.mp hhead).1 l hl
    simpa [dataOf, TestMessage.seq?] using this
  have htail : Sole ((rest :: others).map dataOf) :=
    List.pairwise_cons.mpr ⟨fun l hl => .inr (hothers l hl), sole_of_all_nil hothers⟩
  refine ⟨htail.perm (hpt.map dataOf).symm, ?_⟩
  rw [State.line, State.line, hs.flatten_perm (hps.map dataOf),
    (htail.perm (hpt.map dataOf).symm).flatten_perm (hpt.map dataOf)]
  rfl

theorem Emits.line_config (h : Emits s t c msg) (hmsg : msg.seq? = none)
    (hs : Sole (s.scripts.map dataOf)) : Sole (t.scripts.map dataOf) ∧ t.line = s.line := by
  obtain ⟨rest, others, hps, hpt⟩ := h
  have hsame : ((((c, msg) :: rest) :: others).map dataOf) = (rest :: others).map dataOf := by
    simp [dataOf, hmsg]
  have htail := hs.perm (hps.map dataOf)
  rw [hsame] at htail
  have hsole := htail.perm (hpt.map dataOf).symm
  refine ⟨hsole, ?_⟩
  rw [State.line, State.line, hs.flatten_perm (hps.map dataOf), hsame,
    hsole.flatten_perm (hpt.map dataOf)]

end Scripts

inductive Turn (d : Driver) (k : Params) (s : State) (a : Act) (t : State) : Prop
  | quiet (hs : Calm s t) (hnet : t.net = s.net)
  | post {c : Chan} {msg : Message} (hs : Emits s t c msg) (hputs : s.puts a = some (c, msg))
      (hnet : t.net = s.net.push c msg)
  | take {c : Chan} (hs : Calm s t) (hc : .recv c ∈ s.main) (hnet : s.net.take c = some t.net)
  | accept {c : Chan} (hs : Calm s t) (hc : ∃ recvs ∈ s.threads, c ∈ recvs)
      (hnet : s.net.accept d.receive c = some t.net)
  | advance {c : Chan} (hs : Calm s t) (ha : a = .advance c)
      (hnet : s.net.advance k.capacity c = some t.net)

theorem Calm.refl_of {s t : State} (hm : t.main = s.main) (ht : t.tasks = s.tasks) : Calm s t :=
  ⟨0, by simp [scripts, hm, ht]⟩

theorem Calm.of_cons {s t : State} {op : Op} (hop : op.sends = []) (hm : s.main = op :: t.main)
    (ht : t.tasks = s.tasks) : Calm s t :=
  ⟨1, by simp [scripts, hm, ht, hop]⟩

theorem does_turn {d : Driver} {k : Params} {s t : State} {a : Act} (h : Does d k s a t)
    (ha : a ≠ .run) : Turn d k s a t ∧ t.runs = s.runs := by
  cases h with
  | spawn h => exact ⟨.quiet (Calm.of_cons rfl h rfl) rfl, rfl⟩
  | sent h => exact ⟨.quiet (Calm.of_cons rfl h rfl) rfl, rfl⟩
  | send h hroom =>
    refine ⟨.post ⟨_, _, ?_, .rfl⟩ (by simp [puts, h]) rfl, rfl⟩
    simp [scripts, h]
  | @detach call ops h =>
    refine ⟨.quiet ⟨0, ?_⟩ rfl, rfl⟩
    simp only [scripts, h, List.map_cons, List.map_append, List.map_nil, List.replicate_zero,
      List.nil_append, Op.sends_detach, List.cons_append, ← List.append_assoc]
    exact (List.perm_append_singleton call.sends _).symm
  | recv h hn => exact ⟨.take (Calm.of_cons rfl h rfl) (by simp [h]) hn, rfl⟩
  | run h => exact absurd rfl ha
  | accept ht hidle hc hn =>
    exact ⟨.accept (Calm.refl_of rfl rfl)
      ⟨_, List.mem_of_getElem? ht, List.mem_of_getElem? hc⟩ hn, rfl⟩
  | advance hn => exact ⟨.advance (Calm.refl_of rfl rfl) rfl hn, rfl⟩
  | @task j c msg rest h hroom =>
    obtain ⟨hj, hcall⟩ := List.getElem?_eq_some_iff.mp h
    refine ⟨.post ⟨rest.sends, s.main.map Op.sends ++ (s.tasks.eraseIdx j).map Call.sends, ?_, ?_⟩
      (by simp [puts, h]) rfl, rfl⟩
    · have hp := ((List.getElem_cons_eraseIdx_perm hj).map Call.sends).symm
      rw [List.map_cons, hcall] at hp
      exact (hp.append_left _).trans List.perm_middle
    · have hp := (List.set_perm_cons_eraseIdx hj rest).map Call.sends
      exact (hp.append_left _).trans List.perm_middle

end ChannelExecutor.Experiment
