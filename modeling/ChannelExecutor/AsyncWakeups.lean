import ChannelExecutor.AsyncRefinement
import ChannelExecutor.PollLoops

set_option autoImplicit false

namespace ChannelExecutor.AsyncPipeline

open Lib (Call Net System)
open Experiment (Chan Message Op Panic Sending Forwarder Params crossbeamAsyncDriver)
open ChannelSystem (Does Leaves Attended Relieved Quiescent sendFuts recvFuts held received)

inductive Fut
  | send (c : Chan) (i : ℕ)
  | recv (c : Chan) (i : ℕ)
  deriving DecidableEq

def Wait.fut : Wait → Option Fut
  | .nothing => none
  | .sending dst _ i => some (.send dst i)
  | .receiving c i => some (.recv c i)

def Fut.Unfinished (chan : Channels) : Fut → Prop
  | .send c i => ∃ f, (sendFuts (chan c))[i]? = some f ∧ f.point ≠ .ready ()
  | .recv c i => ∃ f, (recvFuts (chan c))[i]? = some f ∧ ∀ out, f.point ≠ .ready out

/-- What is unfinished now is awaited from now on, or it was unfinished before and is another's. -/
def Hands (chan chan' : Channels) (w w' : Wait) : Prop :=
  ∀ f : Fut, f.Unfinished chan' → w'.fut = some f ∨ f.Unfinished chan ∧ w.fut ≠ some f

def takesAwake (s : Server) : Event → Bool
  | .loop thread handle _ =>
    match s.threads[thread]? with
    | some [c] =>
      match s.loop c with
      | .drain => ChannelSystem.sparesSleepers (s.chan c) (.tryRecv handle)
      | _ => true
    | _ => true
  | _ => true

def keepsHandles (s : Server) : Event → Bool
  | .handle c (.dropSender i) => ((s.chan c).senders.set i false).contains true
  | .handle c (.dropReceiver i) => ((s.chan c).receivers.set i false).contains true
  | _ => true

structure Tended (s : Server) : Prop where
  attended : ∀ c, Attended (s.chan c)
  accounted : ∀ f : Fut, f.Unfinished s.chan → ∃ p, (s.wait p).fut = some f
  served : ∀ c, s.loop c ≠ .recv none → [c] ∈ s.threads
  connected : ∀ c, true ∈ (s.chan c).senders ∧ true ∈ (s.chan c).receivers

inductive Acts (chan chan' : Channels) : Prop
  | none (h : chan' = chan)
  | act {c a u} (hd : Does (chan c) a u) (h : chan' = Function.update chan c u) (hm : a.isMild = true)
      (hs : ChannelSystem.sparesSleepers (chan c) a = true) (hh : a.isHandle = false)

section Tended

variable {k : Params} {chan chan' : Channels} {c : Chan} {u : ChannelSystem.State Message}
variable {s t : Server} {e : Event} {a : ChannelSystem.Act Message}

theorem hands_of_leaves {o r : Option ℕ} {w w' : Wait} (h : Leaves (chan c) u o r)
    (ho : ∀ i, o = some i → w'.fut = some (.send c i)) (hr : ∀ i, r = some i → w'.fut = some (.recv c i))
    (hw : w.fut = none ∨ w.fut = w'.fut) : Hands chan (Function.update chan c u) w w' := by
  intro f hf
  by_cases hw' : w'.fut = some f
  · exact .inl hw'
  refine .inr ⟨?_, ?_⟩
  · cases f with
    | send c' i =>
      by_cases hc : c' = c
      · subst hc
        obtain ⟨g, hg, hp⟩ := hf
        rw [Function.update_self, h.sends i (fun hi => hw' (ho i hi))] at hg
        exact ⟨g, hg, hp⟩
      · simpa only [Fut.Unfinished, Function.update_of_ne hc] using hf
    | recv c' i =>
      by_cases hc : c' = c
      · subst hc
        obtain ⟨g, hg, hp⟩ := hf
        rw [Function.update_self, h.recvs i (fun hi => hw' (hr i hi))] at hg
        exact ⟨g, hg, hp⟩
      · simpa only [Fut.Unfinished, Function.update_of_ne hc] using hf
  · rcases hw with hw | hw
    · simp [hw]
    · rwa [hw]

theorem Hands.still {w w' : Wait} (hw : w.fut = none) : Hands chan chan w w' :=
  fun _ hf => .inr ⟨hf, by simp [hw]⟩

theorem SendStep.hands {β : Type} {call call' : Sending Chan β} {awaits awaits' : Option ℕ}
    (h : SendStep chan call awaits chan' call' awaits') :
    Hands chan chan' (sendWait call awaits) (sendWait call' awaits') := by
  cases h with
  | create hd hs ht hlen hnew =>
    apply hands_of_leaves hd.leaves
    · intro i hi
      obtain rfl := Option.some.inj hi
      rfl
    · intro i hi
      cases hi
    · exact .inl rfl
  | quiet hd ha hs ht =>
    apply hands_of_leaves (ha.leaves hd)
    · intro i hi
      obtain rfl := Option.some.inj hi
      rfl
    · intro i hi
      cases hi
    · exact .inr rfl
  | put hd ha hmsg hfull hs ht hgone =>
    apply hands_of_leaves (ha.leaves hd)
    · intro i hi
      obtain rfl := Option.some.inj hi
      rfl
    · intro i hi
      cases hi
    · exact .inr rfl
  | back hf hp hnone =>
    intro f hunf
    refine .inr ⟨hunf, ?_⟩
    intro heq
    obtain rfl := Option.some.inj heq
    obtain ⟨g, hg, hne⟩ := hunf
    obtain rfl := Option.some.inj (hf.symm.trans hg)
    exact hne hp

theorem RecvStep.hands {awaits : Option ℕ} {out : ℕ ⊕ Except RecvError Message}
    (h : RecvStep (chan c) awaits u out) :
    Hands chan (Function.update chan c u) (recvWait c awaits) (outWait c out) := by
  cases h with
  | create hd hs ht hlen hnew =>
    apply hands_of_leaves hd.leaves
    · intro i hi
      cases hi
    · intro i hi
      obtain rfl := Option.some.inj hi
      rfl
    · exact .inl rfl
  | quiet hd ha hs ht =>
    apply hands_of_leaves (ha.leaves hd)
    · intro i hi
      cases hi
    · intro i hi
      obtain rfl := Option.some.inj hi
      rfl
    · exact .inr rfl
  | got hd ha hnone hs ht htaken =>
    apply hands_of_leaves (ha.leaves hd)
    · intro i hi
      cases hi
    · intro i hi
      obtain rfl := Option.some.inj hi
      rfl
    · exact .inr rfl
  | back hf hp htaken =>
    rw [Function.update_eq_self]
    intro f hunf
    refine .inr ⟨hunf, ?_⟩
    intro heq
    obtain rfl := Option.some.inj heq
    obtain ⟨g, hg, hne⟩ := hunf
    obtain rfl := Option.some.inj (hf.symm.trans hg)
    exact hne _ hp

theorem Moves.hands (h : Moves k s e t) : ∃ p, (∀ q, q ≠ p → t.wait q = s.wait q) ∧
    Hands s.chan t.chan (s.wait p) (t.wait p) := by
  cases h with
  | spawn hm =>
    refine ⟨none, fun _ hq => wait_of_loop (by rfl) hq, .still ?_⟩
    simp only [Server.wait, hm]
    rfl
  | sent hm =>
    refine ⟨none, fun _ hq => wait_of_loop (by rfl) hq, .still ?_⟩
    simp only [Server.wait, hm]
    rfl
  | send hm hsound hs =>
    refine ⟨none, fun _ hq => wait_of_loop (by rfl) hq, ?_⟩
    simp only [Server.wait, hm]
    exact hs.hands
  | recv hm hsound hs =>
    refine ⟨none, fun _ hq => wait_of_loop (by rfl) hq, ?_⟩
    simp only [Server.wait, hm, mainWait_after]
    exact hs.hands
  | run hm =>
    refine ⟨none, fun _ hq => wait_of_loop (by rfl) hq, .still ?_⟩
    simp only [Server.wait, hm]
    rfl
  | @loopRecv thread handle key c awaits u out hthread hl hsound hs =>
    refine ⟨some c, fun _ hq => wait_of_main (by rfl) (by rfl) (fun _ hc => Function.update_of_ne hc _ _) hq, ?_⟩
    simp only [Server.wait, hl, Function.update_self, afterRecv_wait]
    exact hs.hands
  | @handled thread handle key c b awaits hthread hl =>
    refine ⟨some c, fun _ hq => wait_of_main (by rfl) (by rfl) (fun _ hc => Function.update_of_ne hc _ _) hq,
      .still ?_⟩
    simp only [Server.wait, hl]
    rfl
  | @loopSend thread handle key c call call' chan' awaits awaits' hthread hl hsound hs =>
    refine ⟨some c, fun _ hq => wait_of_main (by rfl) (by rfl) (fun _ hc => Function.update_of_ne hc _ _) hq, ?_⟩
    simp only [Server.wait, hl, Function.update_self]
    exact hs.hands
  | @tryRecv thread handle key c u hthread hl hsound hd =>
    refine ⟨some c, fun _ hq => wait_of_main (by rfl) (by rfl) (fun _ hc => Function.update_of_ne hc _ _) hq, ?_⟩
    apply hands_of_leaves hd.leaves
    · intro i hi
      cases hi
    · intro i hi
      cases hi
    · left
      simp only [Server.wait, hl]
      rfl
  | @handle c a u ha hsound hd =>
    refine ⟨none, fun _ hq => wait_of_loop (by rfl) hq, ?_⟩
    obtain ⟨ho, hr, -⟩ := ChannelSystem.isHandle_cases (s := s.chan c) ha
    apply hands_of_leaves hd.leaves
    · simp [ho]
    · simp [hr]
    · exact .inr rfl

theorem SendStep.acts {β : Type} {call call' : Sending Chan β} {awaits awaits' : Option ℕ}
    (h : SendStep chan call awaits chan' call' awaits') : Acts chan chan' := by
  cases h with
  | create hd => exact .act hd rfl rfl rfl rfl
  | quiet hd ha => cases ha <;> exact .act hd rfl rfl rfl rfl
  | put hd ha => cases ha <;> exact .act hd rfl rfl rfl rfl
  | back => exact .none rfl

theorem RecvStep.acts {awaits : Option ℕ} {out : ℕ ⊕ Except RecvError Message}
    (h : RecvStep (chan c) awaits u out) : Acts chan (Function.update chan c u) := by
  cases h with
  | create hd => exact .act hd rfl rfl rfl rfl
  | quiet hd ha => cases ha <;> exact .act hd rfl rfl rfl rfl
  | got hd ha => cases ha <;> exact .act hd rfl rfl rfl rfl
  | back => exact .none (Function.update_eq_self _ _)

theorem Moves.acts (h : Moves k s e t) : t.chan = s.chan ∨ ∃ c a u, Does (s.chan c) a u ∧
    t.chan = Function.update s.chan c u ∧ a.isMild = true ∧
    (takesAwake s e = true → ChannelSystem.sparesSleepers (s.chan c) a = true) ∧
    (a.isHandle = true → e = .handle c a) := by
  have of_acts : ∀ {chan'}, Acts s.chan chan' → chan' = s.chan ∨ ∃ c a u, Does (s.chan c) a u ∧
      chan' = Function.update s.chan c u ∧ a.isMild = true ∧
      (takesAwake s e = true → ChannelSystem.sparesSleepers (s.chan c) a = true) ∧
      (a.isHandle = true → e = .handle c a) := by
    intro chan' hacts
    cases hacts with
    | none h => exact .inl h
    | act hd h hm hs hh => exact .inr ⟨_, _, _, hd, h, hm, fun _ => hs, fun ha => by simp [hh] at ha⟩
  cases h with
  | send hm hsound hs => exact of_acts hs.acts
  | recv hm hsound hs => exact of_acts hs.acts
  | loopRecv hthread hl hsound hs => exact of_acts hs.acts
  | loopSend hthread hl hsound hs => exact of_acts hs.acts
  | tryRecv hthread hl hsound hd =>
    refine .inr ⟨_, _, _, hd, rfl, rfl, fun hok => ?_, fun ha => by cases ha⟩
    simpa only [takesAwake, hthread, hl] using hok
  | handle ha hsound hd =>
    obtain ⟨-, -, hm, hs⟩ := ChannelSystem.isHandle_cases ha
    exact .inr ⟨_, _, _, hd, rfl, hm, fun _ => hs, fun _ => rfl⟩
  | _ => exact .inl rfl

theorem Moves.attended (h : Moves k s e t) (hc : Sound k s.chan) (hs : ∀ c, Attended (s.chan c)) :
    ∀ c, Attended (t.chan c) := by
  rcases h.acts with hchan | ⟨c, a, u, hd, hchan, hm, -, -⟩
  · rwa [hchan]
  · intro c'
    rw [hchan]
    by_cases heq : c' = c
    · subst heq
      rw [Function.update_self]
      exact hd.attended (hc.inv c') hm (hs c')
    · rw [Function.update_of_ne heq]
      exact hs c'

theorem Moves.relieved (h : Moves k s e t) (hc : Sound k s.chan) (hok : takesAwake s e = true)
    (hs : ∀ c, Relieved (s.chan c)) : ∀ c, Relieved (t.chan c) := by
  rcases h.acts with hchan | ⟨c, a, u, hd, hchan, -, hspares, -⟩
  · rwa [hchan]
  · intro c'
    rw [hchan]
    by_cases heq : c' = c
    · subst heq
      rw [Function.update_self]
      exact hd.relieved (hc.inv c') (hspares hok) (hs c')
    · rw [Function.update_of_ne heq]
      exact hs c'

theorem Moves.connected (h : Moves k s e t) (hok : keepsHandles s e = true)
    (hs : ∀ c, true ∈ (s.chan c).senders ∧ true ∈ (s.chan c).receivers) :
    ∀ c, true ∈ (t.chan c).senders ∧ true ∈ (t.chan c).receivers := by
  rcases h.acts with hchan | ⟨c, a, u, hd, hchan, -, -, hhandle⟩
  · rwa [hchan]
  · intro c'
    rw [hchan]
    by_cases heq : c' = c
    · subst heq
      rw [Function.update_self]
      obtain ⟨hsenders, hreceivers⟩ := hs c'
      by_cases ha : a.isHandle = true
      · obtain rfl := hhandle ha
        cases hd with
        | cloneSender => exact ⟨List.mem_append_left _ hsenders, hreceivers⟩
        | cloneReceiver => exact ⟨hsenders, List.mem_append_left _ hreceivers⟩
        | dropSender => exact ⟨List.contains_iff_mem.mp hok, hreceivers⟩
        | dropReceiver => exact ⟨hsenders, List.contains_iff_mem.mp hok⟩
        | _ => cases ha
      · obtain ⟨hsame, hsame'⟩ := hd.handles (by simpa using ha)
        rw [hsame, hsame']
        exact ⟨hsenders, hreceivers⟩
    · rw [Function.update_of_ne heq]
      exact hs c'

theorem Moves.served (h : Moves k s e t) (hs : ∀ c, s.loop c ≠ .recv none → [c] ∈ s.threads) :
    ∀ c, t.loop c ≠ .recv none → [c] ∈ t.threads := by
  have hloop : ∀ {thread : ℕ} {c : Chan} {l : Loop}, s.threads[thread]? = some [c] →
      ∀ c', Function.update s.loop c l c' ≠ .recv none → [c'] ∈ s.threads := by
    intro thread c l hthread c' hl
    by_cases heq : c' = c
    · subst heq
      exact List.mem_of_getElem? hthread
    · rw [Function.update_of_ne heq] at hl
      exact hs c' hl
  cases h with
  | spawn hm => exact fun c hl => List.mem_append_left _ (hs c hl)
  | loopRecv hthread => exact hloop hthread
  | handled hthread => exact hloop hthread
  | loopSend hthread => exact hloop hthread
  | tryRecv hthread => exact hloop hthread
  | _ => exact hs

theorem Tended.moves (hs : Tended s) (h : Moves k s e t) (hc : Sound k s.chan)
    (hok : keepsHandles s e = true) : Tended t := by
  refine ⟨h.attended hc hs.attended, ?_, h.served hs.served, h.connected hok hs.connected⟩
  obtain ⟨p, hothers, hhands⟩ := h.hands
  intro f hf
  rcases hhands f hf with hf | ⟨hf, hne⟩
  · exact ⟨p, hf⟩
  · obtain ⟨q, hq⟩ := hs.accounted f hf
    have hqp : q ≠ p := by
      rintro rfl
      exact hne hq
    exact ⟨q, by rw [hothers q hqp, hq]⟩

theorem tended_start (k : Params) : Tended (start k) := by
  constructor
  case attended => exact fun c => ChannelSystem.attended_start _
  case accounted =>
    intro f hf
    cases f with
    | send c i =>
      obtain ⟨f, hf, -⟩ := hf
      simp [start, ChannelSystem.start, sendFuts] at hf
    | recv c i =>
      obtain ⟨f, hf, -⟩ := hf
      simp [start, ChannelSystem.start, recvFuts] at hf
  case served => exact fun c hl => absurd rfl hl
  case connected => exact fun c => ⟨List.mem_singleton_self _, List.mem_singleton_self _⟩

theorem reaches_tended (h : (server k).ReachableBy (fun s e => keepsHandles s e = true) s) :
    Tended s := by
  refine (h.invariant (I := fun s => (server k).Reachable s ∧ Tended s) ⟨.refl, tended_start k⟩ ?_).2
  rintro s e t ⟨hr, hs⟩ hok hstep
  obtain ⟨u, -, hu⟩ := reaches_related hr
  exact ⟨hr.step trivial hstep, hs.moves (step_moves hu.sound hstep) hu.sound hok⟩

theorem reaches_relieved (h : (server k).ReachableBy (fun s e => takesAwake s e = true) s) (c : Chan) :
    Relieved (s.chan c) := by
  refine (h.invariant (I := fun s => (server k).Reachable s ∧ ∀ c, Relieved (s.chan c)) ⟨.refl, ?_⟩ ?_).2 c
  · exact fun c => ChannelSystem.relieved_start _
  · rintro s e t ⟨hr, hs⟩ hok hstep
    obtain ⟨u, -, hu⟩ := reaches_related hr
    exact ⟨hr.step trivial hstep, (step_moves hu.sound hstep).relieved hu.sound hok hs⟩

end Tended

def Wait.asleep (chan : Channels) : Wait → Bool
  | .nothing => false
  | .sending dst _ i => (chan dst).sends[i]?.any fun d => d.fut.point.stage = .pending && !d.woken
  | .receiving c i => (chan c).recvs[i]?.any fun d => d.fut.point.stage = .pending && !d.woken

def awake (s : Server) : Event → Bool
  | .main _ _ => !(s.wait none).asleep s.chan
  | .loop thread _ _ =>
    match s.threads[thread]? with
    | some [c] => !(s.wait (some c)).asleep s.chan
    | _ => false
  | _ => false

/-- A sender sleeps although its channel has room. -/
def Server.Stranded (k : Params) (s : Server) : Prop :=
  ∃ c, ∃ d ∈ (s.chan c).sends, d.fut.point = .pending ∧ d.woken = false ∧
    (s.chan c).chan.inner.queue.length < k.capacity c

def Server.Sleeps (s : Server) : Prop :=
  ∀ p, (s.wait p).fut ≠ none → (s.wait p).asleep s.chan = true

section Enabled

variable {k : Params} {chan : Channels} {s : Server} {t : Experiment.State}

theorem driveSend_enabled {s : ChannelSystem.State Message} {i : ℕ}
    {d : ChannelSystem.Driven (SendFuture Message)} (hi : ChannelSystem.Inv s)
    (hd : s.sends[i]? = some d) (hl : d.dropped = false) (hp : d.fut.point ≠ .ready ()) :
    ∃ key t, driveSend s i key = some t := by
  unfold driveSend
  cases hpoll : ChannelSystem.step s (.pollSend i) with
  | some t => exact ⟨0, t, rfl⟩
  | none =>
    have hin : d.fut.point.stage.inPoll = true := by
      have hload := hi.loaded d (List.mem_of_getElem? hd)
      cases hpoint : d.fut.point with
      | fresh => simp [ChannelSystem.step, ChannelSystem.live, hd, hl, SendFuture.poll, hpoint] at hpoll
      | pending => simp [ChannelSystem.step, ChannelSystem.live, hd, hl, SendFuture.poll, hpoint] at hpoll
      | ready => exact absurd hpoint hp
      | panicked => simp [ChannelSystem.Loaded, hpoint] at hload
      | _ => rfl
    obtain ⟨key, ⟨ch, f, e⟩, hf⟩ := ChannelSystem.sendFuture_steps hin s.chan ⟨i, d.polls⟩
    exact ⟨key, _, ChannelSystem.stepSend_eq hd hl hf⟩

theorem driveRecv_enabled {s : ChannelSystem.State Message} {i : ℕ}
    {d : ChannelSystem.Driven (RecvFuture Message)} (hi : ChannelSystem.Inv s)
    (hd : s.recvs[i]? = some d) (hl : d.dropped = false) (hp : ∀ out, d.fut.point ≠ .ready out) :
    ∃ key t, driveRecv s i key = some t := by
  unfold driveRecv
  cases hpoll : ChannelSystem.step s (.pollRecv i) with
  | some t => exact ⟨0, t, rfl⟩
  | none =>
    have hin : d.fut.point.stage.inPoll = true := by
      have hharm := hi.unharmed d (List.mem_of_getElem? hd)
      cases hpoint : d.fut.point with
      | fresh => simp [ChannelSystem.step, ChannelSystem.live, hd, hl, RecvFuture.poll, hpoint] at hpoll
      | pending => simp [ChannelSystem.step, ChannelSystem.live, hd, hl, RecvFuture.poll, hpoint] at hpoll
      | ready out => exact absurd hpoint (hp out)
      | panicked => simp [Point.stage, hpoint] at hharm
      | _ => rfl
    obtain ⟨key, ⟨ch, f, e⟩, hf⟩ := ChannelSystem.recvFuture_steps hin s.chan ⟨i, d.polls⟩
    exact ⟨key, _, ChannelSystem.stepRecv_eq hd hl hf⟩

theorem awaitSend_enabled {β : Type} {dst : Chan} {msg : Message} {rest : Sending Chan β}
    {awaits : Option ℕ} (hc : Sound k chan) (hs : ∀ c, Attended (chan c))
    (hconn : true ∈ (chan dst).senders)
    (halive : (sendWait (Call.send dst msg rest : Sending Chan β) awaits).Alive chan) :
    ∃ handle key r, awaitSend chan handle key (.send dst msg rest : Sending Chan β) awaits = some r := by
  cases awaits with
  | none =>
    obtain ⟨handle, hh⟩ := List.mem_iff_getElem?.mp hconn
    exact ⟨handle, 0, by simp [awaitSend, ChannelSystem.step, hh]⟩
  | some i =>
    have hlt : i < (chan dst).sends.length := halive.1
    obtain ⟨d, hd⟩ : ∃ d, (chan dst).sends[i]? = some d := ⟨_, List.getElem?_eq_getElem hlt⟩
    have hl := (hs dst).sendsKept d (List.mem_of_getElem? hd)
    by_cases hp : d.fut.point = .ready ()
    · have hout : sendOutput (chan dst) i = some () := by simp [sendOutput, sendFuts, hd, hp]
      exact ⟨0, 0, by simp [awaitSend, hout]⟩
    · have hout : sendOutput (chan dst) i = none := by
        cases hpoint : d.fut.point with
        | ready => exact absurd hpoint hp
        | _ => simp [sendOutput, sendFuts, hd, hpoint]
      obtain ⟨key, t, ht⟩ := driveSend_enabled (hc.inv dst) hd hl hp
      exact ⟨0, key, by simp [awaitSend, hout, ht]⟩

theorem awaitRecv_enabled {c : Chan} {awaits : Option ℕ} (hc : Sound k chan)
    (hs : ∀ c, Attended (chan c)) (hconn : true ∈ (chan c).receivers)
    (halive : (recvWait c awaits).Alive chan) :
    ∃ handle key r, awaitRecv (chan c) handle key awaits = some r := by
  cases awaits with
  | none =>
    obtain ⟨handle, hh⟩ := List.mem_iff_getElem?.mp hconn
    exact ⟨handle, 0, by simp [awaitRecv, ChannelSystem.step, hh]⟩
  | some i =>
    have hlt : i < (chan c).recvs.length := halive
    obtain ⟨d, hd⟩ : ∃ d, (chan c).recvs[i]? = some d := ⟨_, List.getElem?_eq_getElem hlt⟩
    have hl := (hs c).recvsKept d (List.mem_of_getElem? hd)
    cases hout : recvOutput (chan c) i with
    | some out => exact ⟨0, 0, by simp [awaitRecv, hout]⟩
    | none =>
      have hp : ∀ out, d.fut.point ≠ .ready out := by
        intro out hp
        simp [recvOutput, recvFuts, hd, hp] at hout
      obtain ⟨key, t, ht⟩ := driveRecv_enabled (hc.inv c) hd hl hp
      exact ⟨0, key, by simp [awaitRecv, hout, ht]⟩

theorem Related.main_enabled (h : Related k s t) (ht : (plain k).Reachable t) (hs : Tended s)
    (hm : s.main ≠ []) : ∃ handle key u, stepMain s handle key = some u := by
  obtain ⟨op, ops, hmain⟩ := List.exists_cons_of_ne_nil hm
  have halive := h.main_alive
  rw [hmain] at halive
  cases op with
  | spawn recvs => exact ⟨0, 0, by simp [stepMain, hmain]⟩
  | block call =>
    cases call with
    | done => exact ⟨0, 0, by simp [stepMain, hmain]⟩
    | panic e => exact absurd (.inr ⟨ops, hmain⟩) (h.no_panic ht e)
    | send dst msg rest =>
      obtain ⟨handle, key, r, hr⟩ := awaitSend_enabled h.sound hs.attended (hs.connected dst).1 halive
      exact ⟨handle, key, by simp [stepMain, hmain, hr]⟩
  | detach call =>
    have hdetach : .detach call ∈ t.main := by
      rw [h.refines.main, hmain]
      cases s.awaits <;> exact List.mem_cons_self
    exact absurd rfl ((plain_inv ht).2.no_detach _ hdetach call)
  | recv c =>
    obtain ⟨handle, key, r, hr⟩ := awaitRecv_enabled h.sound hs.attended (hs.connected c).2 halive
    exact ⟨handle, key, by simp [stepMain, hmain, hr]⟩

theorem Related.loop_enabled (h : Related k s t) (ht : (plain k).Reachable t) (hs : Tended s)
    (c : Chan) : ∃ handle key u, stepLoop s c handle key = some u := by
  have halive := h.loop_alive c
  cases hl : s.loop c with
  | recv awaits =>
    rw [hl] at halive
    obtain ⟨handle, key, r, hr⟩ := awaitRecv_enabled h.sound hs.attended (hs.connected c).2 halive
    exact ⟨handle, key, by simp [stepLoop, hl, hr]⟩
  | handle call awaits =>
    rw [hl] at halive
    cases call with
    | done b => exact ⟨0, 0, by simp [stepLoop, hl]⟩
    | panic e => exact absurd (.inl ⟨c, awaits, hl⟩) (h.no_panic ht e)
    | send dst msg rest =>
      obtain ⟨handle, key, r, hr⟩ := awaitSend_enabled h.sound hs.attended (hs.connected dst).1 halive
      exact ⟨handle, key, by simp [stepLoop, hl, hr]⟩
  | drain =>
    obtain ⟨handle, hh⟩ := List.mem_iff_getElem?.mp (hs.connected c).2
    exact ⟨handle, 0, by simp [stepLoop, hl, ChannelSystem.step, hh]⟩
  | _ => exact absurd hl (h.serving c)

end Enabled

section Rest

variable {k : Params} {chan : Channels} {s : Server} {t : Experiment.State} {c : Chan}

theorem asleep_sending {dst : Chan} {msg : Message} {i : ℕ}
    (h : (Wait.sending dst msg i).asleep chan = true) : ∃ d, (chan dst).sends[i]? = some d ∧
      d.fut.point = .pending ∧ d.woken = false := by
  obtain ⟨d, hd, hp⟩ := (Option.any_eq_true _ _).mp h
  simp only [Bool.and_eq_true, decide_eq_true_eq, Bool.not_eq_true'] at hp
  refine ⟨d, hd, ?_, hp.2⟩
  cases hpoint : d.fut.point <;> simp [hpoint, Point.stage] at hp ⊢

theorem asleep_receiving {i : ℕ} (h : (Wait.receiving c i).asleep chan = true) :
    ∃ d, (chan c).recvs[i]? = some d ∧ d.fut.point = .pending ∧ d.woken = false := by
  obtain ⟨d, hd, hp⟩ := (Option.any_eq_true _ _).mp h
  simp only [Bool.and_eq_true, decide_eq_true_eq, Bool.not_eq_true'] at hp
  refine ⟨d, hd, ?_, hp.2⟩
  cases hpoint : d.fut.point <;> simp [hpoint, Point.stage] at hp ⊢

theorem asleep_sendWait {β : Type} {call : Sending Chan β} {awaits : Option ℕ}
    (h : (sendWait call awaits).asleep chan = true) :
    ∃ dst msg rest i, call = .send dst msg rest ∧ awaits = some i := by
  cases call with
  | send dst msg rest =>
    cases awaits with
    | none => cases h
    | some i => exact ⟨dst, msg, rest, i, rfl, rfl⟩
  | _ => cases awaits <;> cases h

theorem asleep_recvWait {awaits : Option ℕ} (h : (recvWait c awaits).asleep chan = true) :
    ∃ i, awaits = some i := by
  cases awaits with
  | none => cases h
  | some i => exact ⟨i, rfl⟩

theorem Tended.send_idle (hs : Tended s) (h : s.Sleeps) {d : ChannelSystem.Driven (SendFuture Message)}
    (hd : d ∈ (s.chan c).sends) : d.fut.point = .ready () ∨ d.fut.point = .pending ∧ d.woken = false := by
  by_cases hp : d.fut.point = .ready ()
  · exact .inl hp
  right
  obtain ⟨i, hget⟩ := List.mem_iff_getElem?.mp hd
  obtain ⟨p, hw⟩ := hs.accounted (.send c i) ⟨d.fut, by simp [sendFuts, hget], hp⟩
  have hasleep := h p (by simp [hw])
  cases hwait : s.wait p with
  | nothing => simp [hwait, Wait.fut] at hw
  | receiving c' j => simp [hwait, Wait.fut] at hw
  | sending dst msg j =>
    simp only [hwait, Wait.fut, Option.some.injEq, Fut.send.injEq] at hw
    obtain ⟨rfl, rfl⟩ := hw
    rw [hwait] at hasleep
    obtain ⟨d', hd', hpend⟩ := asleep_sending hasleep
    obtain rfl := Option.some.inj (hget.symm.trans hd')
    exact hpend

theorem Tended.recv_idle (hs : Tended s) (h : s.Sleeps) {d : ChannelSystem.Driven (RecvFuture Message)}
    (hd : d ∈ (s.chan c).recvs) :
    (∃ out, d.fut.point = .ready out) ∨ d.fut.point = .pending ∧ d.woken = false := by
  by_cases hp : ∃ out, d.fut.point = .ready out
  · exact .inl hp
  right
  obtain ⟨i, hget⟩ := List.mem_iff_getElem?.mp hd
  obtain ⟨p, hw⟩ := hs.accounted (.recv c i)
    ⟨d.fut, by simp [recvFuts, hget], fun out hout => hp ⟨out, hout⟩⟩
  have hasleep := h p (by simp [hw])
  cases hwait : s.wait p with
  | nothing => simp [hwait, Wait.fut] at hw
  | sending dst msg j => simp [hwait, Wait.fut] at hw
  | receiving c' j =>
    simp only [hwait, Wait.fut, Option.some.injEq, Fut.recv.injEq] at hw
    obtain ⟨rfl, rfl⟩ := hw
    rw [hwait] at hasleep
    obtain ⟨d', hd', hpend⟩ := asleep_receiving hasleep
    obtain rfl := Option.some.inj (hget.symm.trans hd')
    exact hpend

theorem Tended.quiescent (hs : Tended s) (h : s.Sleeps) (c : Chan) : Quiescent (s.chan c) := by
  constructor
  case sends =>
    intro d hd
    rcases hs.send_idle h hd with hp | ⟨hp, -⟩
    · rw [hp]
      rfl
    · rw [hp]
      rfl
  case recvs =>
    intro d hd
    rcases hs.recv_idle h hd with ⟨out, hp⟩ | ⟨hp, -⟩
    · rw [hp]
      rfl
    · rw [hp]
      rfl
  case sendsPolled =>
    intro d hd hpend _
    rcases hs.send_idle h hd with hp | ⟨-, hw⟩
    · simp [hp, Point.stage] at hpend
    · exact hw
  case recvsPolled =>
    intro d hd hpend _
    rcases hs.recv_idle h hd with ⟨out, hp⟩ | ⟨-, hw⟩
    · simp [hp, Point.stage] at hpend
    · exact hw

theorem Related.blocked (h : Related k s t) (hfull : ¬ s.Stranded k) {dst : Chan} {msg : Message} {i : ℕ}
    (halive : (Wait.sending dst msg i).Alive s.chan)
    (hasleep : (Wait.sending dst msg i).asleep s.chan = true) :
    held (s.chan dst) (.send i) = some msg ∧ ¬ (t.net.queue dst).length < k.capacity dst := by
  obtain ⟨d, hd, hp, hw⟩ := asleep_sending hasleep
  have hmem := List.mem_of_getElem? hd
  have hload := (h.sound.inv dst).loaded d hmem
  obtain ⟨msg', hmsg⟩ := Option.isSome_iff_exists.mp (by simpa [ChannelSystem.Loaded, hp] using hload)
  have hheld : held (s.chan dst) (.send i) = some msg' := by
    simp [held, sendFuts, hd, ChannelSystem.heldBy, hp, hmsg]
  refine ⟨by rw [hheld, halive.2 msg' hheld], ?_⟩
  rw [h.refines.mirrors.queue]
  exact fun hroom => hfull ⟨dst, d, hmem, hp, hw, hroom⟩

theorem Related.starved (h : Related k s t) (hs : Tended s) (hsleep : s.Sleeps) {i : ℕ}
    (hasleep : (Wait.receiving c i).asleep s.chan = true) :
    received (s.chan c) (.recv i) = none ∧ t.net.queue c = [] := by
  obtain ⟨d, hd, hp, -⟩ := asleep_receiving hasleep
  refine ⟨by simp [received, recvFuts, hd, ChannelSystem.takenBy, hp], ?_⟩
  rw [h.refines.mirrors.queue]
  exact (hs.attended c).empty (h.sound.inv c) (hs.quiescent hsleep c) (List.mem_of_getElem? hd) hp

theorem plain_threads (ht : (plain k).Reachable t) {recvs : List Chan} (hr : recvs ∈ t.threads) :
    ∃ c, recvs = [c] := by
  have hsingle : ∀ recvs, recvs ∈ t.threads ∨ .spawn recvs ∈ t.main → ∃ c, recvs = [c] := by
    apply ht.invariant (I := fun t : Experiment.State =>
      ∀ recvs, recvs ∈ t.threads ∨ .spawn recvs ∈ t.main → ∃ c, recvs = [c])
    · intro recvs hr
      have hspawn := hr.resolve_left (by simp [plain, Experiment.system, Experiment.start])
      simp only [plain, Experiment.system, Experiment.start, crossbeamAsyncDriver,
        Experiment.setupTasks_eq] at hspawn
      rcases Experiment.mem_setupOps hspawn with heq | ⟨c, -, heq⟩ | hnil | ⟨c, msg, heq⟩
      · exact ⟨_, Op.spawn.inj heq⟩
      · exact ⟨c, Op.spawn.inj (List.mem_singleton.mp heq)⟩
      · cases hnil
      · cases heq
    · intro t a t' hi _ hstep recvs hr
      exact hi recvs (((Experiment.step_does hstep).threads (wires_crossbeamAsync k) recvs).mp hr)
  exact hsingle recvs (.inl hr)

theorem Related.halted (h : Related k s t) (ht : (plain k).Reachable t) (hs : Tended s)
    (hsleep : s.Sleeps) (hfull : ¬ s.Stranded k) (hmain : (s.wait none).asleep s.chan = true)
    (hloops : ∀ c, [c] ∈ s.threads → (s.wait (some c)).asleep s.chan = true) :
    t.main ≠ [] ∧ Experiment.Halted crossbeamAsyncDriver k t := by
  have hmainStep : t.main ≠ [] ∧ Experiment.stepMain k t = none := by
    have halive := h.main_alive
    have htmain := h.refines.main
    change (mainWait s.main s.awaits).asleep s.chan = true at hmain
    rcases hm : s.main with _ | ⟨op, ops⟩
    · rw [hm] at hmain
      cases hmain
    rw [hm] at hmain halive htmain
    cases op with
    | block call =>
      obtain ⟨dst, msg, rest, i, rfl, haw⟩ := asleep_sendWait hmain
      rw [haw] at hmain halive htmain
      obtain ⟨hheld, hblocked⟩ := h.blocked hfull halive hmain
      simp only [mainOf, effective, hheld, Option.isSome_some, if_true] at htmain
      simp [Experiment.stepMain, htmain, Net.deliver, hblocked]
    | recv c =>
      obtain ⟨i, haw⟩ := asleep_recvWait hmain
      rw [haw] at hmain htmain
      obtain ⟨hnone, hempty⟩ := h.starved hs hsleep hmain
      simp only [mainOf, hnone, Option.isSome_none, Bool.false_eq_true, if_false] at htmain
      simp [Experiment.stepMain, htmain, Net.take, hempty]
    | spawn recvs => cases hmain
    | detach call => cases hmain
  have hcall : ∀ c, (t.net.call c = none ∧ ([c] ∈ t.threads → t.net.queue c = [])) ∨
      ∃ dst msg rest, t.net.call c = some (.send dst msg rest) ∧
        ¬ (t.net.queue dst).length < k.capacity dst := by
    intro c
    have halive := h.loop_alive c
    have htcall := h.refines.call c
    by_cases hserved : [c] ∈ s.threads
    · have hasleep : ((s.loop c).wait c).asleep s.chan = true := hloops c hserved
      cases hl : s.loop c with
      | recv awaits =>
        rw [hl] at hasleep htcall
        cases awaits with
        | none => cases hasleep
        | some i =>
          obtain ⟨hnone, hempty⟩ := h.starved hs hsleep hasleep
          refine .inl ⟨?_, fun _ => hempty⟩
          simp [htcall, callOf, hnone]
      | handle call awaits =>
        rw [hl] at hasleep htcall halive
        obtain ⟨dst, msg, rest, i, rfl, rfl⟩ := asleep_sendWait hasleep
        obtain ⟨hheld, hblocked⟩ := h.blocked hfull halive hasleep
        refine .inr ⟨dst, msg, rest, ?_, hblocked⟩
        simp [htcall, callOf, effective, hheld]
      | _ =>
        rw [hl] at hasleep
        cases hasleep
    · have hl : s.loop c = .recv none := by
        by_contra hne
        exact hserved (hs.served c hne)
      rw [hl] at htcall
      exact .inl ⟨htcall, fun hthread => absurd (h.refines.threads ▸ hthread) hserved⟩
  refine ⟨hmainStep.1, ?_⟩
  intro a ha
  cases a with
  | main => exact hmainStep.2
  | run => exact absurd rfl ha
  | receive thread index =>
    simp only [Experiment.step, Experiment.stepReceive]
    split
    next recvs hthread =>
      obtain ⟨c, rfl⟩ := plain_threads ht (List.mem_of_getElem? hthread)
      rcases hcall c with ⟨hnone, hempty⟩ | ⟨dst, msg, rest, hsome, -⟩
      · cases index with
        | zero => simp [hnone, Net.accept, hempty (List.mem_of_getElem? hthread)]
        | succ index => simp
      · simp [hsome]
    next => rfl
  | advance c =>
    rcases hcall c with ⟨hnone, -⟩ | ⟨dst, msg, rest, hsome, hblocked⟩
    · simp [Experiment.step, Net.advance, hnone]
    · simp [Experiment.step, Net.advance, hsome, hblocked]
  | task j => simp [Experiment.step, Experiment.stepTask, h.refines.tasks]

theorem Tended.not_stranded (hs : Tended s) (hsound : Sound k s.chan) (hsleep : s.Sleeps)
    (hrelieved : ∀ c, Relieved (s.chan c)) : ¬ s.Stranded k := by
  rintro ⟨c, d, hd, hp, -, hroom⟩
  have hcap : (s.chan c).chan.inner.cap = some (k.capacity c) :=
    (ChannelSystem.reaches_inv (hsound c)).2
  have hfull := (hrelieved c).full (hs.attended c) (hsound.inv c) (hs.quiescent hsleep c) hcap hd hp
  exact Nat.lt_irrefl _ (Nat.lt_of_lt_of_le hroom hfull)

theorem hang_stranded (h : (server k).ReachableBy (fun s e => keepsHandles s e = true) s)
    (hm : s.main ≠ []) (hnone : ∀ e u, awake s e = true → step k s e ≠ some u) :
    s.Sleeps ∧ s.Stranded k := by
  obtain ⟨t, ht, hr⟩ := reaches_related h.reachable
  have hs := reaches_tended h
  have hmain : (s.wait none).asleep s.chan = true := by
    by_contra hawake
    obtain ⟨handle, key, u, hu⟩ := hr.main_enabled ht hs hm
    exact hnone (.main handle key) u (by simpa [awake] using hawake) hu
  have hloops : ∀ c, [c] ∈ s.threads → (s.wait (some c)).asleep s.chan = true := by
    intro c hc
    by_contra hawake
    obtain ⟨thread, hthread⟩ := List.mem_iff_getElem?.mp hc
    obtain ⟨handle, key, u, hu⟩ := hr.loop_enabled ht hs c
    exact hnone (.loop thread handle key) u (by simpa [awake, hthread] using hawake)
      (by simp [step, hthread, hu])
  have hsleep : s.Sleeps := by
    intro p hp
    cases p with
    | none => exact hmain
    | some c =>
      apply hloops c
      apply hs.served c
      intro hl
      simp [Server.wait, hl, Loop.wait, recvWait, Wait.fut] at hp
  refine ⟨hsleep, ?_⟩
  by_contra hfull
  obtain ⟨hne, hhalted⟩ := hr.halted ht hs hsleep hfull hmain hloops
  exact hne ((plain_inv ht).1.halted_rests (plain_inv ht).2 (wires_crossbeamAsync k) hhalted)

end Rest

/-- As long as `main` is not done, some task has a step that is no poll of a sleeping future, or a sender
sleeps on a channel with room. Where no inner loop takes a message behind a sleeping sender's back it is
always the former. -/
theorem async_pipeline_hangs_only_stranded {k : Params} {s : Server}
    (h : (server k).ReachableBy (fun s e => keepsHandles s e = true) s) (hm : s.main ≠ []) :
    ((∃ e u, awake s e = true ∧ step k s e = some u) ∨ s.Stranded k) ∧
    ((server k).ReachableBy (fun s e => takesAwake s e = true) s →
      ∃ e u, awake s e = true ∧ step k s e = some u) := by
  have hcases : (∃ e u, awake s e = true ∧ step k s e = some u) ∨ s.Sleeps ∧ s.Stranded k := by
    by_contra hnone
    rw [not_or] at hnone
    exact hnone.2 (hang_stranded h hm fun e u ha hu => hnone.1 ⟨e, u, ha, hu⟩)
  refine ⟨hcases.imp_right And.right, fun hawake => ?_⟩
  rcases hcases with hstep | ⟨hsleep, hstranded⟩
  · exact hstep
  · obtain ⟨t, -, hr⟩ := reaches_related h.reachable
    exact absurd hstranded
      ((reaches_tended h).not_stranded hr.sound hsleep (reaches_relieved hawake))

def pausedRun : Option Server := (server Experiment.small).exec
  (fun s e => keepsHandles s e && takesAwake s e) (start Experiment.small) (smallServerRun.take 55)

theorem pausedRun_isSome : pausedRun.isSome = true := by decide +kernel

def paused : Server := pausedRun.get pausedRun_isSome

theorem paused_reachable : (server Experiment.small).ReachableBy
    (fun s e => keepsHandles s e = true ∧ takesAwake s e = true) paused :=
  System.Reaches.mono (fun _ _ h => Bool.and_eq_true_iff.mp h) (System.exec_get _ _ _ _ pausedRun_isSome)

def tight : Params :=
  ⟨2, 1, 3, fun _ => 1, Nat.two_pos, Nat.one_pos, Nat.succ_pos _, fun _ => Nat.one_pos⟩

/-- `main` falls asleep on its third message, and only then the inner loop takes the second. -/
def stallRun : Option Server := (server tight).exec keepsHandles (start tight)
  [List.replicate 24 (.main 0 0), List.replicate 8 (.loop 1 0 0), List.replicate 8 (.loop 2 0 0),
    List.replicate 7 (.loop 0 0 0), [.run], List.replicate 7 (.main 0 0), List.replicate 7 (.loop 1 0 0),
    List.replicate 11 (.main 0 0), List.replicate 13 (.loop 1 0 0), List.replicate 14 (.loop 2 0 0),
    List.replicate 13 (.loop 1 0 0), List.replicate 13 (.loop 2 0 0), List.replicate 6 (.loop 0 0 0)].flatten

theorem stallRun_isSome : stallRun.isSome = true := by decide +kernel

def stalled : Server := stallRun.get stallRun_isSome

theorem stalled_reachable : (server tight).ReachableBy (fun s e => keepsHandles s e = true) stalled :=
  System.exec_get _ _ _ _ stallRun_isSome

theorem stalled_sleeps (e : Event) : awake stalled e = false := by
  have hthreads : stalled.threads = [[.concentrator], [.lane 0 1], [.lane 0 2]] := by decide +kernel
  have hmain : (stalled.wait none).asleep stalled.chan = true := by decide +kernel
  have hloops : ∀ c ∈ [.concentrator, .lane 0 1, .lane 0 2],
      (stalled.wait (some c)).asleep stalled.chan = true := by decide +kernel
  cases e with
  | main handle key => simp [awake, hmain]
  | loop thread handle key =>
    rcases thread with _ | _ | _ | thread <;> simp [awake, hthreads, hloops]
  | _ => rfl

theorem async_pipeline_hangs_only_stranded_small :
    (∃ e u, awake paused e = true ∧ step Experiment.small paused e = some u) ∧ stalled.Stranded tight := by
  have hpaused : paused.main ≠ [] := List.isEmpty_eq_false_iff.mp (by decide +kernel)
  have hstalled : stalled.main ≠ [] := List.isEmpty_eq_false_iff.mp (by decide +kernel)
  refine ⟨(async_pipeline_hangs_only_stranded (paused_reachable.mono fun _ _ h => h.1) hpaused).2
    (paused_reachable.mono fun _ _ h => h.2), ?_⟩
  refine (async_pipeline_hangs_only_stranded stalled_reachable hstalled).1.resolve_left ?_
  rintro ⟨e, u, hawake, -⟩
  rw [stalled_sleeps] at hawake
  cases hawake

end ChannelExecutor.AsyncPipeline
