import ChannelExecutor.AsyncPipeline

set_option autoImplicit false

namespace ChannelExecutor.AsyncPipeline

open Lib (Call Net System)
open Experiment (Chan Message Op Panic Sending Forwarder Params crossbeamAsyncDriver newForwarder)
open ChannelSystem (Does held received Shift Touches)

inductive Wait
  | nothing
  | sending (dst : Chan) (msg : Message) (i : ℕ)
  | receiving (c : Chan) (i : ℕ)

def sendWait {β : Type} (call : Sending Chan β) (awaits : Option ℕ) : Wait :=
  match call, awaits with
  | .send dst msg _, some i => .sending dst msg i
  | _, _ => .nothing

def recvWait (c : Chan) (awaits : Option ℕ) : Wait :=
  match awaits with
  | some i => .receiving c i
  | none => .nothing

def Loop.wait (c : Chan) : Loop → Wait
  | .recv awaits => recvWait c awaits
  | .handle call awaits => sendWait call awaits
  | _ => .nothing

def outWait (c : Chan) : ℕ ⊕ Except RecvError Message → Wait
  | .inl i => .receiving c i
  | .inr _ => .nothing

def mainWait (main : List Op) (awaits : Option ℕ) : Wait :=
  match main with
  | .block call :: _ => sendWait call awaits
  | .recv c :: _ => recvWait c awaits
  | _ => .nothing

def Server.wait (s : Server) : Option Chan → Wait
  | none => mainWait s.main s.awaits
  | some c => (s.loop c).wait c

theorem wait_of_loop {s t : Server} (h : t.loop = s.loop) {q : Option Chan} (hq : q ≠ none) :
    t.wait q = s.wait q := by
  cases q with
  | none => exact absurd rfl hq
  | some c => simp only [Server.wait, h]

theorem wait_of_main {s t : Server} {c : Chan} (hm : t.main = s.main) (ha : t.awaits = s.awaits)
    (hl : ∀ c', c' ≠ c → t.loop c' = s.loop c') {q : Option Chan} (hq : q ≠ some c) :
    t.wait q = s.wait q := by
  cases q with
  | none => simp only [Server.wait, hm, ha]
  | some c' =>
    have hc : c' ≠ c := fun heq => hq (congrArg some heq)
    simp only [Server.wait, hl c' hc]

theorem sendWait_none {β : Type} (call : Sending Chan β) : sendWait call none = .nothing := by
  cases call <;> rfl

theorem mainWait_none (main : List Op) : mainWait main none = .nothing := by
  rcases main with _ | ⟨op, ops⟩
  · rfl
  · cases op with
    | block call => exact sendWait_none call
    | _ => rfl

theorem mainWait_after (c : Chan) (ops : List Op) (out : ℕ ⊕ Except RecvError Message) :
    mainWait (mainAfter c ops out).1 (mainAfter c ops out).2 = outWait c out := by
  cases out with
  | inl i => rfl
  | inr res => exact mainWait_none ops

theorem afterRecv_wait (b : Forwarder Chan) (c : Chan) (out : ℕ ⊕ Except RecvError Message) :
    (afterRecv b out).wait c = outWait c out := by
  rcases out with i | res
  · rfl
  · cases res with
    | error e => rfl
    | ok msg => exact sendWait_none _

theorem afterTry_wait (b : Forwarder Chan) (c : Chan) (res : Except TryRecvError Message) :
    (afterTry b res).wait c = .nothing := by
  cases res with
  | error e => rfl
  | ok msg => exact sendWait_none _

theorem afterHandle_wait (c : Chan) : (afterHandle c).wait c = .nothing := by cases c <;> rfl

def Wait.view (chan : Channels) : Wait → Option Message
  | .nothing => none
  | .sending dst _ i => held (chan dst) (.send i)
  | .receiving c i => received (chan c) (.recv i)

def Wait.Alive (chan : Channels) : Wait → Prop
  | .nothing => True
  | .sending dst msg i =>
    i < (chan dst).sends.length ∧ ∀ msg', held (chan dst) (.send i) = some msg' → msg' = msg
  | .receiving c i => i < (chan c).recvs.length

def Wait.Apart : Wait → Wait → Prop
  | .sending dst _ i, .sending dst' _ j => dst = dst' → i ≠ j
  | .receiving c i, .receiving c' j => c = c' → i ≠ j
  | _, _ => True

theorem Wait.Apart.symm {w w' : Wait} (h : w.Apart w') : w'.Apart w := by
  cases w <;> cases w' <;> first | trivial | exact fun hc hi => h hc.symm hi.symm

def Disturbs (chan chan' : Channels) (w : Wait) : Prop :=
  ∀ w' : Wait, w.Apart w' → w'.Alive chan → w'.Alive chan' ∧ w'.view chan' = w'.view chan

structure Passes (chan chan' : Channels) (w w' : Wait) : Prop where
  disturbs : Disturbs chan chan' w
  alive : w'.Alive chan'
  apart : ∀ v : Wait, w.Apart v → v.Alive chan → w'.Apart v

structure Owned (s : Server) : Prop where
  alive : ∀ p, (s.wait p).Alive s.chan
  apart : ∀ p q, p ≠ q → (s.wait p).Apart (s.wait q)

section Ownership

variable {chan chan' : Channels} {c : Chan} {s : ChannelSystem.State Message}

theorem touches_disturbs {o r : Option ℕ} (h : Touches (chan c) s o r) {w : Wait}
    (ho : ∀ i, o = some i → ∃ msg, w = .sending c msg i) (hr : ∀ i, r = some i → w = .receiving c i) :
    Disturbs chan (Function.update chan c s) w := by
  intro w' hapart halive
  cases w' with
  | nothing => exact ⟨trivial, rfl⟩
  | sending dst msg i =>
    by_cases hdst : dst = c
    · subst hdst
      obtain ⟨hlt, hmsg⟩ := halive
      have hne : o ≠ some i := by
        intro heq
        obtain ⟨msg', rfl⟩ := ho i heq
        exact hapart rfl rfl
      have hheld := h.held i hlt hne
      simp only [Wait.Alive, Wait.view, Function.update_self, hheld]
      exact ⟨⟨Nat.lt_of_lt_of_le hlt h.sends, hmsg⟩, trivial⟩
    · simp only [Wait.Alive, Wait.view, Function.update_of_ne hdst]
      exact ⟨halive, trivial⟩
  | receiving c' i =>
    by_cases hc : c' = c
    · subst hc
      have hne : r ≠ some i := by
        intro heq
        obtain rfl := hr i heq
        exact hapart rfl rfl
      have hreceived := h.received i halive hne
      simp only [Wait.Alive, Wait.view, Function.update_self, hreceived]
      exact ⟨Nat.lt_of_lt_of_le halive h.recvs, trivial⟩
    · simp only [Wait.Alive, Wait.view, Function.update_of_ne hc]
      exact ⟨halive, trivial⟩

theorem Disturbs.refl (w : Wait) : Disturbs chan chan w := fun _ _ halive => ⟨halive, rfl⟩

theorem Passes.leave {w : Wait} (h : Disturbs chan chan' w) : Passes chan chan' w .nothing :=
  ⟨h, trivial, fun v _ _ => by cases v <;> trivial⟩

theorem SendStep.passes {β : Type} {call call' : Sending Chan β} {awaits awaits' : Option ℕ}
    (h : SendStep chan call awaits chan' call' awaits') (halive : (sendWait call awaits).Alive chan) :
    Passes chan chan' (sendWait call awaits) (sendWait call' awaits') := by
  cases h with
  | create hd hs ht hlen hnew =>
    refine ⟨touches_disturbs ht (by simp) (by simp), ⟨?_, ?_⟩, ?_⟩
    · simp only [Function.update_self, hlen]
      omega
    · intro msg' hmsg'
      simp only [Function.update_self, hnew, Option.some.injEq] at hmsg'
      exact hmsg'.symm
    · intro v _ hv
      cases v with
      | sending dst' msg' j =>
        rintro rfl rfl
        exact Nat.lt_irrefl _ hv.1
      | _ => trivial
  | @quiet dst msg rest i s a hd ha hs ht =>
    refine ⟨touches_disturbs ht (by simp) (by simp), ⟨?_, ?_⟩, fun v hv _ => hv⟩
    · simp only [Function.update_self]
      exact Nat.lt_of_lt_of_le halive.1 ht.sends
    · intro msg' hmsg'
      simp only [Function.update_self, ht.held i halive.1 (by simp)] at hmsg'
      exact halive.2 msg' hmsg'
  | @put dst msg msg' rest i s a hd ha hmsg hfull hs ht hgone =>
    refine ⟨touches_disturbs ht ?_ (by simp), ⟨?_, ?_⟩, fun v hv _ => hv⟩
    · intro j hj
      obtain rfl := Option.some.inj hj
      exact ⟨msg, rfl⟩
    · simp only [Function.update_self]
      exact Nat.lt_of_lt_of_le halive.1 ht.sends
    · intro msg' hmsg'
      simp [Function.update_self, hgone] at hmsg'
  | back hf hp hnone =>
    refine ⟨.refl _, ?_, fun v _ _ => ?_⟩
    · simp [sendWait, Wait.Alive]
    · simp [sendWait, Wait.Apart]

theorem RecvStep.passes {awaits : Option ℕ} {out : ℕ ⊕ Except RecvError Message}
    (h : RecvStep (chan c) awaits s out) (halive : (recvWait c awaits).Alive chan) :
    Passes chan (Function.update chan c s) (recvWait c awaits) (outWait c out) := by
  cases h with
  | create hd hs ht hlen hnew =>
    refine ⟨touches_disturbs ht (by simp) (by simp), ?_, ?_⟩
    · simp only [outWait, Wait.Alive, Function.update_self, hlen]
      exact Nat.lt_succ_self _
    · intro v _ hv
      cases v with
      | receiving c' j =>
        rintro rfl rfl
        exact Nat.lt_irrefl _ hv
      | _ => trivial
  | quiet hd ha hs ht =>
    refine ⟨touches_disturbs ht (by simp) (by simp), ?_, fun v hv _ => hv⟩
    simp only [outWait, Wait.Alive, Function.update_self]
    exact Nat.lt_of_lt_of_le halive ht.recvs
  | got hd ha hnone hs ht htaken =>
    refine ⟨touches_disturbs ht (by simp) ?_, ?_, fun v hv _ => hv⟩
    · intro j hj
      obtain rfl := Option.some.inj hj
      rfl
    · simp only [outWait, Wait.Alive, Function.update_self]
      exact Nat.lt_of_lt_of_le halive ht.recvs
  | back hf hp htaken =>
    rw [Function.update_eq_self]
    exact .leave (.refl _)

theorem Owned.step {s t : Server} (hs : Owned s) {p : Option Chan}
    (h : Passes s.chan t.chan (s.wait p) (t.wait p)) (hq : ∀ q, q ≠ p → t.wait q = s.wait q) :
    Owned t ∧ ∀ q, q ≠ p → (s.wait q).view t.chan = (s.wait q).view s.chan := by
  have hothers : ∀ q, q ≠ p → (s.wait q).Alive t.chan ∧ (s.wait q).view t.chan = (s.wait q).view s.chan :=
    fun q hne => h.disturbs _ (hs.apart p q hne.symm) (hs.alive q)
  have hapart : ∀ q, q ≠ p → (t.wait p).Apart (s.wait q) :=
    fun q hne => h.apart _ (hs.apart p q hne.symm) (hs.alive q)
  refine ⟨⟨?_, ?_⟩, fun q hne => (hothers q hne).2⟩
  · intro q
    by_cases hne : q = p
    · subst hne
      exact h.alive
    · rw [hq q hne]
      exact (hothers q hne).1
  · intro q r hqr
    by_cases hqp : q = p
    · subst hqp
      rw [hq r hqr.symm]
      exact hapart r hqr.symm
    · by_cases hrp : r = p
      · subst hrp
        rw [hq q hqp]
        exact (hapart q hqp).symm
      · rw [hq q hqp, hq r hrp]
        exact hs.apart q r hqr

theorem Owned.still {s t : Server} (hs : Owned s) (h : Disturbs s.chan t.chan .nothing)
    (hq : ∀ q, t.wait q = s.wait q) :
    Owned t ∧ ∀ q, (s.wait q).view t.chan = (s.wait q).view s.chan := by
  have hall : ∀ q, (s.wait q).Alive t.chan ∧ (s.wait q).view t.chan = (s.wait q).view s.chan :=
    fun q => h _ (by cases s.wait q <;> trivial) (hs.alive q)
  refine ⟨⟨?_, ?_⟩, fun q => (hall q).2⟩
  · intro q
    rw [hq]
    exact (hall q).1
  · intro q r hqr
    rw [hq, hq]
    exact hs.apart q r hqr

end Ownership

structure Mirrors (n : Net Chan Message (Panic Chan) (Forwarder Chan)) (chan : Channels) : Prop where
  queue : ∀ c, n.queue c = (chan c).chan.inner.queue
  put : ∀ c, n.put c = (chan c).history.enqueued.map Prod.snd
  got : ∀ c, n.got c = (chan c).history.handedOut.map Prod.snd

/-- What is left of a call once its first message is in the queue. -/
def effective {β : Type} (chan : Channels) (call : Sending Chan β) (awaits : Option ℕ) :
    Sending Chan β :=
  match call, awaits with
  | .send dst msg rest, some i =>
    if (held (chan dst) (.send i)).isSome then .send dst msg rest else rest
  | call, _ => call

def callOf (chan : Channels) (b : Forwarder Chan) (c : Chan) : Loop → Option (Sending Chan (Forwarder Chan))
  | .recv (some i) => (received (chan c) (.recv i)).map (Experiment.AsyncForwarder.receive b)
  | .handle call awaits => some (effective chan call awaits)
  | _ => none

def mainOf (chan : Channels) (main : List Op) (awaits : Option ℕ) : List Op :=
  match main, awaits with
  | .block call :: ops, _ => .block (effective chan call awaits) :: ops
  | .recv c :: ops, some i => if (received (chan c) (.recv i)).isSome then ops else .recv c :: ops
  | main, _ => main

structure Refines (s : Server) (t : Experiment.State) : Prop where
  mirrors : Mirrors t.net s.chan
  proc : t.net.proc = s.proc
  call : ∀ c, t.net.call c = callOf s.chan (s.proc c) c (s.loop c)
  main : t.main = mainOf s.chan s.main s.awaits
  tasks : t.tasks = []
  threads : t.threads = s.threads
  runs : t.runs = s.runs

section Mirrors

variable {n : Net Chan Message (Panic Chan) (Forwarder Chan)} {chan chan' : Channels} {c : Chan}
variable {s : ChannelSystem.State Message}

theorem Mirrors.update (h : Mirrors n chan)
    {n' : Net Chan Message (Panic Chan) (Forwarder Chan)}
    (hqueue : n'.queue = Function.update n.queue c s.chan.inner.queue)
    (hput : n'.put = Function.update n.put c (s.history.enqueued.map Prod.snd))
    (hgot : n'.got = Function.update n.got c (s.history.handedOut.map Prod.snd)) :
    Mirrors n' (Function.update chan c s) := by
  have hall : ∀ c', n'.queue c' = (Function.update chan c s c').chan.inner.queue ∧
      n'.put c' = (Function.update chan c s c').history.enqueued.map Prod.snd ∧
      n'.got c' = (Function.update chan c s c').history.handedOut.map Prod.snd := by
    intro c'
    rw [hqueue, hput, hgot]
    by_cases hc : c' = c
    · subst hc
      simp only [Function.update_self, and_self]
    · simp only [Function.update_of_ne hc]
      exact ⟨h.queue c', h.put c', h.got c'⟩
  exact ⟨fun c' => (hall c').1, fun c' => (hall c').2.1, fun c' => (hall c').2.2⟩

theorem Mirrors.quiet (h : Mirrors n chan) (hs : Shift (chan c) s [] []) :
    Mirrors n (Function.update chan c s) := by
  have hqueue : s.chan.inner.queue = n.queue c := by simpa [h.queue] using hs.queue.symm
  have hput : s.history.enqueued.map Prod.snd = n.put c := by simpa [h.put] using hs.enqueued
  have hgot : s.history.handedOut.map Prod.snd = n.got c := by simpa [h.got] using hs.handedOut
  apply h.update
  · rw [hqueue, Function.update_eq_self]
  · rw [hput, Function.update_eq_self]
  · rw [hgot, Function.update_eq_self]

theorem Mirrors.push (h : Mirrors n chan) {msg : Message} (hs : Shift (chan c) s [msg] []) :
    Mirrors (n.push c msg) (Function.update chan c s) := by
  have hqueue : s.chan.inner.queue = n.queue c ++ [msg] := by simpa [h.queue] using hs.queue.symm
  have hput : s.history.enqueued.map Prod.snd = n.put c ++ [msg] := by
    simpa [h.put] using hs.enqueued
  have hgot : s.history.handedOut.map Prod.snd = n.got c := by simpa [h.got] using hs.handedOut
  apply h.update
  · rw [hqueue]
    rfl
  · rw [hput]
    rfl
  · rw [hgot, Function.update_eq_self]
    rfl

theorem Mirrors.pop (h : Mirrors n chan) {msg : Message} (hs : Shift (chan c) s [] [msg]) :
    n.queue c = msg :: s.chan.inner.queue ∧
      Mirrors (n.pop c msg s.chan.inner.queue) (Function.update chan c s) := by
  have hput : s.history.enqueued.map Prod.snd = n.put c := by simpa [h.put] using hs.enqueued
  have hgot : s.history.handedOut.map Prod.snd = n.got c ++ [msg] := by
    simpa [h.got] using hs.handedOut
  refine ⟨by simpa [h.queue] using hs.queue, ?_⟩
  apply h.update
  · rfl
  · rw [hput, Function.update_eq_self]
    rfl
  · rw [hgot]
    rfl

theorem effective_none {β : Type} (call : Sending Chan β) : effective chan call none = call := by
  cases call <;> rfl

theorem mainOf_none (main : List Op) : mainOf chan main none = main := by
  rcases main with _ | ⟨op, ops⟩
  · rfl
  · cases op with
    | block call => simp only [mainOf, effective_none]
    | _ => rfl

theorem effective_congr {β : Type} {call : Sending Chan β} {awaits : Option ℕ}
    (h : (sendWait call awaits).view chan' = (sendWait call awaits).view chan) :
    effective chan' call awaits = effective chan call awaits := by
  cases call with
  | send dst msg rest =>
    cases awaits with
    | none => rfl
    | some i =>
      change held (chan' dst) (.send i) = held (chan dst) (.send i) at h
      simp only [effective, h]
  | _ => cases awaits <;> rfl

theorem callOf_congr {b : Forwarder Chan} {l : Loop}
    (h : (l.wait c).view chan' = (l.wait c).view chan) : callOf chan' b c l = callOf chan b c l := by
  cases l with
  | recv awaits =>
    cases awaits with
    | none => rfl
    | some i =>
      change received (chan' c) (.recv i) = received (chan c) (.recv i) at h
      simp only [callOf, h]
  | handle call awaits => exact congrArg some (effective_congr h)
  | _ => rfl

theorem mainOf_congr {main : List Op} {awaits : Option ℕ}
    (h : (mainWait main awaits).view chan' = (mainWait main awaits).view chan) :
    mainOf chan' main awaits = mainOf chan main awaits := by
  rcases main with _ | ⟨op, ops⟩
  · rfl
  · cases op with
    | block call => simp only [mainOf, effective_congr h]
    | recv c =>
      cases awaits with
      | none => rfl
      | some i =>
        change received (chan' c) (.recv i) = received (chan c) (.recv i) at h
        simp only [mainOf, h]
    | _ => rfl

theorem callOf_recv (b : Forwarder Chan) (c : Chan) (awaits : Option ℕ) :
    callOf chan b c (.recv awaits) =
      ((recvWait c awaits).view chan).map (Experiment.AsyncForwarder.receive b) := by
  cases awaits <;> rfl

theorem mainOf_recv (c : Chan) (ops : List Op) (awaits : Option ℕ) :
    mainOf chan (.recv c :: ops) awaits =
      if ((recvWait c awaits).view chan).isSome then ops else .recv c :: ops := by
  cases awaits <;> rfl

def outView (chan : Channels) (c : Chan) : ℕ ⊕ Except RecvError Message → Option Message
  | .inl i => received (chan c) (.recv i)
  | .inr (.ok msg) => some msg
  | .inr (.error _) => none

theorem mainOf_after {c : Chan} {awaits : Option ℕ} {out : ℕ ⊕ Except RecvError Message}
    {u : ChannelSystem.State Message} (h : RecvStep s awaits u out) (ops : List Op) :
    mainOf chan (mainAfter c ops out).1 (mainAfter c ops out).2 =
      if (outView chan c out).isSome then ops else .recv c :: ops := by
  cases h with
  | back hf hp htaken => exact mainOf_none ops
  | _ => rfl

theorem callOf_afterRecv (b : Forwarder Chan) (c : Chan) (out : ℕ ⊕ Except RecvError Message) :
    callOf chan b c (afterRecv b out) =
      (outView chan c out).map (Experiment.AsyncForwarder.receive b) := by
  rcases out with i | res
  · rfl
  · cases res with
    | error e => rfl
    | ok msg => exact congrArg some (effective_none _)

theorem SendStep.effect {β : Type} {call call' : Sending Chan β} {awaits awaits' : Option ℕ}
    (h : SendStep chan call awaits chan' call' awaits') (halive : (sendWait call awaits).Alive chan) :
    (effective chan' call' awaits' = effective chan call awaits ∧
      ∀ n, Mirrors n chan → Mirrors n chan') ∨
    ∃ dst msg rest, effective chan call awaits = .send dst msg rest ∧
      effective chan' call' awaits' = rest ∧ (chan dst).chan.inner.isFull = false ∧
      ∀ n, Mirrors n chan → Mirrors (n.push dst msg) chan' := by
  cases h with
  | create hd hs ht hlen hnew =>
    refine .inl ⟨?_, fun n hn => hn.quiet hs⟩
    simp only [effective, Function.update_self, hnew, Option.isSome_some, if_true]
  | quiet hd ha hs ht =>
    refine .inl ⟨?_, fun n hn => hn.quiet hs⟩
    simp only [effective, Function.update_self, ht.held _ halive.1 (by simp)]
  | @put dst msg msg' rest i s a hd ha hmsg hfull hs ht hgone =>
    obtain rfl : msg' = msg := halive.2 msg' hmsg
    refine .inr ⟨dst, msg', rest, ?_, ?_, hfull, fun n hn => hn.push hs⟩
    · simp only [effective, hmsg, Option.isSome_some, if_true]
    · simp only [effective, Function.update_self, hgone, Option.isSome_none, Bool.false_eq_true, if_false]
  | back hf hp hnone =>
    refine .inl ⟨?_, fun n hn => hn⟩
    rw [effective_none]
    simp only [effective, hnone, Option.isSome_none, Bool.false_eq_true, if_false]

theorem RecvStep.effect {awaits : Option ℕ} {out : ℕ ⊕ Except RecvError Message}
    (h : RecvStep (chan c) awaits s out) (halive : (recvWait c awaits).Alive chan) :
    (outView (Function.update chan c s) c out = (recvWait c awaits).view chan ∧
      ∀ n, Mirrors n chan → Mirrors n (Function.update chan c s)) ∨
    ∃ msg, (recvWait c awaits).view chan = none ∧
      outView (Function.update chan c s) c out = some msg ∧
      ∀ n, Mirrors n chan → n.queue c = msg :: s.chan.inner.queue ∧
        Mirrors (n.pop c msg s.chan.inner.queue) (Function.update chan c s) := by
  cases h with
  | create hd hs ht hlen hnew =>
    refine .inl ⟨?_, fun n hn => hn.quiet hs⟩
    rw [outView, Function.update_self]
    exact hnew
  | quiet hd ha hs ht =>
    refine .inl ⟨?_, fun n hn => hn.quiet hs⟩
    rw [outView, Function.update_self]
    exact ht.received _ halive (by simp)
  | got hd ha hnone hs ht htaken =>
    refine .inr ⟨_, hnone, ?_, fun n hn => hn.pop hs⟩
    rw [outView, Function.update_self]
    exact htaken
  | back hf hp htaken =>
    refine .inl ⟨htaken.symm, fun n hn => ?_⟩
    rwa [Function.update_eq_self]

end Mirrors

structure Related (k : Params) (s : Server) (t : Experiment.State) : Prop where
  sound : Sound k s.chan
  owned : Owned s
  serving : ∀ c, s.loop c ≠ .over
  refines : Refines s t

section Simulation

open Experiment (step)

variable {k : Params} {s s' : Server} {t : Experiment.State}

def plain (k : Params) : System Experiment.State Experiment.Act :=
  Experiment.system crossbeamAsyncDriver k

theorem Sound.room (h : Sound k s.chan) {n : Net Chan Message (Panic Chan) (Forwarder Chan)}
    (hm : Mirrors n s.chan) {dst : Chan} (hfull : (s.chan dst).chan.inner.isFull = false) :
    (n.queue dst).length < k.capacity dst := by
  rw [hm.queue]
  exact Crossbeam.room hfull _ (ChannelSystem.reaches_inv (h dst)).2

theorem Related.main_alive (h : Related k s t) : (mainWait s.main s.awaits).Alive s.chan :=
  h.owned.alive none

theorem Related.loop_alive (h : Related k s t) (c : Chan) : ((s.loop c).wait c).Alive s.chan :=
  h.owned.alive (some c)

theorem Related.of_main (h : Related k s t) {chan : Channels} {main : List Op} {awaits : Option ℕ}
    {threads : List (List Chan)} {runs : ℕ} (hsound : Sound k chan)
    (hpasses : Passes s.chan chan (mainWait s.main s.awaits) (mainWait main awaits))
    {t' : Experiment.State} (hmirrors : Mirrors t'.net chan) (hproc : t'.net.proc = t.net.proc)
    (hcall : t'.net.call = t.net.call) (hmain : t'.main = mainOf chan main awaits)
    (htasks : t'.tasks = t.tasks) (hthreads : t'.threads = threads) (hruns : t'.runs = runs) :
    Related k { s with
      chan := chan, main := main, awaits := awaits, threads := threads, runs := runs } t' := by
  obtain ⟨howned, hview⟩ := h.owned.step (p := none) (t := { s with
    chan := chan, main := main, awaits := awaits, threads := threads, runs := runs })
    hpasses fun _ hq => wait_of_loop (by rfl) hq
  refine ⟨hsound, howned, h.serving, hmirrors, hproc.trans h.refines.proc, ?_, hmain,
    htasks.trans h.refines.tasks, hthreads, hruns⟩
  intro c
  rw [hcall, h.refines.call]
  exact (callOf_congr (hview (some c) (by simp))).symm

theorem Related.of_loop (h : Related k s t) {c : Chan} {l : Loop} {chan : Channels}
    {proc : Chan → Forwarder Chan} (hsound : Sound k chan) (hover : l ≠ .over)
    (hpasses : Passes s.chan chan ((s.loop c).wait c) (l.wait c))
    (hproc : ∀ c', c' ≠ c → proc c' = s.proc c') {t' : Experiment.State}
    (hmirrors : Mirrors t'.net chan) (hproc' : t'.net.proc = proc)
    (hcall : t'.net.call = Function.update t.net.call c (callOf chan (proc c) c l))
    (hmain : t'.main = t.main) (htasks : t'.tasks = t.tasks) (hthreads : t'.threads = t.threads)
    (hruns : t'.runs = t.runs) :
    Related k { s with chan := chan, proc := proc, loop := Function.update s.loop c l } t' := by
  have hpasses' : Passes s.chan chan (s.wait (some c)) (Server.wait
      { s with chan := chan, proc := proc, loop := Function.update s.loop c l } (some c)) := by
    simpa only [Server.wait, Function.update_self] using hpasses
  obtain ⟨howned, hview⟩ := h.owned.step
    (t := { s with chan := chan, proc := proc, loop := Function.update s.loop c l })
    hpasses' fun _ hq => wait_of_main (by rfl) (by rfl) (fun _ hc => Function.update_of_ne hc _ _) hq
  refine ⟨hsound, howned, ?_, hmirrors, hproc', ?_, ?_, htasks.trans h.refines.tasks,
    hthreads.trans h.refines.threads, hruns.trans h.refines.runs⟩
  · intro c'
    by_cases hc : c' = c
    · subst hc
      simpa only [Function.update_self] using hover
    · simpa only [Function.update_of_ne hc] using h.serving c'
  · intro c'
    rw [hcall]
    by_cases hc : c' = c
    · subst hc
      simp only [Function.update_self]
    · simp only [Function.update_of_ne hc]
      rw [h.refines.call, hproc c' hc]
      exact (callOf_congr (hview (some c') (by simpa using hc))).symm
  · rw [hmain, h.refines.main]
    exact (mainOf_congr (hview none (by simp))).symm

def Matched (k : Params) (s' : Server) (t : Experiment.State) : Prop :=
  ∃ t', (plain k).Reaches System.Anything t t' ∧ Related k s' t'

theorem Matched.of_step {a : Experiment.Act} {t' : Experiment.State}
    (hstep : Experiment.step crossbeamAsyncDriver k t a = some t') (h : Related k s' t') :
    Matched k s' t := ⟨t', .single trivial hstep, h⟩

theorem Matched.of_same (h : Related k s' t) : Matched k s' t := ⟨t, .refl, h⟩

theorem Related.main_op (h : Related k s t) {main : List Op} {threads : List (List Chan)} {runs : ℕ}
    {a : Experiment.Act} {t' : Experiment.State}
    (hstep : Experiment.step crossbeamAsyncDriver k t a = some t') (hnet : t'.net = t.net)
    (hmain : t'.main = main) (htasks : t'.tasks = t.tasks) (hthreads : t'.threads = threads)
    (hruns : t'.runs = runs) :
    Matched k { s with main := main, awaits := none, threads := threads, runs := runs } t := by
  refine .of_step hstep ?_
  have hpasses : Passes s.chan s.chan (mainWait s.main s.awaits) (mainWait main none) := by
    rw [mainWait_none]
    exact .leave (.refl _)
  refine h.of_main h.sound hpasses ?_ (by rw [hnet]) (by rw [hnet]) ?_ htasks hthreads hruns
  · rw [hnet]
    exact h.refines.mirrors
  · rw [hmain, mainOf_none]

theorem Related.main_block (h : Related k s t) {call call' : Sending Chan Unit} {ops : List Op}
    {chan' : Channels} {awaits' : Option ℕ} (hm : s.main = .block call :: ops)
    (hsound : Sound k chan') (hs : SendStep s.chan call s.awaits chan' call' awaits') :
    Matched k { s with chan := chan', main := .block call' :: ops, awaits := awaits' } t := by
  have halive : (sendWait call s.awaits).Alive s.chan := by
    have halive := h.main_alive
    rwa [hm] at halive
  have hpasses : Passes s.chan chan' (mainWait s.main s.awaits)
      (mainWait (.block call' :: ops) awaits') := by
    rw [hm]
    exact hs.passes halive
  have hmain : t.main = .block (effective s.chan call s.awaits) :: ops := by
    rw [h.refines.main, hm]
    rfl
  rcases hs.effect halive with ⟨heff, hmirrors⟩ | ⟨dst, msg, rest, heff, heff', hfull, hmirrors⟩
  · refine .of_same (h.of_main hsound hpasses (hmirrors _ h.refines.mirrors) rfl rfl ?_ rfl
      h.refines.threads h.refines.runs)
    rw [hmain, mainOf, heff]
  · have hroom := h.sound.room h.refines.mirrors hfull
    rw [heff] at hmain
    have hstep : Experiment.step crossbeamAsyncDriver k t .main =
        some { t with net := t.net.push dst msg, main := .block rest :: ops } := by
      simp [Experiment.step, Experiment.stepMain, hmain, Net.deliver, hroom]
    refine .of_step hstep (h.of_main hsound hpasses (hmirrors _ h.refines.mirrors) rfl rfl ?_ rfl
      h.refines.threads h.refines.runs)
    rw [mainOf, heff']

theorem Related.main_recv (h : Related k s t) {c : Chan} {ops : List Op}
    {u : ChannelSystem.State Message} {out : ℕ ⊕ Except RecvError Message}
    (hm : s.main = .recv c :: ops) (hsound : Sound k (Function.update s.chan c u))
    (hs : RecvStep (s.chan c) s.awaits u out) :
    Matched k { s with
      chan := Function.update s.chan c u
      main := (mainAfter c ops out).1
      awaits := (mainAfter c ops out).2 } t := by
  have halive : (recvWait c s.awaits).Alive s.chan := by
    have halive := h.main_alive
    rwa [hm] at halive
  have hpasses : Passes s.chan (Function.update s.chan c u) (mainWait s.main s.awaits)
      (mainWait (mainAfter c ops out).1 (mainAfter c ops out).2) := by
    rw [hm, mainWait_after]
    exact hs.passes halive
  have hmain : t.main = if ((recvWait c s.awaits).view s.chan).isSome then ops else .recv c :: ops := by
    rw [h.refines.main, hm, mainOf_recv]
  rcases hs.effect halive with ⟨hview, hmirrors⟩ | ⟨msg, hnone, hview, hmirrors⟩
  · refine .of_same (h.of_main hsound hpasses (hmirrors _ h.refines.mirrors) rfl rfl ?_ rfl
      h.refines.threads h.refines.runs)
    rw [hmain, mainOf_after hs, hview]
  · obtain ⟨hqueue, hmirrors⟩ := hmirrors _ h.refines.mirrors
    rw [hnone] at hmain
    have hstep : Experiment.step crossbeamAsyncDriver k t .main =
        some { t with net := t.net.pop c msg u.chan.inner.queue, main := ops } := by
      simp [Experiment.step, Experiment.stepMain, hmain, Net.take, hqueue]
    refine .of_step hstep (h.of_main hsound hpasses hmirrors rfl rfl ?_ rfl h.refines.threads
      h.refines.runs)
    rw [mainOf_after hs, hview]
    rfl

theorem Related.accept (h : Related k s t) {thread : ℕ} {c : Chan} {msg : Message}
    {rest : List Message} (hthread : s.threads[thread]? = some [c])
    (hcall : callOf s.chan (s.proc c) c (s.loop c) = none) (hqueue : t.net.queue c = msg :: rest) :
    Experiment.step crossbeamAsyncDriver k t (.receive thread 0) = some { t with
      net := { t.net.pop c msg rest with
        call := Function.update t.net.call c (some (Experiment.AsyncForwarder.receive (s.proc c) msg)) } } := by
  have hnone : t.net.call c = none := (h.refines.call c).trans hcall
  have hthread' : t.threads[thread]? = some [c] := by rw [h.refines.threads, hthread]
  have hproc : t.net.proc c = s.proc c := congrFun h.refines.proc c
  simp [Experiment.step, Experiment.stepReceive, hthread', hnone, Net.accept, hqueue, hproc,
    crossbeamAsyncDriver]

theorem Related.loop_recv (h : Related k s t) {thread : ℕ} {c : Chan} {awaits : Option ℕ}
    {u : ChannelSystem.State Message} {out : ℕ ⊕ Except RecvError Message}
    (hthread : s.threads[thread]? = some [c]) (hl : s.loop c = .recv awaits)
    (hsound : Sound k (Function.update s.chan c u)) (hs : RecvStep (s.chan c) awaits u out) :
    Matched k { s with
      chan := Function.update s.chan c u
      loop := Function.update s.loop c (afterRecv (s.proc c) out) } t := by
  have halive : (recvWait c awaits).Alive s.chan := by
    have halive := h.loop_alive c
    rwa [hl] at halive
  have hpasses : Passes s.chan (Function.update s.chan c u) ((s.loop c).wait c)
      ((afterRecv (s.proc c) out).wait c) := by
    rw [hl, afterRecv_wait]
    exact hs.passes halive
  have hover : afterRecv (s.proc c) out ≠ .over := by
    cases hs <;> simp [afterRecv]
  have hcallOf : callOf s.chan (s.proc c) c (s.loop c) =
      ((recvWait c awaits).view s.chan).map (Experiment.AsyncForwarder.receive (s.proc c)) := by
    rw [hl, callOf_recv]
  rcases hs.effect halive with ⟨hview, hmirrors⟩ | ⟨msg, hnone, hview, hmirrors⟩
  · refine .of_same (h.of_loop hsound hover hpasses (fun _ _ => rfl) (hmirrors _ h.refines.mirrors)
      h.refines.proc ?_ rfl rfl rfl rfl)
    rw [callOf_afterRecv, hview, ← hcallOf, ← h.refines.call, Function.update_eq_self]
  · obtain ⟨hqueue, hmirrors⟩ := hmirrors _ h.refines.mirrors
    rw [hnone] at hcallOf
    refine .of_step (h.accept hthread hcallOf hqueue) (h.of_loop hsound hover hpasses
      (fun _ _ => rfl) ?_ h.refines.proc ?_ rfl rfl rfl rfl)
    · exact ⟨hmirrors.queue, hmirrors.put, hmirrors.got⟩
    · rw [callOf_afterRecv, hview]
      rfl

theorem Related.loop_try (h : Related k s t) {thread handle : ℕ} {c : Chan}
    {u : ChannelSystem.State Message} (hthread : s.threads[thread]? = some [c])
    (hl : s.loop c = .drain) (hsound : Sound k (Function.update s.chan c u))
    (hd : Does (s.chan c) (.tryRecv handle) u) :
    Matched k { s with
      chan := Function.update s.chan c u
      loop := Function.update s.loop c (afterTry (s.proc c) (s.chan c).chan.tryRecv.2) } t := by
  obtain ⟨htouch, hout⟩ := hd.tried_recv (h.sound.inv c)
  have hpasses : Passes s.chan (Function.update s.chan c u) ((s.loop c).wait c)
      ((afterTry (s.proc c) (s.chan c).chan.tryRecv.2).wait c) := by
    rw [hl, afterTry_wait]
    exact .leave (touches_disturbs htouch (by simp) (by simp))
  have hover : afterTry (s.proc c) (s.chan c).chan.tryRecv.2 ≠ .over := by
    cases (s.chan c).chan.tryRecv.2 <;> simp [afterTry]
  have hcallOf : callOf s.chan (s.proc c) c (s.loop c) = none := by
    rw [hl]
    rfl
  rcases hout with ⟨msg, hres, hshift⟩ | ⟨e, hres, hshift⟩
  · obtain ⟨hqueue, hmirrors⟩ := h.refines.mirrors.pop hshift
    refine .of_step (h.accept hthread hcallOf hqueue) (h.of_loop hsound hover hpasses
      (fun _ _ => rfl) ?_ h.refines.proc ?_ rfl rfl rfl rfl)
    · exact ⟨hmirrors.queue, hmirrors.put, hmirrors.got⟩
    · rw [hres, afterTry, callOf, effective_none]
  · refine .of_same (h.of_loop hsound hover hpasses (fun _ _ => rfl) (h.refines.mirrors.quiet hshift)
      h.refines.proc ?_ rfl rfl rfl rfl)
    have hcall : callOf (Function.update s.chan c u) (s.proc c) c
        (afterTry (s.proc c) (s.chan c).chan.tryRecv.2) = t.net.call c := by
      rw [h.refines.call, hcallOf, hres]
      rfl
    rw [hcall, Function.update_eq_self]

theorem Related.loop_done (h : Related k s t) {c : Chan} {b : Forwarder Chan} {awaits : Option ℕ}
    (hl : s.loop c = .handle (.done b) awaits) :
    Matched k { s with
      proc := Function.update s.proc c b
      loop := Function.update s.loop c (afterHandle c) } t := by
  have hcall : t.net.call c = some (.done b) := by
    rw [h.refines.call, hl]
    cases awaits <;> rfl
  have hstep : Experiment.step crossbeamAsyncDriver k t (.advance c) =
      some { t with net := t.net.finished c b } := by
    simp [Experiment.step, Net.advance, hcall]
  have hpasses : Passes s.chan s.chan ((s.loop c).wait c) ((afterHandle c).wait c) := by
    rw [afterHandle_wait]
    exact .leave (.refl _)
  have hover : afterHandle c ≠ .over := by cases c <;> simp [afterHandle]
  refine .of_step hstep (h.of_loop h.sound hover hpasses ?_ ?_ ?_ ?_ rfl rfl rfl rfl)
  · intro c' hc
    exact Function.update_of_ne hc _ _
  · exact ⟨h.refines.mirrors.queue, h.refines.mirrors.put, h.refines.mirrors.got⟩
  · rw [← h.refines.proc]
    rfl
  · have hnone : callOf s.chan (Function.update s.proc c b c) c (afterHandle c) = none := by
      cases c <;> rfl
    rw [hnone]
    rfl

theorem Related.loop_handle (h : Related k s t) {c : Chan} {call call' : Sending Chan (Forwarder Chan)}
    {chan' : Channels} {awaits awaits' : Option ℕ} (hl : s.loop c = .handle call awaits)
    (hsound : Sound k chan') (hs : SendStep s.chan call awaits chan' call' awaits') :
    Matched k { s with
      chan := chan', loop := Function.update s.loop c (.handle call' awaits') } t := by
  have halive : (sendWait call awaits).Alive s.chan := by
    have halive := h.loop_alive c
    rwa [hl] at halive
  have hpasses : Passes s.chan chan' ((s.loop c).wait c) ((Loop.handle call' awaits').wait c) := by
    rw [hl]
    exact hs.passes halive
  have hcall : t.net.call c = some (effective s.chan call awaits) := by
    rw [h.refines.call, hl]
    rfl
  rcases hs.effect halive with ⟨heff, hmirrors⟩ | ⟨dst, msg, rest, heff, heff', hfull, hmirrors⟩
  · refine .of_same (h.of_loop hsound (by simp) hpasses (fun _ _ => rfl)
      (hmirrors _ h.refines.mirrors) h.refines.proc ?_ rfl rfl rfl rfl)
    rw [callOf, heff, ← hcall, Function.update_eq_self]
  · have hroom := h.sound.room h.refines.mirrors hfull
    rw [heff] at hcall
    have hstep : Experiment.step crossbeamAsyncDriver k t (.advance c) =
        some { t with net := t.net.sent c dst msg rest } := by
      simp [Experiment.step, Net.advance, hcall, hroom]
    have hmirrors' := hmirrors _ h.refines.mirrors
    refine .of_step hstep (h.of_loop hsound (by simp) hpasses (fun _ _ => rfl) ?_ h.refines.proc ?_
      rfl rfl rfl rfl)
    · exact ⟨hmirrors'.queue, hmirrors'.put, hmirrors'.got⟩
    · rw [callOf, heff']
      rfl

theorem Related.handled (h : Related k s t) {c : Chan} {a : ChannelSystem.Act Message}
    {u : ChannelSystem.State Message} (ha : a.isHandle = true)
    (hsound : Sound k (Function.update s.chan c u)) (hd : Does (s.chan c) a u) :
    Matched k { s with chan := Function.update s.chan c u } t := by
  obtain ⟨hshift, htouch⟩ := hd.handled ha
  obtain ⟨howned, hview⟩ := h.owned.still (t := { s with chan := Function.update s.chan c u })
    (touches_disturbs htouch (by simp) (by simp)) (fun _ => rfl)
  refine .of_same ⟨hsound, howned, h.serving, h.refines.mirrors.quiet hshift,
    h.refines.proc, ?_, ?_, h.refines.tasks, h.refines.threads, h.refines.runs⟩
  · intro c'
    rw [h.refines.call]
    exact (callOf_congr (hview (some c'))).symm
  · rw [h.refines.main]
    exact (mainOf_congr (hview none)).symm

theorem Related.moves (h : Related k s t) {e : Event} (hmoves : Moves k s e s') :
    Matched k s' t := by
  cases hmoves with
  | @spawn handle key recvs ops hm =>
    have hmain : t.main = .spawn recvs :: ops := by rw [h.refines.main, hm]; rfl
    have hstep : Experiment.step crossbeamAsyncDriver k t .main =
        some { t with main := ops, threads := t.threads ++ [recvs] } := by
      simp [Experiment.step, Experiment.stepMain, hmain]
    exact h.main_op hstep rfl rfl rfl (by rw [h.refines.threads]) h.refines.runs
  | @sent handle key ops hm =>
    have hmain : t.main = .block (.done ()) :: ops := by
      rw [h.refines.main, hm]
      cases s.awaits <;> rfl
    have hstep : Experiment.step crossbeamAsyncDriver k t .main = some { t with main := ops } := by
      simp [Experiment.step, Experiment.stepMain, hmain]
    exact h.main_op hstep rfl rfl rfl h.refines.threads h.refines.runs
  | send hm hsound hs => exact h.main_block hm hsound hs
  | recv hm hsound hs => exact h.main_recv hm hsound hs
  | run hm =>
    have hmain : t.main = [] := by
      rw [h.refines.main, hm]
      cases s.awaits <;> rfl
    have hstep : Experiment.step crossbeamAsyncDriver k t .run = some { t with
        main := crossbeamAsyncDriver.run (crossbeamAsyncDriver.setup k.pipelines k.lanes k.messages).1
        runs := t.runs + 1 } := by
      simp [Experiment.step, hmain]
    exact h.main_op hstep rfl rfl rfl h.refines.threads (by rw [h.refines.runs])
  | loopRecv hthread hl hsound hs => exact h.loop_recv hthread hl hsound hs
  | handled hthread hl => exact h.loop_done hl
  | loopSend hthread hl hsound hs => exact h.loop_handle hl hsound hs
  | tryRecv hthread hl hsound hd => exact h.loop_try hthread hl hsound hd
  | handle ha hsound hd => exact h.handled ha hsound hd

theorem related_start (k : Params) : Related k (start k) (Experiment.start crossbeamAsyncDriver k) where
  sound _ := .refl
  owned := by
    have hnothing : ∀ p, (start k).wait p = .nothing := by
      intro p
      cases p with
      | none => exact mainWait_none _
      | some c => rfl
    refine ⟨fun p => ?_, fun p q _ => ?_⟩
    · rw [hnothing]
      trivial
    · rw [hnothing]
      trivial
  serving _ := by simp [start]
  refines :=
    { mirrors := ⟨fun _ => rfl, fun _ => rfl, fun _ => rfl⟩
      proc := rfl
      call := fun _ => rfl
      main := (mainOf_none _).symm
      tasks := rfl
      threads := rfl
      runs := rfl }

theorem reaches_related {s : Server} (h : (server k).Reachable s) :
    ∃ t, (plain k).Reachable t ∧ Related k s t := by
  refine System.Reaches.simulation (R := Related k) ?_ h (related_start k)
  intro s e s' t hr _ hs
  exact hr.moves (step_moves hr.sound hs)

def Server.Panics (s : Server) (e : Panic Chan) : Prop :=
  (∃ c awaits, s.loop c = .handle (.panic e) awaits) ∨ ∃ ops, s.main = .block (.panic e) :: ops

/-- Everything at `c` is as `runs` runs leave it, but for what a task does after its last message. -/
structure Server.Settled (k : Params) (s : Server) (c : Chan) : Prop where
  queue : (s.chan c).chan.inner.queue = []
  put : (s.chan c).history.enqueued.map Prod.snd = (k.settled .asyncCrossbeamSender s.runs c).put
  got : (s.chan c).history.handedOut.map Prod.snd = (k.settled .asyncCrossbeamSender s.runs c).got
  current : (callOf s.chan (s.proc c) c (s.loop c)).getD (.done (s.proc c)) =
    (k.settled .asyncCrossbeamSender s.runs c).current

theorem Related.panics (h : Related k s t) {e : Panic Chan} (hp : s.Panics e) : t.Panics e := by
  rcases hp with ⟨c, awaits, hl⟩ | ⟨ops, hm⟩
  · refine .inl ⟨c, ?_⟩
    rw [h.refines.call, hl]
    cases awaits <;> rfl
  · refine .inr (.inl ⟨ops, ?_⟩)
    rw [h.refines.main, hm]
    cases s.awaits <;> rfl

theorem wires_crossbeamAsync (k : Params) :
    crossbeamAsyncDriver.Wires k Experiment.sendCmdAsync .asyncCrossbeamSender .block :=
  Experiment.wires_tasks Experiment.sendCmdAsync_asyncCrossbeam ⟨.inl rfl, fun _ _ => rfl⟩ ⟨_, rfl⟩
    rfl rfl rfl

theorem plain_inv (ht : (plain k).Reachable t) :
    Experiment.Inv crossbeamAsyncDriver k .asyncCrossbeamSender (· ∈ k.channels) t ∧
      Experiment.Awaited t := Experiment.reaches_awaited (wires_crossbeamAsync k) ht

theorem Related.no_panic (h : Related k s t) (ht : (plain k).Reachable t) (e : Panic Chan) :
    ¬ s.Panics e := fun hp =>
  (plain_inv ht).1.no_panic (wires_crossbeamAsync k) (fun _ hc _ => hc) e (h.panics hp)

theorem Related.settled (h : Related k s t) {c : Chan}
    (ht : t.site c = k.settled .asyncCrossbeamSender t.runs c) : s.Settled k c := by
  rw [h.refines.runs] at ht
  constructor
  case queue =>
    rw [← h.refines.mirrors.queue]
    exact congrArg Experiment.Site.queue ht
  case put =>
    rw [← h.refines.mirrors.put]
    exact congrArg Experiment.Site.put ht
  case got =>
    rw [← h.refines.mirrors.got]
    exact congrArg Experiment.Site.got ht
  case current =>
    rw [← h.refines.call, ← h.refines.proc]
    exact congrArg Experiment.Site.current ht

theorem Related.notified (h : Related k s t) {msgs : List Message} (hq : t.net.queue .notifier = [])
    (hput : t.net.put .notifier = msgs) (hgot : t.net.got .notifier = msgs) :
    (s.chan .notifier).chan.inner.queue = [] ∧
      (s.chan .notifier).history.enqueued.map Prod.snd = msgs ∧
      (s.chan .notifier).history.handedOut.map Prod.snd = msgs := by
  rw [← h.refines.mirrors.queue, ← h.refines.mirrors.put, ← h.refines.mirrors.got]
  exact ⟨hq, hput, hgot⟩

end Simulation

theorem async_pipeline_refines {k : Params} {s : Server} (h : (server k).Reachable s) :
    (∀ c, (ChannelSystem.system (some (k.capacity c))).Reachable (s.chan c)) ∧
    ∃ t, (Experiment.system crossbeamAsyncDriver k).Reachable t ∧ Refines s t := by
  obtain ⟨t, ht, hr⟩ := reaches_related h
  exact ⟨hr.sound, t, ht, hr.refines⟩

def smallServerRun : List Event := [List.replicate 24 (.main 0 0), List.replicate 8 (.loop 1 0 0),
  List.replicate 8 (.loop 2 0 0), List.replicate 7 (.loop 0 0 0), [.run], List.replicate 7 (.main 0 0),
  List.replicate 12 (.loop 1 0 0), List.replicate 12 (.loop 2 0 0), List.replicate 12 (.loop 0 0 0),
  List.replicate 6 (.main 0 0)].flatten

theorem smallServerRun_isSome : ((server Experiment.small).exec (fun _ _ => true)
    (start Experiment.small) smallServerRun).isSome = true := by decide +kernel

def afterServerRun : Server := ((server Experiment.small).exec (fun _ _ => true)
  (start Experiment.small) smallServerRun).get smallServerRun_isSome

theorem afterServerRun_reachable : (server Experiment.small).Reachable afterServerRun :=
  System.Reaches.mono (fun _ _ _ => trivial) (System.exec_get _ _ _ _ smallServerRun_isSome)

theorem afterServerRun_rests : afterServerRun.main = [] ∧ afterServerRun.runs = 1 :=
  ⟨List.isEmpty_iff.mp (by decide +kernel), by decide +kernel⟩

theorem async_pipeline_refines_small : afterServerRun.runs = 1 ∧
    ∃ t, (Experiment.system crossbeamAsyncDriver Experiment.small).Reachable t ∧
      Refines afterServerRun t :=
  ⟨afterServerRun_rests.2, (async_pipeline_refines afterServerRun_reachable).2⟩

theorem async_pipeline_safe {k : Params} {s : Server} (h : (server k).Reachable s) :
    (∀ e, ¬ s.Panics e) ∧
    (∀ c, s.loop c ≠ .over ∧ (∀ d ∈ (s.chan c).sends, d.fut.point.stage ≠ .panicked) ∧
      ∀ d ∈ (s.chan c).recvs, d.fut.point.stage ≠ .panicked) ∧
    (s.main = [] → 0 < s.runs → (∀ c ∈ k.channels, s.Settled k c) ∧
      (s.chan .notifier).chan.inner.queue = [] ∧
      (s.chan .notifier).history.enqueued.map Prod.snd = (k.intake s.runs .notifier).map .testData ∧
      (s.chan .notifier).history.handedOut.map Prod.snd = (k.intake s.runs .notifier).map .testData) := by
  obtain ⟨t, ht, hr⟩ := reaches_related h
  have hw := wires_crossbeamAsync k
  obtain ⟨hi, hs⟩ := plain_inv ht
  refine ⟨hr.no_panic ht, ?_, ?_⟩
  · intro c
    have hinv := hr.sound.inv c
    refine ⟨hr.serving c, ?_, hinv.unharmed⟩
    intro d hd hp
    have hload := hinv.loaded d hd
    cases hpoint : d.fut.point <;> simp [hpoint, Point.stage, ChannelSystem.Loaded] at hp hload
  · intro hm hruns
    have hmain : t.main = [] := by
      rw [hr.refines.main, hm]
      cases s.awaits <;> rfl
    have hend := hi.endOfRun hw (by rw [hr.refines.runs]; exact hruns) (hi.runs_le_of_rest hmain)
    obtain ⟨hq, hput, hgot⟩ := hi.notifier_settled hw hmain
    rw [hr.refines.runs] at hput hgot
    exact ⟨fun c hc => hr.settled (hi.settled hs hw ht hmain hc (hend.drained c hc)),
      hr.notified hq hput hgot⟩

theorem async_pipeline_safe_small :
    afterServerRun.Settled Experiment.small (.lane 0 1) ∧
    afterServerRun.Settled Experiment.small .concentrator ∧
    (afterServerRun.chan .notifier).history.handedOut.map Prod.snd = [.testData 1] := by
  have hsettled := (async_pipeline_safe afterServerRun_reachable).2.2 afterServerRun_rests.1
    (by rw [afterServerRun_rests.2]; exact Nat.one_pos)
  refine ⟨hsettled.1 _ (by decide), hsettled.1 _ (by decide), ?_⟩
  rw [hsettled.2.2.2, afterServerRun_rests.2]
  rfl

end ChannelExecutor.AsyncPipeline
