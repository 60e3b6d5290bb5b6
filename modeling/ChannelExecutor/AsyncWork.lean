import ChannelExecutor.AsyncWakeups
import ChannelExecutor.InFlight
import ChannelExecutor.PollBurden
import ChannelExecutor.SessionLength

set_option autoImplicit false

namespace ChannelExecutor.AsyncPipeline

open Lib (Call Net System)
open Experiment (Chan Message Op Sending Forwarder Params crossbeamAsyncDriver)
open ChannelSystem (Does Leaves Still Pays sendBurden recvBurden price moved)

def Wait.burden (n : ℕ) (chan : Channels) : Wait → ℕ
  | .nothing => 0
  | .sending dst _ i => sendBurden n (chan dst) i
  | .receiving c i => recvBurden n (chan c) i

def callTodo {β : Type} (call : Sending Chan β) (awaits : Option ℕ) : ℕ :=
  match call, awaits with
  | .send _ _ rest, some _ => 6 * rest.sends.length
  | call, _ => 6 * call.sends.length

def recvTodo : Option ℕ → ℕ
  | none => 6
  | some _ => 0

def Loop.todo : Loop → ℕ
  | .recv awaits => recvTodo awaits
  | .handle call awaits => callTodo call awaits + 8
  | .drain => 7
  | .over => 0

def opTodo : Op → ℕ
  | .spawn _ => 1
  | .block call => callTodo call none + 1
  | .recv _ => 6
  | .detach _ => 0

def mainTodo (main : List Op) (awaits : Option ℕ) : ℕ :=
  match main, awaits with
  | .block call :: ops, awaits => callTodo call awaits + 1 + (ops.map opTodo).sum
  | .recv _ :: ops, some _ => (ops.map opTodo).sum
  | main, _ => (main.map opTodo).sum

def Server.todo (s : Server) : Option Chan → ℕ
  | none => mainTodo s.main s.awaits
  | some c => (s.loop c).todo

def Server.weight (n : ℕ) (s : Server) (p : Option Chan) : ℕ := (s.wait p).burden n s.chan + s.todo p

/-- What the tasks but the one that awaits `w` have before them grows by eight, or not at all. -/
def Stirs (n : ℕ) (chan chan' : Channels) (w : Wait) (b : Bool) : Prop :=
  ∀ v : Wait, w.Apart v → v.Alive chan → v.burden n chan' ≤ v.burden n chan + 8 * b.toNat

section Steps

variable {k : Params} {n : ℕ} {chan chan' : Channels} {c : Chan} {u : ChannelSystem.State Message}
variable {s t : Server} {e : Event}

theorem stirs_of_leaves {o r : Option ℕ} {w : Wait} {b : Bool} (h : Leaves (chan c) u o r)
    (hb : b = false → Still (chan c) u o r)
    (ho : ∀ msg i, w.Apart (.sending c msg i) → i < (chan c).sends.length → o ≠ some i)
    (hr : ∀ i, w.Apart (.receiving c i) → i < (chan c).recvs.length → r ≠ some i) :
    Stirs n chan (Function.update chan c u) w b := by
  intro v hapart halive
  cases v with
  | nothing => exact Nat.zero_le _
  | sending dst msg i =>
    by_cases hdst : dst = c
    · subst hdst
      have hne := ho msg i hapart halive.1
      simp only [Wait.burden, Function.update_self]
      cases b with
      | false => exact Nat.le_of_eq ((hb rfl).sendBurden hne)
      | true => exact h.sendBurden hne
    · simp only [Wait.burden, Function.update_of_ne hdst]
      exact Nat.le_add_right _ _
  | receiving c' i =>
    by_cases hc : c' = c
    · subst hc
      have hne := hr i hapart halive
      simp only [Wait.burden, Function.update_self]
      cases b with
      | false => exact Nat.le_of_eq ((hb rfl).recvBurden hne)
      | true => exact h.recvBurden hne
    · simp only [Wait.burden, Function.update_of_ne hc]
      exact Nat.le_add_right _ _

theorem Stirs.refl (w : Wait) : Stirs n chan chan w false := fun _ _ _ => Nat.le_refl _

def Costs (n : ℕ) (chan chan' : Channels) (w : Wait) (before after : ℕ) : Prop :=
  ∃ c u b, chan' = Function.update chan c u ∧ Stirs n chan chan' w b ∧ Pays n (chan c) u b before after

theorem Costs.still {w : Wait} {before after : ℕ} (h : after + 1 ≤ before) :
    Costs n chan chan w before after := by
  refine ⟨.notifier, chan .notifier, false, (Function.update_eq_self _ _).symm, .refl w, ?_⟩
  exact (Still.refl _).pays h

theorem Costs.add {w : Wait} {before after : ℕ} (h : Costs n chan chan' w before after) (m : ℕ) :
    Costs n chan chan' w (before + m) (after + m) := by
  obtain ⟨c, u, b, hchan, hstirs, hpays⟩ := h
  refine ⟨c, u, b, hchan, hstirs, ?_⟩
  simp only [Pays] at hpays ⊢
  omega

theorem Costs.mono {w : Wait} {before after before' after' : ℕ} (h : Costs n chan chan' w before after)
    (hb : before ≤ before') (ha : after' ≤ after) : Costs n chan chan' w before' after' := by
  obtain ⟨c, u, b, hchan, hstirs, hpays⟩ := h
  exact ⟨c, u, b, hchan, hstirs, hpays.mono hb ha⟩

theorem costs_of_drivesSend {dst : Chan} {msg : Message} {i : ℕ} {a : ChannelSystem.Act Message}
    (ha : ChannelSystem.DrivesSend i a) (hd : Does (chan dst) a u) :
    Costs n chan (Function.update chan dst u) (.sending dst msg i)
      ((Wait.sending dst msg i).burden n chan + 5 * ((Wait.sending dst msg i).asleep chan).toNat)
      ((Wait.sending dst msg i).burden n (Function.update chan dst u)) := by
  obtain ⟨b, hstill, hpays⟩ := ha.pays (n := n) hd
  refine ⟨dst, u, b, rfl, ?_, ?_⟩
  · apply stirs_of_leaves (ha.leaves hd) hstill
    · intro msg' j hapart _ heq
      exact hapart rfl (Option.some.inj heq)
    · intro j _ _ heq
      cases heq
  · simp only [Wait.burden, Function.update_self]
    exact hpays

theorem costs_of_drivesRecv {i : ℕ} {a : ChannelSystem.Act Message}
    (ha : ChannelSystem.DrivesRecv i a) (hd : Does (chan c) a u) :
    Costs n chan (Function.update chan c u) (.receiving c i)
      ((Wait.receiving c i).burden n chan + 5 * ((Wait.receiving c i).asleep chan).toNat)
      ((Wait.receiving c i).burden n (Function.update chan c u)) := by
  obtain ⟨b, hstill, hpays⟩ := ha.pays (n := n) hd
  refine ⟨c, u, b, rfl, ?_, ?_⟩
  · apply stirs_of_leaves (ha.leaves hd) hstill
    · intro msg' j _ _ heq
      cases heq
    · intro j hapart _ heq
      exact hapart rfl (Option.some.inj heq)
  · simp only [Wait.burden, Function.update_self]
    exact hpays

theorem callTodo_none {β : Type} (call : Sending Chan β) : callTodo call none = 6 * call.sends.length := by
  cases call <;> rfl

theorem SendStep.costs {β : Type} {call call' : Sending Chan β} {awaits awaits' : Option ℕ}
    (h : SendStep chan call awaits chan' call' awaits') :
    Costs n chan chan' (sendWait call awaits)
      ((sendWait call awaits).burden n chan + 5 * ((sendWait call awaits).asleep chan).toNat +
        callTodo call awaits)
      ((sendWait call' awaits').burden n chan' + callTodo call' awaits') := by
  cases h with
  | @create dst msg rest u handle hd hs ht hlen hnew =>
    obtain ⟨hstill, hfive⟩ := hd.created_send_still (n := n)
    refine ⟨dst, u, false, rfl, ?_, hstill.pays ?_⟩
    · apply stirs_of_leaves hd.leaves (fun _ => hstill)
      · intro msg' i _ hi heq
        obtain rfl := Option.some.inj heq
        exact Nat.lt_irrefl _ hi
      · intro i _ _ heq
        cases heq
    · simp only [sendWait, Wait.burden, callTodo, Function.update_self, hfive, Call.sends_send,
        List.length_cons]
      omega
  | quiet hd ha => exact (costs_of_drivesSend ha hd).add _
  | put hd ha => exact (costs_of_drivesSend ha hd).add _
  | @back dst msg rest i f hf hp hnone =>
    obtain ⟨d, hd, rfl⟩ : ∃ d, (chan dst).sends[i]? = some d ∧ d.fut = f := by
      simpa [ChannelSystem.sendFuts] using hf
    apply Costs.still
    simp only [sendWait, Wait.burden, ChannelSystem.sendBurden_some hd, hp, Point.stage,
      ChannelSystem.burden, callTodo_none]
    simp only [callTodo]
    omega

def outTodo : ℕ ⊕ Except RecvError Message → ℕ
  | .inl _ => 0
  | .inr _ => 14

theorem RecvStep.costs {awaits : Option ℕ} {out : ℕ ⊕ Except RecvError Message}
    (h : RecvStep (chan c) awaits u out) :
    Costs n chan (Function.update chan c u) (recvWait c awaits)
      ((recvWait c awaits).burden n chan + 5 * ((recvWait c awaits).asleep chan).toNat + recvTodo awaits)
      ((outWait c out).burden n (Function.update chan c u) + outTodo out) := by
  cases h with
  | @create _ handle hd hs ht hlen hnew =>
    obtain ⟨hstill, hfive⟩ := hd.created_recv_still (n := n)
    refine ⟨c, u, false, rfl, ?_, hstill.pays ?_⟩
    · apply stirs_of_leaves hd.leaves (fun _ => hstill)
      · intro msg' i _ _ heq
        cases heq
      · intro i _ hi heq
        obtain rfl := Option.some.inj heq
        exact Nat.lt_irrefl _ hi
    · simp [recvWait, outWait, Wait.burden, outTodo, recvTodo, hfive]
  | quiet hd ha => exact costs_of_drivesRecv ha hd
  | got hd ha => exact costs_of_drivesRecv ha hd
  | @back i msg f hf hp htaken =>
    obtain ⟨d, hd, rfl⟩ : ∃ d, (chan c).recvs[i]? = some d ∧ d.fut = f := by
      simpa [ChannelSystem.recvFuts] using hf
    rw [Function.update_eq_self]
    apply Costs.still
    simp [recvWait, outWait, Wait.burden, ChannelSystem.recvBurden_some hd, hp, Point.stage,
      ChannelSystem.burden, outTodo, recvTodo]

theorem mainTodo_none (main : List Op) : mainTodo main none = (main.map opTodo).sum := by
  rcases main with _ | ⟨op, ops⟩
  · rfl
  · cases op <;> rfl

theorem mainTodo_after (c : Chan) (ops : List Op) (out : ℕ ⊕ Except RecvError Message) :
    mainTodo (mainAfter c ops out).1 (mainAfter c ops out).2 ≤ outTodo out + (ops.map opTodo).sum := by
  cases out with
  | inl i => exact Nat.le_add_left _ _
  | inr res => exact Nat.le_trans (Nat.le_of_eq (mainTodo_none ops)) (Nat.le_add_left _ _)

theorem mainTodo_recv (c : Chan) (ops : List Op) (awaits : Option ℕ) :
    mainTodo (.recv c :: ops) awaits = recvTodo awaits + (ops.map opTodo).sum := by
  cases awaits with
  | none => rfl
  | some i => exact (Nat.zero_add _).symm

def Event.isTask : Event → Bool
  | .main _ _ | .loop _ _ _ => true
  | _ => false

structure Runs (n : ℕ) (s t : Server) (p : Option Chan) : Prop where
  served : ∀ c, p = some c → [c] ∈ s.threads
  others : ∀ q, q ≠ p → t.wait q = s.wait q ∧ t.todo q = s.todo q
  costs : Costs n s.chan t.chan (s.wait p)
    ((s.wait p).burden n s.chan + 5 * ((s.wait p).asleep s.chan).toNat + s.todo p) (t.weight n p)
  runs : t.runs = s.runs

theorem Runs.of_main (hl : t.loop = s.loop) (hr : t.runs = s.runs)
    (h : Costs n s.chan t.chan (s.wait none) ((s.wait none).burden n s.chan +
      5 * ((s.wait none).asleep s.chan).toNat + s.todo none) (t.weight n none)) : Runs n s t none := by
  refine ⟨by simp, ?_, h, hr⟩
  intro q hq
  cases q with
  | none => exact absurd rfl hq
  | some c => simp only [Server.wait, Server.todo, hl, and_self]

theorem Runs.of_loop {thread : ℕ} {l : Loop} (hthread : s.threads[thread]? = some [c])
    (hm : t.main = s.main) (ha : t.awaits = s.awaits) (hr : t.runs = s.runs)
    (hl : t.loop = Function.update s.loop c l)
    (h : Costs n s.chan t.chan ((s.loop c).wait c) (((s.loop c).wait c).burden n s.chan +
      5 * (((s.loop c).wait c).asleep s.chan).toNat + (s.loop c).todo)
      ((l.wait c).burden n t.chan + l.todo)) : Runs n s t (some c) := by
  refine ⟨?_, ?_, ?_, hr⟩
  · rintro c' heq
    obtain rfl := Option.some.inj heq
    exact List.mem_of_getElem? hthread
  · intro q hq
    cases q with
    | none => simp only [Server.wait, Server.todo, hm, ha, and_self]
    | some c' =>
      have hc : c' ≠ c := fun heq => hq (congrArg some heq)
      simp only [Server.wait, Server.todo, hl, Function.update_of_ne hc, and_self]
  · simpa only [Server.weight, Server.wait, Server.todo, hl, Function.update_self] using h

theorem afterRecv_todo {b : Forwarder Chan} {out : ℕ ⊕ Except RecvError Message}
    (hone : ∀ call, afterRecv b out = .handle call none → call.sends.length ≤ 1) :
    (afterRecv b out).todo ≤ outTodo out := by
  rcases out with i | res
  · exact Nat.le_refl _
  · cases res with
    | error err => exact Nat.zero_le _
    | ok msg =>
      have := hone _ rfl
      simp only [afterRecv, Loop.todo, callTodo_none, outTodo]
      omega

theorem afterTry_todo {b : Forwarder Chan} {res : Except TryRecvError Message}
    (hone : ∀ call, afterTry b res = .handle call none → call.sends.length ≤ 1) :
    (afterTry b res).todo ≤ 14 := by
  cases res with
  | error err => simp [afterTry, Loop.todo, recvTodo]
  | ok msg =>
    have := hone _ rfl
    simp only [afterTry, Loop.todo, callTodo_none]
    omega

theorem afterHandle_todo (c : Chan) : (afterHandle c).todo ≤ 7 := by
  cases c <;> simp [afterHandle, Loop.todo, recvTodo]

theorem tryRecv_costs {handle : ℕ} {b : Forwarder Chan} (hi : ChannelSystem.Inv (chan c))
    (hd : Does (chan c) (.tryRecv handle) u)
    (hone : ∀ call, afterTry b (chan c).chan.tryRecv.2 = .handle call none → call.sends.length ≤ 1) :
    Costs n chan (Function.update chan c u) .nothing 7 (afterTry b (chan c).chan.tryRecv.2).todo := by
  have hstirs : ∀ b, (b = false → Still (chan c) u none none) →
      Stirs n chan (Function.update chan c u) .nothing b := by
    intro b hb
    apply stirs_of_leaves hd.leaves hb
    · intro _ _ _ _ heq
      cases heq
    · intro _ _ _ heq
      cases heq
  cases hd with
  | @tryRecvOk _ msg inner hh hq hcap hc =>
    refine ⟨c, _, true, rfl, hstirs true (by simp), ?_⟩
    have hafter := afterTry_todo hone
    simp only [Pays, moved, List.length_append, List.length_singleton, ← Nat.add_assoc, Nat.mul_add,
      price, Bool.toNat_true]
    omega
  | tryRecvEmpty hh hq =>
    have hstill : Still (chan c) { chan c with history := { (chan c).history with
        tryRecvs := (chan c).history.tryRecvs ++ [.error .empty] } } none none :=
      ⟨rfl, fun _ _ => rfl, fun _ _ => rfl, rfl⟩
    refine ⟨c, _, false, rfl, hstirs false (fun _ => hstill), hstill.pays ?_⟩
    rcases Crossbeam.tryRecv_cases hi.connected with ⟨-, hr⟩ | ⟨msg, inner, -, hq', -⟩
    · simp [Channel.tryRecv, hr, afterTry, Loop.todo, recvTodo]
    · simp [hq] at hq'

theorem Moves.runs (h : Moves k s e t) (hc : Sound k s.chan) (htask : e.isTask = true)
    (hone : ∀ c call, t.loop c = .handle call none → call.sends.length ≤ 1) :
    ∃ p, Runs n s t p ∧ (s.wait p).asleep s.chan = !awake s e := by
  have hmain : ∀ {handle key}, (s.wait none).asleep s.chan = !awake s (.main handle key) := by
    simp [awake]
  have hloop : ∀ {thread handle key c}, s.threads[thread]? = some [c] →
      (s.wait (some c)).asleep s.chan = !awake s (.loop thread handle key) := by
    intro thread handle key c hthread
    simp [awake, hthread]
  cases h with
  | @spawn handle key recvs ops hm =>
    refine ⟨none, .of_main rfl rfl (Costs.still ?_), hmain⟩
    simp only [Server.weight, Server.wait, Server.todo, hm, mainWait_none, mainTodo_none]
    simp only [mainWait, mainTodo, opTodo, Wait.burden, List.map_cons, List.sum_cons]
    omega
  | @sent handle key ops hm =>
    refine ⟨none, .of_main rfl rfl (Costs.still ?_), hmain⟩
    simp only [Server.weight, Server.wait, Server.todo, hm, mainWait_none, mainTodo_none]
    simp only [mainTodo, Wait.burden]
    omega
  | @send handle key call call' ops chan' awaits' hm hsound hs =>
    have hcosts := (hs.costs (n := n)).add (1 + (ops.map opTodo).sum)
    refine ⟨none, .of_main rfl rfl ?_, hmain⟩
    simpa only [Server.weight, Server.wait, Server.todo, hm, mainWait, mainTodo, Nat.add_assoc] using hcosts
  | @recv handle key c ops u out hm hsound hs =>
    have hwait : mainWait (.recv c :: ops) s.awaits = recvWait c s.awaits := rfl
    have hcosts := (hs.costs (n := n)).add (ops.map opTodo).sum
    have hafter := mainTodo_after c ops out
    refine ⟨none, .of_main rfl rfl ?_, hmain⟩
    simp only [Server.weight, Server.wait, Server.todo, hm, hwait, mainWait_after, mainTodo_recv]
    exact hcosts.mono (Nat.le_of_eq (Nat.add_assoc _ _ _)) (by omega)
  | run hm => cases htask
  | @loopRecv thread handle key c awaits u out hthread hl hsound hs =>
    have hafter : (afterRecv (s.proc c) out).todo ≤ outTodo out :=
      afterRecv_todo fun call hcall => hone c call (by simp [hcall])
    refine ⟨some c, .of_loop hthread rfl rfl rfl rfl ?_, hloop hthread⟩
    rw [hl, afterRecv_wait]
    exact hs.costs.mono (Nat.le_refl _) (Nat.add_le_add_left hafter _)
  | @handled thread handle key c b awaits hthread hl =>
    have hafter := afterHandle_todo c
    refine ⟨some c, .of_loop hthread rfl rfl rfl rfl (Costs.still ?_), hloop hthread⟩
    rw [hl, afterHandle_wait]
    change 0 + (afterHandle c).todo + 1 ≤ 0 + 8
    omega
  | @loopSend thread handle key c call call' chan' awaits awaits' hthread hl hsound hs =>
    refine ⟨some c, .of_loop hthread rfl rfl rfl rfl ?_, hloop hthread⟩
    rw [hl]
    exact hs.costs.add 8
  | @tryRecv thread handle key c u hthread hl hsound hd =>
    refine ⟨some c, .of_loop hthread rfl rfl rfl rfl ?_, hloop hthread⟩
    rw [hl, afterTry_wait]
    have hcosts := tryRecv_costs (n := n) (b := s.proc c) (hc.inv c) hd fun call hcall =>
      hone c call (by simp [hcall])
    exact hcosts.mono (Nat.le_add_left _ _) (Nat.le_of_eq (Nat.zero_add _))
  | handle ha hsound hd => cases htask

end Steps

def parties (k : Params) : List (Option Chan) := none :: k.channels.map some

def Server.load (k : Params) (s : Server) : ℕ := ((parties k).map (s.weight (parties k).length)).sum

def traffic (k : Params) (chan : Channels) : ℕ := (k.sites.map fun c => moved (chan c)).sum

def runTodo (k : Params) : ℕ :=
  ((crossbeamAsyncDriver.run (crossbeamAsyncDriver.setup k.pipelines k.lanes k.messages).1).map opTodo).sum

section Totals

variable {k : Params} {s u : Server} {t : Experiment.State} {e : Event} {p : Option Chan}

theorem parties_nodup (k : Params) : (parties k).Nodup :=
  List.nodup_cons.mpr ⟨by simp, k.channels_nodup.map (Option.some_injective _)⟩

theorem Related.moved_length (h : Related k s t) (c : Chan) :
    moved (s.chan c) = (t.net.put c).length + (t.net.got c).length := by
  rw [h.refines.mirrors.put, h.refines.mirrors.got, List.length_map, List.length_map, moved]

theorem Related.moved_le (h : Related k s t) (ht : (plain k).Reachable t) (c : Chan) :
    moved (s.chan c) ≤ 2 * (t.net.put c).length := by
  have hfifo := congrArg List.length ((plain_inv ht).1.sound.fifo c)
  rw [List.length_append] at hfifo
  rw [h.moved_length c]
  omega

theorem Related.moved_off (h : Related k s t) (ht : (plain k).Reachable t) {c : Chan}
    (hc : c ∉ k.sites) : moved (s.chan c) = 0 := by
  have hle := h.moved_le ht c
  rw [Experiment.reaches_put (wires_crossbeamAsync k) ht hc] at hle
  exact Nat.le_zero.mp hle

theorem Related.traffic_le (h : Related k s t) (ht : (plain k).Reachable t) :
    traffic k s.chan ≤ k.sites.length * (2 * k.mail s.runs) := by
  have hsite : ∀ x ∈ k.sites.map fun c => moved (s.chan c), x ≤ 2 * k.mail s.runs := by
    intro x hx
    obtain ⟨c, hc, rfl⟩ := List.mem_map.mp hx
    have hput := (plain_inv ht).1.put_length_le (wires_crossbeamAsync k) hc
    rw [h.refines.runs] at hput
    exact Nat.le_trans (h.moved_le ht c) (Nat.mul_le_mul_left 2 hput)
  simpa [traffic] using List.sum_le_card_nsmul _ _ hsite

theorem Related.served (h : Related k s t) (ht : (plain k).Reachable t) {c : Chan}
    (hc : [c] ∈ s.threads) : c ∈ k.channels := by
  rw [← h.refines.threads] at hc
  exact ((plain_inv ht).1.ranks _ (.inl hc) c (List.mem_singleton_self c)).1

theorem Related.one_send (h : Related k s t) (ht : (plain k).Reachable t) {c : Chan}
    {call : Sending Chan (Forwarder Chan)} (hl : s.loop c = .handle call none) :
    call.sends.length ≤ 1 := by
  have hcall := h.refines.call c
  have heff : effective s.chan call none = call := by cases call <;> rfl
  simp only [hl, callOf, heff] at hcall
  have hc : c ∈ k.channels := (plain_inv ht).1.active c (by simp [hcall])
  have := Experiment.reaches_one_send (wires_crossbeamAsync k) ht c hc
  simpa [Net.current, hcall] using this

theorem Runs.pays (h : Runs (parties k).length s u p) (hs : Owned s) (hp : p ∈ parties k)
    (hoff : ∀ c ∉ k.sites, moved (s.chan c) = 0 ∧ moved (u.chan c) = 0) :
    1 + u.load k + price (parties k).length * traffic k s.chan ≤ s.load k +
      5 * ((s.wait p).asleep s.chan).toNat + price (parties k).length * traffic k u.chan := by
  obtain ⟨c, v, b, hchan, hstirs, hpays⟩ := h.costs
  have hothers : ∀ q, q ≠ p →
      u.weight (parties k).length q ≤ s.weight (parties k).length q + 8 * b.toNat := by
    intro q hq
    obtain ⟨hwait, htodo⟩ := h.others q hq
    have hburden := hstirs (s.wait q) (hs.apart p q hq.symm) (hs.alive q)
    simp only [Server.weight, hwait, htodo]
    omega
  have hsum := Lib.sum_map_le_change hothers (parties_nodup k) hp
  have htraffic : traffic k u.chan + moved (s.chan c) = traffic k s.chan + moved v := by
    have hsame : ∀ x, x ≠ c → moved (u.chan x) = moved (s.chan x) := by
      intro x hx
      rw [hchan, Function.update_of_ne hx]
    have hself : u.chan c = v := by rw [hchan, Function.update_self]
    by_cases hc : c ∈ k.sites
    · rw [← hself]
      exact Net.sum_map_change hsame k.sites_nodup hc
    · obtain ⟨hzero, hzero'⟩ := hoff c hc
      rw [hself] at hzero'
      rw [traffic, Net.sum_map_congr_off hsame hc, hzero, hzero']
      rfl
  have hprice := congrArg (price (parties k).length * ·) htraffic
  simp only [Nat.mul_add] at hprice
  have hmul : 8 * b.toNat * (parties k).length = 8 * (parties k).length * b.toNat := by
    rw [Nat.mul_assoc, Nat.mul_assoc, Nat.mul_comm b.toNat]
  have hself : s.weight (parties k).length p = (s.wait p).burden (parties k).length s.chan + s.todo p := rfl
  simp only [Pays] at hpays
  simp only [Server.load]
  omega

theorem load_of_loop (hl : u.loop = s.loop) (hc : u.chan = s.chan) :
    u.load k ≤ s.load k + u.weight (parties k).length none := by
  have hsame : ∀ q, q ≠ none → u.weight (parties k).length q = s.weight (parties k).length q := by
    intro q hq
    cases q with
    | none => exact absurd rfl hq
    | some c => simp only [Server.weight, Server.wait, Server.todo, hl, hc]
  have hchange := Net.sum_map_change hsame (parties_nodup k) List.mem_cons_self
  simp only [Server.load]
  omega

theorem weight_run (n : ℕ) (hm : s.main =
    crossbeamAsyncDriver.run (crossbeamAsyncDriver.setup k.pipelines k.lanes k.messages).1)
    (ha : s.awaits = none) : s.weight n none = runTodo k := by
  simp only [Server.weight, Server.wait, Server.todo, hm, ha, mainWait_none, mainTodo_none, Wait.burden,
    runTodo, Nat.zero_add]

theorem Moves.rests (h : Moves k s e u) (hs : Owned s) (htask : e.isTask = false) :
    u.load k + runTodo k * s.runs ≤ s.load k + runTodo k * u.runs ∧ traffic k u.chan = traffic k s.chan := by
  cases h with
  | run hm =>
    refine ⟨?_, rfl⟩
    apply Nat.le_trans (Nat.add_le_add_right (load_of_loop (s := s) (by rfl) (by rfl)) _)
    rw [weight_run (k := k) _ rfl rfl, Nat.mul_succ]
    omega
  | @handle c a v ha hsound hd =>
    have hstill := hd.handled_still ha
    obtain ⟨ho, hr, -⟩ := ChannelSystem.isHandle_cases (s := s.chan c) ha
    have hleaves := hd.leaves
    rw [ho, hr] at hleaves
    have hstirs : Stirs (parties k).length s.chan (Function.update s.chan c v) .nothing false :=
      stirs_of_leaves hleaves (fun _ => hstill) (by simp) (by simp)
    constructor
    · apply Nat.add_le_add_right
      apply List.sum_le_sum
      intro q _
      exact Nat.add_le_add_right (hstirs (s.wait q) (by cases s.wait q <;> trivial) (hs.alive q)) _
    · unfold traffic
      congr 1
      apply List.map_congr_left
      intro c' _
      by_cases hc : c' = c
      · subst hc
        simp only [Function.update_self, hstill.moved]
      · simp only [Function.update_of_ne hc]
  | _ => cases htask

def Server.paid (k : Params) (s : Server) : ℕ :=
  price (parties k).length * traffic k s.chan + runTodo k * s.runs

def spurious (s : Server) (e : Event) : Bool := e.isTask && !awake s e

theorem step_pays (h : (server k).Reachable s) (hstep : step k s e = some u) :
    e.isTask.toNat + u.load k + s.paid k ≤ s.load k + 5 * (spurious s e).toNat + u.paid k := by
  obtain ⟨t, ht, hr⟩ := reaches_related h
  obtain ⟨t', ht', hr'⟩ := reaches_related (h.step trivial hstep)
  have hmoves := step_moves hr.sound hstep
  cases htask : e.isTask with
  | true =>
    obtain ⟨p, hruns, hasleep⟩ := hmoves.runs (n := (parties k).length) hr.sound htask
      fun c call hl => hr'.one_send ht' hl
    have hp : p ∈ parties k := by
      cases p with
      | none => exact List.mem_cons_self
      | some c => exact List.mem_cons_of_mem _ (List.mem_map_of_mem (hr.served ht (hruns.served c rfl)))
    have hpays := hruns.pays hr.owned hp fun c hc => ⟨hr.moved_off ht hc, hr'.moved_off ht' hc⟩
    simp only [Server.paid, hruns.runs, spurious, htask, ← hasleep, Bool.true_and, Bool.toNat_true]
    omega
  | false =>
    obtain ⟨hload, htraffic⟩ := hmoves.rests hr.owned htask
    simp only [Server.paid, htraffic, Bool.toNat_false]
    omega

def serverSteps (k : Params) (r : ℕ) : ℕ :=
  6 * ((crossbeamAsyncDriver.setup k.pipelines k.lanes k.messages).2.length + 2 * k.channels.length) +
    6 * (k.lanes * k.messages + 2) * r + price k.sites.length * (k.sites.length * (2 * k.mail r))

theorem opTodo_le (op : Op) : opTodo op ≤ 6 * op.steps := by
  cases op with
  | block call =>
    simp only [opTodo, callTodo_none, Experiment.Op.steps, Experiment.Op.sends_block]
    omega
  | _ => simp [opTodo, Experiment.Op.steps]

theorem opsTodo_le (ops : List Op) : (ops.map opTodo).sum ≤ 6 * (ops.map Experiment.Op.steps).sum := by
  induction ops with
  | nil => exact Nat.le_refl _
  | cons op ops ih =>
    have := opTodo_le op
    simp only [List.map_cons, List.sum_cons]
    omega

theorem runTodo_le (k : Params) : runTodo k ≤ 6 * (k.lanes * k.messages + 2) := by
  have hdata := Experiment.data_length k
  have hle := opsTodo_le (crossbeamAsyncDriver.run (crossbeamAsyncDriver.setup k.pipelines k.lanes k.messages).1)
  have hsteps : ((crossbeamAsyncDriver.run
      (crossbeamAsyncDriver.setup k.pipelines k.lanes k.messages).1).map Experiment.Op.steps).sum =
      k.lanes * k.messages + 2 := by
    simp only [(wires_crossbeamAsync k).run, List.map_cons, List.map_nil, List.sum_cons, List.sum_nil,
      Experiment.Op.steps, Experiment.Op.sends_block, Experiment.Op.sends_recv, Call.sends_after,
      Call.sends_done, List.append_nil, List.length_nil, hdata]
    omega
  rwa [hsteps] at hle

theorem start_load (k : Params) : (start k).load k ≤
    6 * ((crossbeamAsyncDriver.setup k.pipelines k.lanes k.messages).2.length + 2 * k.channels.length) := by
  have hle := opsTodo_le (crossbeamAsyncDriver.setup k.pipelines k.lanes k.messages).2
  have howed := Experiment.start_owed (wires_crossbeamAsync k)
  have hsteps : ((crossbeamAsyncDriver.setup k.pipelines k.lanes k.messages).2.map
      Experiment.Op.steps).sum ≤ (Experiment.start crossbeamAsyncDriver k).owed k :=
    Nat.le_trans (Nat.le_add_right _ _) (Nat.le_add_right _ _)
  have hchannels : k.channels.length = k.lanes * k.pipelines + 1 := by
    simp [Params.channels, Params.laneChans]
  have hmain : (start k).weight (parties k).length none =
      ((crossbeamAsyncDriver.setup k.pipelines k.lanes k.messages).2.map opTodo).sum := by
    simp only [Server.weight, Server.wait, Server.todo, start, mainWait_none, mainTodo_none, Wait.burden,
      Nat.zero_add]
  have hloops : ((k.channels.map some).map ((start k).weight (parties k).length)).sum =
      k.channels.length * 6 := by
    have hsix : Server.weight (parties k).length (start k) ∘ some = fun _ => 6 := rfl
    rw [List.map_map, hsix, List.map_const', List.sum_replicate_nat]
  rw [Server.load, parties, List.map_cons, List.sum_cons, ← parties, hmain, hloops]
  omega

/-- However the polls interleave, the tasks make no more than so many steps, and five more each time that
one is polled although it sleeps. -/
theorem async_pipeline_steps_bounded {k : Params} {as : List Event} {s : Server}
    (h : (server k).exec (fun _ _ => true) (start k) as = some s) :
    as.countP Event.isTask ≤ serverSteps k s.runs + 5 * (server k).tally spurious (start k) as := by
  have hreach : (server k).Reachable s :=
    System.Reaches.mono (fun _ _ _ => trivial) (System.exec_reaches h)
  obtain ⟨t, ht, hr⟩ := reaches_related hreach
  have hrun := System.exec_tally (S := server k) (I := (server k).Reachable) (p := Event.isTask)
    (q := spurious) (k := 5) (w := Server.load k) (c := Server.paid k) (s := start k)
    (fun s e u hs _ hstep => ⟨hs.step trivial hstep, step_pays hs hstep⟩) .refl h
  have hlength : (parties k).length = k.sites.length := by simp [parties, Params.sites]
  have htraffic := Nat.mul_le_mul_left (price k.sites.length) (hr.traffic_le ht)
  have hruns := Nat.mul_le_mul_right s.runs (runTodo_le k)
  have hstart := start_load k
  simp only [Server.paid, hlength] at hrun
  simp only [serverSteps]
  omega

theorem async_pipeline_steps_bounded_small : afterServerRun.runs = 1 ∧
    smallServerRun.countP Event.isTask ≤ serverSteps Experiment.small afterServerRun.runs +
      5 * (server Experiment.small).tally spurious (start Experiment.small) smallServerRun :=
  ⟨afterServerRun_rests.2, async_pipeline_steps_bounded (s := afterServerRun) (Option.some_get _).symm⟩

end Totals

end ChannelExecutor.AsyncPipeline
