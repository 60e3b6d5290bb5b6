import ChannelExecutor.ChannelInvariant

set_option autoImplicit false

namespace ChannelExecutor.ChannelSystem

open Lib Lib.WaitSet

variable {α φ : Type}

structure Watched (α : Type) where
  state : State α
  sendWoken : List Ticket
  recvWoken : List Ticket

def watch (w : Watched α) (a : Act α) : Option (Watched α) :=
  (step w.state a).map fun t =>
    ⟨t, w.sendWoken ++ sendNotified w.state a, w.recvWoken ++ recvNotified w.state a⟩

def watched (cap : Option ℕ) : System (Watched α) (Act α) := ⟨⟨start (channel cap), [], []⟩, watch⟩

theorem watch_eq_some {w v : Watched α} {a : Act α} (h : watch w a = some v) :
    step w.state a = some v.state ∧ v.sendWoken = w.sendWoken ++ sendNotified w.state a ∧
      v.recvWoken = w.recvWoken ++ recvNotified w.state a := by
  obtain ⟨t, ht, rfl⟩ := Option.map_eq_some_iff.mp h
  exact ⟨ht, rfl, rfl⟩

theorem watched_complete {cap : Option ℕ} {s : State α} (h : (system cap).Reachable s) :
    ∃ w : Watched α, (watched cap).Reachable w ∧ w.state = s := by
  change ∃ w, (watched cap).Reaches System.Anything (watched cap).init w ∧ w.state = s
  refine System.Reaches.simulation (R := fun s (w : Watched α) => w.state = s) ?_ h rfl
  rintro s a t w rfl - hstep
  have hwatch : (watched cap).step w a = some ⟨t, w.sendWoken ++ sendNotified w.state a,
      w.recvWoken ++ recvNotified w.state a⟩ := Option.map_eq_some_iff.mpr ⟨t, hstep, rfl⟩
  exact ⟨_, System.Reaches.single trivial hwatch, rfl⟩

structure KeysOwned (optKey : φ → Option ℕ) (stage : φ → Stage) (ds : List (Driven φ))
    (wakers : WakerSet Ticket) (woken : List Ticket) : Prop where
  -- `p` is the future's last poll; a poll that has only just begun has not reached the set yet
  occupied : ∀ (i : ℕ) (d : Driven φ) (k : ℕ), ds[i]? = some d → optKey d.fut = some k →
    ∃ p, (p = d.polls ∨ stage d.fut = .start ∧ p + 1 = d.polls) ∧
      (wakers.slab.get k = some (some ⟨i, p⟩) ∨ wakers.slab.get k = some none ∧ ⟨i, p⟩ ∈ woken)
  distinct : ∀ (i j : ℕ) (d d' : Driven φ) (k : ℕ), ds[i]? = some d → ds[j]? = some d' →
    optKey d.fut = some k → optKey d'.fut = some k → i = j
  removes : ∀ (i : ℕ) (d : Driven φ) (k : ℕ), ds[i]? = some d → optKey d.fut = some k →
    ∃ wakers', wakers.remove k = some wakers' ∧
      ∀ (j : ℕ) (d' : Driven φ) (l : ℕ), j ≠ i → ds[j]? = some d' → optKey d'.fut = some l →
        wakers'.slab.get l = wakers.slab.get l

theorem keysOwned_of_side {optKey : φ → Option ℕ} {stage : φ → Stage} {ds : List (Driven φ)}
    {wakers : WakerSet Ticket} {woken : List Ticket} {f : Driven φ → Waiter}
    (hkey : ∀ d, (f d).key = optKey d.fut) (hstage : ∀ d, (f d).stage = stage d.fut)
    (hpolls : ∀ d, (f d).polls = d.polls) (ho : Owned ⟨wakers.slab, ds.map f⟩)
    (hr : Recorded ⟨wakers.slab, ds.map f⟩ woken) : KeysOwned optKey stage ds wakers woken := by
  have hget : ∀ {i : ℕ} {d : Driven φ}, ds[i]? = some d → (ds.map f)[i]? = some (f d) := by
    intro i d hd
    simp [hd]
  constructor
  case occupied =>
    intro i d k hd hk
    obtain ⟨p, hp, hcell⟩ := hr i (f d) k (hget hd) (by rw [hkey, hk])
    rw [LastPoll, hstage, hpolls] at hp
    exact ⟨p, hp, hcell⟩
  case distinct =>
    intro i j d d' k hd hd' hk hk'
    exact ho.unique i j (f d) (f d') k (hget hd) (hget hd') (by rw [hkey, hk]) (by rw [hkey, hk'])
  case removes =>
    intro i d k hd hk
    obtain ⟨slab, hslab, hothers⟩ := ho.removes (hget hd) (by rw [hkey, hk])
    refine ⟨⟨slab⟩, Option.map_eq_some_iff.mpr ⟨slab, hslab, rfl⟩, ?_⟩
    intro j d' l hj hd' hl
    exact hothers j (f d') l hj (hget hd') (by rw [hkey, hl])

theorem reaches_recorded {cap : Option ℕ} {ok : Watched α → Act α → Prop} {w : Watched α}
    (h : (watched cap).ReachableBy ok w) :
    Inv w.state ∧ Recorded (sendSide w.state) w.sendWoken ∧
      Recorded (recvSide w.state) w.recvWoken := by
  refine h.invariant (I := fun w => Inv w.state ∧ Recorded (sendSide w.state) w.sendWoken ∧
    Recorded (recvSide w.state) w.recvWoken) ⟨inv_start cap, ?_, ?_⟩ ?_
  · intro i x k hx
    simp [watched, start, sendSide] at hx
  · intro i x k hx
    simp [watched, start, recvSide] at hx
  · rintro w a v ⟨hi, hsend, hrecv⟩ - hstep
    obtain ⟨hstep, hsendWoken, hrecvWoken⟩ := watch_eq_some hstep
    obtain ⟨c, ht, hc, -⟩ := (step_does hi.connected hstep).sendTurn hi
    obtain ⟨c', ht', hc', -⟩ := (step_does hi.connected hstep).recvTurn hi
    refine ⟨step_inv hi hstep, ?_, ?_⟩
    · rw [hsendWoken, hc]
      exact ht.recorded hi.sendOwned hsend
    · rw [hrecvWoken, hc']
      exact ht'.recorded hi.recvOwned hrecv

theorem wakers_owned (cap : Option ℕ) (w : Watched α) (h : (watched cap).Reachable w) :
    KeysOwned SendFuture.optKey (fun f => f.point.stage) w.state.sends w.state.chan.sendWakers
      w.sendWoken ∧
    KeysOwned RecvFuture.optKey (fun f => f.point.stage) w.state.recvs w.state.chan.recvWakers
      w.recvWoken ∧
    (∀ d ∈ w.state.sends, d.fut.point.stage ≠ .panicked) ∧
    (∀ d ∈ w.state.recvs, d.fut.point.stage ≠ .panicked) := by
  obtain ⟨hi, hsend, hrecv⟩ := reaches_recorded h
  refine ⟨?_, ?_, ?_, hi.unharmed⟩
  · exact keysOwned_of_side (f := sendWaiter) (fun _ => rfl) (fun _ => rfl) (fun _ => rfl)
      hi.sendOwned hsend
  · exact keysOwned_of_side (f := recvWaiter) (fun _ => rfl) (fun _ => rfl) (fun _ => rfl)
      hi.recvOwned hrecv
  · intro d hd hp
    have := hi.loaded d hd
    cases hpoint : d.fut.point <;> simp_all [Point.stage, Loaded]

theorem wakers_owned_run : ∃ w : Watched ℕ, w.recvWoken = [⟨0, 1⟩] ∧
    KeysOwned RecvFuture.optKey (fun f => f.point.stage) w.state.recvs w.state.chan.recvWakers
      w.recvWoken ∧
    w.state.chan.recvWakers.slab.slots = [some none, some (some ⟨1, 1⟩)] :=
  have h := System.exec_get (watched (α := ℕ) (some 1)) (fun _ _ => true) (watched (some 1)).init
    [.recv 0, .recv 0,
    .pollRecv 0, .stepRecv 0 0, .stepRecv 0 0, .stepRecv 0 0, .stepRecv 0 0,
    .pollRecv 1, .stepRecv 1 0, .stepRecv 1 0, .stepRecv 1 1, .stepRecv 1 0,
    .send 0 7, .pollSend 0, .stepSend 0 0, .stepSend 0 0, .stepSend 0 0] rfl
  ⟨_, rfl, (wakers_owned _ _ (System.ReachableBy.reachable h)).2.1, rfl⟩

end ChannelExecutor.ChannelSystem
