import ChannelExecutor.ChannelInvariant
import ChannelExecutor.Lib.WakeCount

set_option autoImplicit false

namespace ChannelExecutor.ChannelSystem

open Lib Lib.WaitSet

variable {α φ : Type}

def registered (optKey : φ → Option ℕ) (ds : List (Driven φ)) : ℕ :=
  ds.countP fun d => (optKey d.fut).isSome

def leaked (optKey : φ → Option ℕ) (ds : List (Driven φ)) : ℕ :=
  ds.countP fun d => (optKey d.fut).isSome && d.dropped

structure Leaks (optKey : φ → Option ℕ) (ds : List (Driven φ)) (wakers : WakerSet Ticket)
    (ds' : List (Driven φ)) (wakers' : WakerSet Ticket) : Prop where
  entries : wakers.slab.occupied = registered optKey ds
  grows : leaked optKey ds ≤ leaked optKey ds'
  stays : ∀ (i : ℕ) (d : Driven φ) (k : ℕ), ds[i]? = some d → d.dropped = true →
    optKey d.fut = some k → ∃ d' : Driven φ, ds'[i]? = some d' ∧ d'.dropped = true ∧
      optKey d'.fut = some k ∧ (wakers'.slab.get k).isSome

def SidesBooked (s : State α) : Prop := Booked (sendSide s) ∧ Booked (recvSide s)

theorem Does.booked {s t : State α} {a : Act α} (h : Does s a t) (hi : Inv s)
    (hs : SidesBooked s) : SidesBooked t ∧ LeaksInto (sendSide s) (sendSide t) ∧
      LeaksInto (recvSide s) (recvSide t) := by
  obtain ⟨c, ht, -⟩ := h.sendTurn hi
  obtain ⟨c', ht', -⟩ := h.recvTurn hi
  obtain ⟨hsend, hleak⟩ := ht.booked hi.sendOwned hs.1
  obtain ⟨hrecv, hleak'⟩ := ht'.booked hi.recvOwned hs.2
  exact ⟨⟨hsend, hrecv⟩, hleak, hleak'⟩

theorem sidesBooked_start (cap : Option ℕ) : SidesBooked (start (channel cap) : State α) := by
  have hempty : Booked ⟨.empty, []⟩ := ⟨rfl, by simp [Rests]⟩
  cases cap <;> exact ⟨hempty, hempty⟩

theorem Reaches.leaks {cap : Option ℕ} {ok : State α → Act α → Prop} {s t : State α} (hi : Inv s)
    (hs : SidesBooked s) (h : (system cap).Reaches ok s t) : Inv t ∧ SidesBooked t ∧
      LeaksInto (sendSide s) (sendSide t) ∧ LeaksInto (recvSide s) (recvSide t) := by
  refine h.invariant (I := fun t => Inv t ∧ SidesBooked t ∧
    LeaksInto (sendSide s) (sendSide t) ∧ LeaksInto (recvSide s) (recvSide t))
    ⟨hi, hs, .refl _, .refl _⟩ ?_
  rintro t a u ⟨hi, ht, hsend, hrecv⟩ - hstep
  obtain ⟨hu, hsend', hrecv'⟩ := (step_does hi.connected hstep).booked hi ht
  exact ⟨step_inv hi hstep, hu, hsend.trans hsend', hrecv.trans hrecv'⟩

theorem leaks_of_sides {optKey : φ → Option ℕ} {ds ds' : List (Driven φ)}
    {wakers wakers' : WakerSet Ticket} {f : Driven φ → Waiter}
    (hkey : ∀ d, (f d).key = optKey d.fut) (hdrop : ∀ d, (f d).dropped = d.dropped)
    (hs : Booked ⟨wakers.slab, ds.map f⟩) (ho : Owned ⟨wakers'.slab, ds'.map f⟩)
    (hl : LeaksInto ⟨wakers.slab, ds.map f⟩ ⟨wakers'.slab, ds'.map f⟩) :
    Leaks optKey ds wakers ds' wakers' := by
  have hregistered : ∀ ds : List (Driven φ), (ds.map f).countP Waiter.registered = registered optKey ds := by
    intro ds
    simp [List.countP_map, registered, Function.comp_def, Waiter.registered, hkey]
  have hleaked : ∀ ds : List (Driven φ), (ds.map f).countP Waiter.leaks = leaked optKey ds := by
    intro ds
    simp [List.countP_map, leaked, Function.comp_def, Waiter.leaks, hkey, hdrop]
  constructor
  case entries => exact hs.1.trans (hregistered ds)
  case grows => simpa [hleaked] using hl.grows
  case stays =>
    intro i d k hd hdropped hk
    obtain ⟨y, hy, hky, hdy⟩ := hl.keeps i k (f d) (by simp [hd]) (by rw [hkey, hk]) (by rw [hdrop, hdropped])
    obtain ⟨d', hd', rfl⟩ : ∃ d', ds'[i]? = some d' ∧ f d' = y := by simpa using hy
    obtain ⟨e, he, -⟩ := ho.held i (f d') k hy hky
    exact ⟨d', hd', by rw [← hdrop, hdy], by rw [← hkey, hky], by simp [he]⟩

/-- In every reachable state the entries of the waker sets are those of the futures that hold a key;
of these, the ones that were dropped are never given back, whatever happens next. -/
theorem dropped_entries_leak (cap : Option ℕ) (s t : State α) (h : (system cap).Reachable s)
    (hst : (system cap).Reaches System.Anything s t) :
    Leaks SendFuture.optKey s.sends s.chan.sendWakers t.sends t.chan.sendWakers ∧
    Leaks RecvFuture.optKey s.recvs s.chan.recvWakers t.recvs t.chan.recvWakers := by
  obtain ⟨hi, hs, -⟩ := Reaches.leaks (inv_start cap) (sidesBooked_start cap) h
  obtain ⟨hit, -, hsend, hrecv⟩ := Reaches.leaks hi hs hst
  exact ⟨leaks_of_sides (f := sendWaiter) (fun _ => rfl) (fun _ => rfl) hs.1 hit.sendOwned hsend,
    leaks_of_sides (f := recvWaiter) (fun _ => rfl) (fun _ => rfl) hs.2 hit.recvOwned hrecv⟩

def droppedAsleep : List (Act ℕ) :=
  [.recv 0, .pollRecv 0, .stepRecv 0 0, .stepRecv 0 0, .stepRecv 0 0, .stepRecv 0 0, .dropRecv 0]

theorem dropped_entries_leak_run : ∃ s t : State ℕ, leaked RecvFuture.optKey s.recvs = 1 ∧
    t.history.handedOut = [(.tryRecv 0, 7)] ∧ t.chan.recvWakers.slab.slots = [some (some ⟨0, 1⟩)] ∧
    Leaks RecvFuture.optKey s.recvs s.chan.recvWakers t.recvs t.chan.recvWakers :=
  have h := System.exec_get (system (some 1)) (fun _ _ => true) (start (channel (some 1))) droppedAsleep rfl
  have h' := System.exec_get (system (some 1)) (fun _ _ => true)
    (((system (some 1)).exec (fun _ _ => true) (start (channel (some 1))) droppedAsleep).get rfl)
    [.trySend 0 7, .tryRecv 0] rfl
  ⟨_, _, rfl, rfl, rfl, (dropped_entries_leak _ _ _ (System.ReachableBy.reachable h)
    (h'.mono fun _ _ _ => trivial)).2⟩

end ChannelExecutor.ChannelSystem
