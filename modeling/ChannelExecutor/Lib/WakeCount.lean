import ChannelExecutor.Lib.WakeLedger

set_option autoImplicit false

namespace ChannelExecutor.Lib

def Slab.occupied {α : Type} (s : Slab α) : ℕ := s.count fun _ => true

def Waiter.registered (x : Waiter) : Bool := x.key.isSome

def Waiter.leaks (x : Waiter) : Bool := x.key.isSome && x.dropped

theorem Slab.occupied_insert {α : Type} {s t : Slab α} {k : ℕ} {a : α} (h : s.insert k a = some t) :
    t.occupied = s.occupied + 1 := by
  obtain ⟨hvacant, rfl⟩ := Slab.insert_eq_some.mp h
  simpa [Slab.occupied, hvacant] using Slab.count_put (fun _ => true) s k (some a)

theorem Slab.occupied_remove {α : Type} {s t : Slab α} {k : ℕ} (h : s.remove k = some t) :
    t.occupied + 1 = s.occupied := by
  obtain ⟨hsome, rfl⟩ := Slab.remove_eq_some.mp h
  obtain ⟨a, ha⟩ := Option.isSome_iff_exists.mp hsome
  simpa [Slab.occupied, ha] using Slab.count_put (fun _ => true) s k none

theorem Slab.occupied_takeFirst {α : Type} (s : Slab (Option α)) :
    s.takeFirst.1.occupied = s.occupied := by
  obtain ⟨he, -⟩ | ⟨k, a, hk, he⟩ := s.takeFirst_cases
  · rw [he]
  · rw [he]
    simpa [Slab.occupied, hk] using Slab.count_put (fun _ => true) s k (some none)

namespace WaitSet

variable {w w' : WaitSet}

def Rests (w : WaitSet) : Prop :=
  ∀ (i : ℕ) (x : Waiter), w.waiters[i]? = some x → x.dropped = true →
    x.stage = .fresh ∨ x.stage = .pending

theorem countP_wake {p : Waiter → Bool} (hp : ∀ x : Waiter, p { x with woken := true } = p x)
    (ws : List Waiter) (t : Option Ticket) : (wake ws t).countP p = ws.countP p := by
  cases t with
  | none => rfl
  | some t =>
    simp only [wake, List.modify_eq_set_getElem?]
    cases hx : ws[t.waiter]? with
    | none => simp
    | some x =>
      have := countP_set_some hx p { x with woken := true }
      rw [hp] at this
      simpa using this

theorem Step.counted {m : Move} (hw : Step w m w') (ho : Owned w)
    (h : w.slab.occupied = w.waiters.countP Waiter.registered) :
    w'.slab.occupied = w'.waiters.countP Waiter.registered := by
  have put : ∀ {i : ℕ} {x y : Waiter}, w.waiters[i]? = some x → y.key = x.key →
      (w.update i y).slab.occupied = (w.update i y).waiters.countP Waiter.registered := by
    intro i x y hx hkey
    have hset := countP_set_some hx Waiter.registered y
    simp only [Waiter.registered, hkey] at hset
    exact h.trans (Nat.add_right_cancel hset).symm
  cases hw with
  | join => simpa [Waiter.registered, Waiter.fresh] using h
  | poll hx hs hd => exact put hx rfl
  | advance hx ha => exact put hx rfl
  | drop hx hs => exact put hx rfl
  | @release i x k slab hx hs hk hr =>
    have hslab := Slab.occupied_remove hr
    have hset := countP_set_some hx Waiter.registered { x with stage := .trying, key := none }
    simp only [Waiter.registered, hk, Option.isSome_some, Option.isSome_none, if_true,
      Bool.false_eq_true, if_false] at hset
    dsimp only at h ⊢
    omega
  | @register i x k slab hx hs hd hr =>
    have hslab := Slab.occupied_insert hr
    have hnone : x.key = none := by simpa [Keyed, hs] using ho.keyed i x hx
    have hset := countP_set_some hx Waiter.registered { x with stage := .checking, key := some k }
    simp only [Waiter.registered, hnone, Option.isSome_some, Option.isSome_none, if_true,
      Bool.false_eq_true, if_false] at hset
    dsimp only at h ⊢
    omega
  | notify => rwa [Slab.occupied_takeFirst, countP_wake fun _ => rfl]

theorem Rests.update (h : Rests w) {i : ℕ} {x y : Waiter} {slab : Slab (Option Ticket)}
    (hx : w.waiters[i]? = some x) (hy : y.dropped = true → y.stage = .fresh ∨ y.stage = .pending) :
    Rests ⟨slab, w.waiters.set i y⟩ := by
  intro j z hz hd
  rw [getElem?_set_some hx] at hz
  split at hz
  next =>
    obtain rfl := Option.some.inj hz
    exact hy hd
  next => exact h j z hz hd

theorem Step.rests {m : Move} (hw : Step w m w') (h : Rests w) : Rests w' := by
  cases hw with
  | join =>
    intro j z hz hd
    rw [List.getElem?_append] at hz
    split at hz
    next => exact h j z hz hd
    next =>
      obtain rfl := List.mem_singleton.mp (List.mem_of_getElem? hz)
      cases hd
  | poll hx hs hd => exact h.update hx (by simp [hd])
  | @advance i x st hx ha =>
    refine h.update hx fun hd => ?_
    have hrest := h i x hx hd
    obtain ⟨key, stage, polls, woken, dropped⟩ := x
    cases ha <;> simp at hrest
  | drop hx hs => exact h.update hx fun _ => hs
  | @release i x k slab hx hs hk hr =>
    refine h.update hx fun hd => ?_
    have hrest := h i x hx hd
    simp [hs] at hrest
  | register hx hs hd hr => exact h.update hx (by simp [hd])
  | notify =>
    intro j z hz hd
    cases ht : w.slab.takeFirst.2 with
    | none => exact h j z (by simpa [ht, wake] using hz) hd
    | some t =>
      rw [ht, wake_get] at hz
      split at hz
      next =>
        obtain ⟨y, hy, rfl⟩ := Option.map_eq_some_iff.mp hz
        exact h j y hy hd
      next => exact h j z hz hd

theorem Step.leaks_le {m : Move} (hw : Step w m w') (hr : Rests w) :
    w.waiters.countP Waiter.leaks ≤ w'.waiters.countP Waiter.leaks := by
  have put : ∀ {i : ℕ} {x y : Waiter}, w.waiters[i]? = some x → (x.leaks = true → y.leaks = true) →
      w.waiters.countP Waiter.leaks ≤ (w.waiters.set i y).countP Waiter.leaks := by
    intro i x y hx hxy
    have hset := countP_set_some hx Waiter.leaks y
    by_cases hl : x.leaks = true
    · rw [if_pos hl, if_pos (hxy hl)] at hset
      omega
    · rw [if_neg hl] at hset
      omega
  cases hw with
  | join => simp
  | poll hx hs hd => exact put hx fun hl => hl
  | advance hx ha => exact put hx fun hl => hl
  | drop hx hs => exact put hx fun hl => by simpa [Waiter.leaks] using (Bool.and_eq_true_iff.mp hl).1
  | @release i x k slab hx hs hk hrm =>
    refine put hx fun hl => ?_
    have hrest := hr i x hx (Bool.and_eq_true_iff.mp hl).2
    simp [hs] at hrest
  | register hx hs hd hr => exact put hx fun hl => by simp [Waiter.leaks, hd] at hl
  | notify => exact Nat.le_of_eq (countP_wake (fun _ => rfl) _ _).symm

theorem Step.keeps_leak {m : Move} (hw : Step w m w') (hr : Rests w) {i k : ℕ} {x : Waiter}
    (hx : w.waiters[i]? = some x) (hk : x.key = some k) (hd : x.dropped = true) :
    ∃ y, w'.waiters[i]? = some y ∧ y.key = some k ∧ y.dropped = true := by
  have hrest := hr i x hx hd
  have put : ∀ {j : ℕ} {y z : Waiter}, w.waiters[j]? = some y →
      (j = i → z.key = some k ∧ z.dropped = true) →
      ∃ y, (w.waiters.set j z)[i]? = some y ∧ y.key = some k ∧ y.dropped = true := by
    intro j y z hy hz
    rw [getElem?_set_some hy]
    split
    next hij => exact ⟨z, rfl, hz hij.symm⟩
    next => exact ⟨x, hx, hk, hd⟩
  cases hw with
  | join => exact ⟨x, by rw [List.getElem?_append_left (List.getElem?_eq_some_iff.mp hx).1, hx], hk, hd⟩
  | poll hy hs hlive =>
    refine put hy fun hj => ?_
    subst hj
    obtain rfl := Option.some.inj (hy.symm.trans hx)
    simp [hd] at hlive
  | advance hy ha =>
    refine put hy fun hj => ?_
    subst hj
    obtain rfl := Option.some.inj (hy.symm.trans hx)
    exact ⟨hk, hd⟩
  | drop hy hs =>
    refine put hy fun hj => ?_
    subst hj
    obtain rfl := Option.some.inj (hy.symm.trans hx)
    exact ⟨hk, rfl⟩
  | release hy hs hk' hrm =>
    refine put hy fun hj => ?_
    subst hj
    obtain rfl := Option.some.inj (hy.symm.trans hx)
    simp [hs] at hrest
  | register hy hs hlive hrm =>
    refine put hy fun hj => ?_
    subst hj
    obtain rfl := Option.some.inj (hy.symm.trans hx)
    simp [hd] at hlive
  | notify =>
    cases ht : w.slab.takeFirst.2 with
    | none => exact ⟨x, by simpa [ht, wake] using hx, hk, hd⟩
    | some t =>
      rw [wake_get]
      split
      next hj => exact ⟨{ x with woken := true }, by simp [hx], hk, hd⟩
      next => exact ⟨x, hx, hk, hd⟩

theorem Turn.step_or_same {T T' : ℤ} {D D' : ℕ} {c : Cause} (ht : Turn w T D c w' T' D') :
    (∃ m, Step w m w') ∨ w' = w := by
  cases ht with
  | move hw hs => exact .inl ⟨_, hw⟩
  | supply hT hD => exact .inr rfl
  | steal hT hD => exact .inr rfl
  | gift hT hD => exact .inr rfl

structure LeaksInto (w w' : WaitSet) : Prop where
  grows : w.waiters.countP Waiter.leaks ≤ w'.waiters.countP Waiter.leaks
  keeps : ∀ (i k : ℕ) (x : Waiter), w.waiters[i]? = some x → x.key = some k → x.dropped = true →
    ∃ y, w'.waiters[i]? = some y ∧ y.key = some k ∧ y.dropped = true

theorem LeaksInto.refl (w : WaitSet) : LeaksInto w w :=
  ⟨Nat.le_refl _, fun _ _ x hx hk hd => ⟨x, hx, hk, hd⟩⟩

theorem LeaksInto.trans {u : WaitSet} (h : LeaksInto w w') (h' : LeaksInto w' u) : LeaksInto w u := by
  refine ⟨Nat.le_trans h.grows h'.grows, fun i k x hx hk hd => ?_⟩
  obtain ⟨y, hy, hky, hdy⟩ := h.keeps i k x hx hk hd
  exact h'.keeps i k y hy hky hdy

def Booked (w : WaitSet) : Prop :=
  w.slab.occupied = w.waiters.countP Waiter.registered ∧ Rests w

theorem Turn.booked {T T' : ℤ} {D D' : ℕ} {c : Cause} (ht : Turn w T D c w' T' D') (ho : Owned w)
    (h : Booked w) : Booked w' ∧ LeaksInto w w' := by
  rcases ht.step_or_same with ⟨m, hw⟩ | rfl
  · exact ⟨⟨hw.counted ho h.1, hw.rests h.2⟩, hw.leaks_le h.2, fun i k x hx hk hd =>
      hw.keeps_leak h.2 hx hk hd⟩
  · exact ⟨h, .refl _⟩

end WaitSet

end ChannelExecutor.Lib
