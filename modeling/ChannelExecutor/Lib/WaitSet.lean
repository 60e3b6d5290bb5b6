import ChannelExecutor.Lib.Slab

/-!
Waiters that sleep in a slab until somebody wakes them. A waiter tries, registers when the try
misses, checks once more and only then sleeps. The slab chooses its keys freely among the
vacant ones, and a waker empties the first full cell without freeing it.
-/

set_option autoImplicit false

namespace ChannelExecutor.Lib

/-- Where a waiter stands: outside a poll (`fresh`, `pending`, `ready`) or in the middle of one. -/
inductive Stage
  | fresh | start | trying | inserting | checking | notifying | pending | ready | panicked
  deriving DecidableEq, Repr

def Stage.inPoll : Stage → Bool
  | .start | .trying | .inserting | .checking | .notifying => true
  | _ => false

structure Ticket where
  waiter : ℕ
  poll : ℕ
  deriving DecidableEq, Repr

structure Waiter where
  key : Option ℕ
  stage : Stage
  polls : ℕ
  woken : Bool
  dropped : Bool
  deriving DecidableEq, Repr

def Waiter.fresh : Waiter := ⟨none, .fresh, 0, false, false⟩

structure WaitSet where
  slab : Slab (Option Ticket)
  waiters : List Waiter

namespace WaitSet

inductive Move
  | join
  | poll (i : ℕ)
  | release (i : ℕ)
  | advance (i : ℕ) (to' : Stage)
  | register (i : ℕ)
  | drop (i : ℕ)
  | notify

inductive Advance : Option ℕ → Stage → Stage → Prop
  | begin {key} (h : key = none) : Advance key .start .trying
  | take {key} : Advance key .trying .notifying
  | miss {key} : Advance key .trying .inserting
  | sleep {key} : Advance key .checking .pending
  | retry {key} : Advance key .checking .start
  | finish {key} : Advance key .notifying .ready

def update (w : WaitSet) (i : ℕ) (x : Waiter) : WaitSet := { w with waiters := w.waiters.set i x }

def wake (ws : List Waiter) (t : Option Ticket) : List Waiter :=
  match t with
  | some t => ws.modify t.waiter (fun x => { x with woken := true })
  | none => ws

inductive Step (w : WaitSet) : Move → WaitSet → Prop
  | join : Step w .join { w with waiters := w.waiters ++ [.fresh] }
  | poll {i x} (hx : w.waiters[i]? = some x) (hs : x.stage = .fresh ∨ x.stage = .pending)
      (hd : x.dropped = false) :
      Step w (.poll i) (w.update i { x with stage := .start, polls := x.polls + 1, woken := false })
  | release {i x k slab} (hx : w.waiters[i]? = some x) (hs : x.stage = .start)
      (hk : x.key = some k) (hr : w.slab.remove k = some slab) :
      Step w (.release i) ⟨slab, w.waiters.set i { x with stage := .trying, key := none }⟩
  | advance {i x st} (hx : w.waiters[i]? = some x) (ha : Advance x.key x.stage st) :
      Step w (.advance i st) (w.update i { x with stage := st })
  | register {i x k slab} (hx : w.waiters[i]? = some x) (hs : x.stage = .inserting)
      (hd : x.dropped = false) (hr : w.slab.insert k (some ⟨i, x.polls⟩) = some slab) :
      Step w (.register i) ⟨slab, w.waiters.set i { x with stage := .checking, key := some k }⟩
  | drop {i x} (hx : w.waiters[i]? = some x) (hs : x.stage = .fresh ∨ x.stage = .pending) :
      Step w (.drop i) (w.update i { x with dropped := true })
  | notify : Step w .notify ⟨w.slab.takeFirst.1, wake w.waiters w.slab.takeFirst.2⟩

theorem getElem?_set_some {β : Type} {l : List β} {i : ℕ} {x : β} (h : l[i]? = some x) (y : β)
    (j : ℕ) : (l.set i y)[j]? = if j = i then some y else l[j]? := by
  obtain ⟨hl, -⟩ := List.getElem?_eq_some_iff.mp h
  by_cases hj : j = i
  · subst j; simp [hl]
  · simp [hj, List.getElem?_set_ne (Ne.symm hj)]

def Fits (i : ℕ) (x : Waiter) : Option Ticket → Prop
  | none => x.woken = true ∨ x.stage = .start
  | some t => t.waiter = i ∧ (t.poll = x.polls ∨ x.stage = .start)

def Keyed (x : Waiter) : Prop :=
  match x.stage with
  | .start => True
  | .checking | .pending => x.key.isSome
  | _ => x.key = none

/-- Occupied keys and registered waiters correspond one to one. -/
structure Owned (w : WaitSet) : Prop where
  held : ∀ (i : ℕ) (x : Waiter) (k : ℕ), w.waiters[i]? = some x → x.key = some k →
    ∃ e, w.slab.get k = some e ∧ Fits i x e
  unique : ∀ (i j : ℕ) (x y : Waiter) (k : ℕ), w.waiters[i]? = some x → w.waiters[j]? = some y →
    x.key = some k → y.key = some k → i = j
  owner : ∀ (k : ℕ) (e : Option Ticket), w.slab.get k = some e →
    ∃ (i : ℕ) (x : Waiter), w.waiters[i]? = some x ∧ x.key = some k
  keyed : ∀ (i : ℕ) (x : Waiter), w.waiters[i]? = some x → Keyed x

theorem owned_empty : Owned ⟨.empty, []⟩ := by
  constructor <;> simp

theorem Owned.update {w : WaitSet} (h : Owned w) {i : ℕ} {x y : Waiter}
    (hx : w.waiters[i]? = some x) (hkey : y.key = x.key)
    (hfits : ∀ k e, x.key = some k → Fits i x e → Fits i y e) (hy : Keyed y) :
    Owned (w.update i y) := by
  have hget := getElem?_set_some hx y
  constructor
  · intro j z k hz hk
    simp only [WaitSet.update, hget] at hz ⊢
    split at hz
    next hj =>
      obtain rfl := Option.some.inj hz
      rw [hkey] at hk
      obtain ⟨e, he, hf⟩ := h.held i x k hx hk
      exact ⟨e, he, hj ▸ hfits k e hk hf⟩
    next => exact h.held j z k hz hk
  · have hold : ∀ (j : ℕ) (z : Waiter), (w.waiters.set i y)[j]? = some z →
        ∃ z' : Waiter, w.waiters[j]? = some z' ∧ z.key = z'.key := by
      intro j z hz
      rw [hget] at hz
      split at hz
      next hj => subst j; obtain rfl := Option.some.inj hz; exact ⟨x, hx, hkey⟩
      next => exact ⟨z, hz, rfl⟩
    intro j l z u k hz hu hzk huk
    obtain ⟨z', hz', hkz⟩ := hold j z hz
    obtain ⟨u', hu', hku⟩ := hold l u hu
    exact h.unique j l z' u' k hz' hu' (hkz ▸ hzk) (hku ▸ huk)
  · intro k e he
    obtain ⟨j, z, hz, hk⟩ := h.owner k e he
    by_cases hj : j = i
    · subst j
      obtain rfl := Option.some.inj (hx.symm.trans hz)
      exact ⟨i, y, by simp [WaitSet.update, hget], hkey ▸ hk⟩
    · exact ⟨j, z, by simpa [WaitSet.update, hget, hj] using hz, hk⟩
  · intro j z hz
    simp only [WaitSet.update, hget] at hz
    split at hz
    next => obtain rfl := Option.some.inj hz; exact hy
    next => exact h.keyed j z hz

theorem Owned.release {w : WaitSet} (h : Owned w) {i k : ℕ} {x : Waiter} {slab : Slab (Option Ticket)}
    (hx : w.waiters[i]? = some x) (hk : x.key = some k) (hr : w.slab.remove k = some slab) :
    Owned ⟨slab, w.waiters.set i { x with stage := .trying, key := none }⟩ := by
  obtain ⟨-, rfl⟩ := Slab.remove_eq_some.mp hr
  have hget := getElem?_set_some hx { x with stage := .trying, key := none }
  have hother : ∀ (j : ℕ) (z : Waiter) (l : ℕ), j ≠ i → w.waiters[j]? = some z → z.key = some l → l ≠ k := by
    rintro j z l hj hz hl rfl
    exact hj (h.unique j i z x l hz hx hl hk)
  constructor
  · intro j z l hz hl
    simp only [hget] at hz
    split at hz
    next => obtain rfl := Option.some.inj hz; simp at hl
    next hj =>
      obtain ⟨e, he, hf⟩ := h.held j z l hz hl
      exact ⟨e, by rwa [Slab.get_put_ne _ _ (hother j z l hj hz hl)], hf⟩
  · intro j l z u m hz hu hzm hum
    simp only [hget] at hz hu
    split at hz
    next => obtain rfl := Option.some.inj hz; simp at hzm
    next =>
      split at hu
      next => obtain rfl := Option.some.inj hu; simp at hum
      next => exact h.unique j l z u m hz hu hzm hum
  · intro l e he
    rw [Slab.get_put] at he
    split at he
    next => simp at he
    next hl =>
      obtain ⟨j, z, hz, hkz⟩ := h.owner l e he
      have hj : j ≠ i := by
        rintro rfl
        obtain rfl := Option.some.inj (hx.symm.trans hz)
        exact hl (Option.some.inj (hkz.symm.trans hk))
      exact ⟨j, z, by simpa [hget, hj] using hz, hkz⟩
  · intro j z hz
    simp only [hget] at hz
    split at hz
    next => obtain rfl := Option.some.inj hz; rfl
    next => exact h.keyed j z hz

theorem Owned.register {w : WaitSet} (h : Owned w) {i k : ℕ} {x : Waiter}
    {slab : Slab (Option Ticket)} (hx : w.waiters[i]? = some x) (hs : x.stage = .inserting)
    (hr : w.slab.insert k (some ⟨i, x.polls⟩) = some slab) :
    Owned ⟨slab, w.waiters.set i { x with stage := .checking, key := some k }⟩ := by
  obtain ⟨hvacant, rfl⟩ := Slab.insert_eq_some.mp hr
  have hget := getElem?_set_some hx { x with stage := .checking, key := some k }
  have hkey : x.key = none := by simpa [Keyed, hs] using h.keyed i x hx
  have hne : ∀ (j : ℕ) (z : Waiter) (l : ℕ), w.waiters[j]? = some z → z.key = some l → l ≠ k := by
    rintro j z l hz hl rfl
    obtain ⟨e, he, -⟩ := h.held j z l hz hl
    simp [hvacant] at he
  constructor
  · intro j z l hz hl
    simp only [hget] at hz
    split at hz
    next hj =>
      obtain rfl := Option.some.inj hz
      obtain rfl := Option.some.inj hl
      exact ⟨_, Slab.get_put_self _ _ _, hj.symm, .inl rfl⟩
    next =>
      obtain ⟨e, he, hf⟩ := h.held j z l hz hl
      exact ⟨e, by rwa [Slab.get_put_ne _ _ (hne j z l hz hl)], hf⟩
  · intro j l z u m hz hu hzm hum
    simp only [hget] at hz hu
    split at hz <;> split at hu
    next hj hl => exact hj.trans hl.symm
    next =>
      obtain rfl := Option.some.inj hz
      exact absurd (Option.some.inj hzm).symm (hne l u m hu hum)
    next =>
      obtain rfl := Option.some.inj hu
      exact absurd (Option.some.inj hum).symm (hne j z m hz hzm)
    next => exact h.unique j l z u m hz hu hzm hum
  · intro l e he
    rw [Slab.get_put] at he
    split at he
    next hl => subst l; exact ⟨i, _, by rw [hget, if_pos rfl], rfl⟩
    next =>
      obtain ⟨j, z, hz, hkz⟩ := h.owner l e he
      have hj : j ≠ i := by
        rintro rfl
        obtain rfl := Option.some.inj (hx.symm.trans hz)
        simp [hkey] at hkz
      exact ⟨j, z, by simpa [hget, hj] using hz, hkz⟩
  · intro j z hz
    simp only [hget] at hz
    split at hz
    next => obtain rfl := Option.some.inj hz; rfl
    next => exact h.keyed j z hz

theorem Owned.join {w : WaitSet} (h : Owned w) : Owned { w with waiters := w.waiters ++ [.fresh] } := by
  have hold : ∀ (j : ℕ) (z : Waiter), (w.waiters ++ [Waiter.fresh])[j]? = some z →
      w.waiters[j]? = some z ∨ z = .fresh := by
    intro j z hz
    rw [List.getElem?_append] at hz
    split at hz
    next => exact .inl hz
    next => exact .inr (List.mem_singleton.mp (List.mem_of_getElem? hz))
  have hnew : Waiter.fresh.key = none := rfl
  constructor
  · intro j z k hz hk
    rcases hold j z hz with hz | rfl
    · exact h.held j z k hz hk
    · simp [hnew] at hk
  · intro j l z u k hz hu hzk huk
    rcases hold j z hz with hz | rfl
    · rcases hold l u hu with hu | rfl
      · exact h.unique j l z u k hz hu hzk huk
      · simp [hnew] at huk
    · simp [hnew] at hzk
  · intro k e he
    obtain ⟨j, z, hz, hk⟩ := h.owner k e he
    have hl := (List.getElem?_eq_some_iff.mp hz).1
    exact ⟨j, z, by simpa [List.getElem?_append_left hl] using hz, hk⟩
  · intro j z hz
    rcases hold j z hz with hz | rfl
    · exact h.keyed j z hz
    · rfl

theorem wake_get (ws : List Waiter) (t : Ticket) (j : ℕ) : (wake ws (some t))[j]? =
    if j = t.waiter then ws[j]?.map (fun x => { x with woken := true }) else ws[j]? := by
  simp only [wake, List.getElem?_modify, eq_comm (a := t.waiter)]
  split <;> simp

theorem Owned.notify {w : WaitSet} (h : Owned w) :
    Owned ⟨w.slab.takeFirst.1, wake w.waiters w.slab.takeFirst.2⟩ := by
  obtain ⟨he, -⟩ | ⟨k, t, hk, he⟩ := w.slab.takeFirst_cases
  · rw [he]; exact h
  rw [he]
  have hold : ∀ (j : ℕ) (z : Waiter), (wake w.waiters (some t))[j]? = some z → ∃ y : Waiter, w.waiters[j]? = some y ∧
      z.key = y.key ∧ z.stage = y.stage ∧ z.polls = y.polls ∧ (y.woken = true → z.woken = true) ∧
      (j = t.waiter → z.woken = true) := by
    intro j z hz
    rw [wake_get] at hz
    split at hz
    next =>
      obtain ⟨y, hy, rfl⟩ := Option.map_eq_some_iff.mp hz
      exact ⟨y, hy, rfl, rfl, rfl, fun _ => rfl, fun _ => rfl⟩
    next hj => exact ⟨z, hz, rfl, rfl, rfl, id, fun h => absurd h hj⟩
  constructor
  · intro j z l hz hl
    obtain ⟨y, hy, hkey, hst, hp, hwk, hj⟩ := hold j z hz
    rw [hkey] at hl
    obtain ⟨e, hge, hf⟩ := h.held j y l hy hl
    by_cases hlk : l = k
    · subst l
      obtain rfl := Option.some.inj (hk.symm.trans hge)
      exact ⟨none, by simp, .inl (hj hf.1.symm)⟩
    · refine ⟨e, by rwa [Slab.get_put_ne _ _ hlk], ?_⟩
      cases e with
      | none => exact hf.imp hwk (hst ▸ ·)
      | some u => exact ⟨hf.1, hp ▸ hst ▸ hf.2⟩
  · intro j l z u m hz hu hzm hum
    obtain ⟨y, hy, hkey, -⟩ := hold j z hz
    obtain ⟨v, hv, hkey', -⟩ := hold l u hu
    exact h.unique j l y v m hy hv (hkey ▸ hzm) (hkey' ▸ hum)
  · intro l e hge
    obtain ⟨e', hge'⟩ : ∃ e', w.slab.get l = some e' := by
      rw [Slab.get_put] at hge
      split at hge
      next hl => exact ⟨_, hl ▸ hk⟩
      next => exact ⟨e, hge⟩
    obtain ⟨j, y, hy, hkey⟩ := h.owner l e' hge'
    by_cases hj : j = t.waiter
    · exact ⟨j, { y with woken := true }, by simp [wake_get, hj ▸ hy, hj], hkey⟩
    · exact ⟨j, y, by simp [wake_get, hj, hy], hkey⟩
  · intro j z hz
    obtain ⟨y, hy, hkey, hst, -⟩ := hold j z hz
    have := h.keyed j y hy
    simpa only [Keyed, hkey, hst] using this

theorem Step.owned {w w' : WaitSet} {m : Move} (hw : Step w m w') (h : Owned w) : Owned w' := by
  cases hw with
  | join => exact h.join
  | poll hx hs hd =>
    refine h.update hx rfl ?_ trivial
    rintro k (_ | t) - hf
    · exact .inr rfl
    · exact ⟨hf.1, .inr rfl⟩
  | release hx hs hk hr => exact h.release hx hk hr
  | @advance i x st hx ha =>
    have hkeyed := h.keyed i x hx
    generalize hs : x.stage = s at ha
    simp only [Keyed, hs] at hkeyed
    cases ha with
    | begin hk => exact h.update hx rfl (by simp [hk]) hk
    | take => exact h.update hx rfl (by simp [hkeyed]) hkeyed
    | miss => exact h.update hx rfl (by simp [hkeyed]) hkeyed
    | sleep => exact h.update hx rfl (by rintro k (_ | t) - hf <;> simpa [Fits, hs] using hf) hkeyed
    | retry =>
      refine h.update hx rfl ?_ trivial
      rintro k (_ | t) - hf
      · exact .inr rfl
      · exact ⟨hf.1, .inr rfl⟩
    | finish => exact h.update hx rfl (by simp [hkeyed]) hkeyed
  | register hx hs hd hr => exact h.register hx hs hr
  | @drop i x hx hs =>
    have hkeyed := h.keyed i x hx
    exact h.update hx rfl (fun _ e _ hf => by cases e <;> exact hf) hkeyed
  | notify => exact h.notify

end WaitSet

end ChannelExecutor.Lib
