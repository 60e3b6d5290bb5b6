import ChannelExecutor.Lib.WakeLedger

set_option autoImplicit false

namespace ChannelExecutor.Lib.WaitSet

def Move.woken (w : WaitSet) : Move → List Ticket
  | .notify => w.slab.takeFirst.2.toList
  | _ => []

theorem Move.woken_quiet {m : Move} (h : m ≠ .notify) (w : WaitSet) : m.woken w = [] := by
  cases m with
  | notify => exact absurd rfl h
  | _ => rfl

def Cause.woken (w : WaitSet) : Cause → List Ticket
  | .move m => m.woken w
  | _ => []

def Holds (slab : Slab (Option Ticket)) (record : List Ticket) (i p k : ℕ) : Prop :=
  slab.get k = some (some ⟨i, p⟩) ∨ slab.get k = some none ∧ ⟨i, p⟩ ∈ record

/-- The poll a waiter is registered for: the one it is in or was last in, or the poll before while
it has only just entered one. -/
def LastPoll (x : Waiter) (p : ℕ) : Prop := p = x.polls ∨ x.stage = .start ∧ p + 1 = x.polls

def Recorded (w : WaitSet) (record : List Ticket) : Prop :=
  ∀ (i : ℕ) (x : Waiter) (k : ℕ), w.waiters[i]? = some x → x.key = some k →
    ∃ p, LastPoll x p ∧ Holds w.slab record i p k

variable {w w' : WaitSet} {record : List Ticket}

theorem Holds.mono {slab slab' : Slab (Option Ticket)} {i p k : ℕ} (h : Holds slab record i p k)
    (hs : slab'.get k = slab.get k) (more : List Ticket) : Holds slab' (record ++ more) i p k := by
  rcases h with h | ⟨h, hmem⟩
  · exact .inl (hs.trans h)
  · exact .inr ⟨hs.trans h, List.mem_append_left _ hmem⟩

theorem Recorded.set (h : Recorded w record) {i : ℕ} {x y : Waiter} {slab : Slab (Option Ticket)}
    (hx : w.waiters[i]? = some x)
    (hothers : ∀ (j : ℕ) (z : Waiter) (l : ℕ), j ≠ i → w.waiters[j]? = some z → z.key = some l →
      slab.get l = w.slab.get l)
    (hy : ∀ k, y.key = some k → ∃ p, LastPoll y p ∧ Holds slab record i p k) :
    Recorded ⟨slab, w.waiters.set i y⟩ record := by
  intro j z l hz hl
  rw [getElem?_set_some hx] at hz
  split at hz
  next hj =>
    subst j
    obtain rfl := Option.some.inj hz
    exact hy l hl
  next hj =>
    obtain ⟨p, hp, hcell⟩ := h j z l hz hl
    exact ⟨p, hp, by simpa using hcell.mono (hothers j z l hj hz hl) []⟩

theorem Recorded.update (h : Recorded w record) {i : ℕ} {x y : Waiter}
    (hx : w.waiters[i]? = some x) (hkey : y.key = x.key)
    (hpoll : ∀ p, x.key ≠ none → LastPoll x p → LastPoll y p) : Recorded (w.update i y) record := by
  refine h.set hx (fun _ _ _ _ _ _ => rfl) ?_
  intro k hk
  rw [hkey] at hk
  obtain ⟨p, hp, hcell⟩ := h i x k hx hk
  exact ⟨p, hpoll p (by simp [hk]) hp, hcell⟩

theorem Recorded.notify (h : Recorded w record) :
    Recorded ⟨w.slab.takeFirst.1, wake w.waiters w.slab.takeFirst.2⟩
      (record ++ w.slab.takeFirst.2.toList) := by
  obtain ⟨he, -⟩ | ⟨k, t, hk, he⟩ := w.slab.takeFirst_cases
  · simpa [he, wake] using h
  · rw [he]
    intro j z l hz hl
    obtain ⟨y, hy, hkey, hstage, hpolls⟩ : ∃ y, w.waiters[j]? = some y ∧ z.key = y.key ∧
        z.stage = y.stage ∧ z.polls = y.polls := by
      rw [wake_get] at hz
      split at hz
      next =>
        obtain ⟨y, hy, rfl⟩ := Option.map_eq_some_iff.mp hz
        exact ⟨y, hy, rfl, rfl, rfl⟩
      next => exact ⟨z, hz, rfl, rfl, rfl⟩
    obtain ⟨p, hp, hcell⟩ := h j y l hy (hkey ▸ hl)
    refine ⟨p, by simpa [LastPoll, hstage, hpolls] using hp, ?_⟩
    by_cases hlk : l = k
    · -- the cell that the notify empties
      subst l
      rcases hcell with hcell | ⟨hcell, -⟩
      · obtain rfl : t = ⟨j, p⟩ := by simpa [hk] using hcell
        exact .inr ⟨Slab.get_put_self _ _ _, by simp⟩
      · simp [hk] at hcell
    · exact hcell.mono (Slab.get_put_ne _ _ hlk) _

theorem Step.recorded {m : Move} (hw : Step w m w') (ho : Owned w) (h : Recorded w record) :
    Recorded w' (record ++ m.woken w) := by
  cases hw with
  | join =>
    intro j z k hz hk
    rw [List.getElem?_append] at hz
    split at hz
    next => simpa [Move.woken] using h j z k hz hk
    next =>
      obtain rfl := List.mem_singleton.mp (List.mem_of_getElem? hz)
      cases hk
  | @poll i x hx hs hd =>
    simp only [Move.woken, List.append_nil]
    refine h.update hx rfl ?_
    rintro p - hp
    rcases hp with rfl | ⟨hstart, -⟩
    · exact .inr ⟨rfl, rfl⟩
    · simp [hstart] at hs
  | @release i x k slab hx hs hk hr =>
    obtain ⟨-, rfl⟩ := Slab.remove_eq_some.mp hr
    simp only [Move.woken, List.append_nil]
    apply h.set hx
    · intro j z l hj hz hl
      apply Slab.get_put_ne
      rintro rfl
      exact hj (ho.unique j i z x l hz hx hl hk)
    · simp
  | @advance i x st hx ha =>
    simp only [Move.woken, List.append_nil]
    refine h.update hx rfl ?_
    intro p hkey hp
    rcases hp with rfl | ⟨hstart, -⟩
    · exact .inl rfl
    · -- a waiter that enters a poll goes on only without a key
      rw [hstart] at ha
      cases ha with
      | begin hnone => exact absurd hnone hkey
  | @register i x k slab hx hs hd hr =>
    obtain ⟨hvacant, rfl⟩ := Slab.insert_eq_some.mp hr
    simp only [Move.woken, List.append_nil]
    apply h.set hx
    · intro j z l _ hz hl
      apply Slab.get_put_ne
      rintro rfl
      obtain ⟨e, he, -⟩ := ho.held j z l hz hl
      simp [hvacant] at he
    · rintro l hl
      obtain rfl := Option.some.inj hl
      exact ⟨x.polls, .inl rfl, .inl (Slab.get_put_self _ _ _)⟩
  | @drop i x hx hs =>
    simp only [Move.woken, List.append_nil]
    refine h.update hx rfl ?_
    exact fun _ _ hp => hp
  | notify => exact Recorded.notify h

theorem Turn.recorded {T T' : ℤ} {D D' : ℕ} {c : Cause} (ht : Turn w T D c w' T' D') (ho : Owned w)
    (h : Recorded w record) : Recorded w' (record ++ c.woken w) := by
  cases ht with
  | move hw hs => exact hw.recorded ho h
  | supply hT hD => simpa [Cause.woken] using h
  | steal hT hD => simpa [Cause.woken] using h
  | gift hT hD => simpa [Cause.woken] using h

theorem Owned.removes (h : Owned w) {i k : ℕ} {x : Waiter} (hx : w.waiters[i]? = some x)
    (hk : x.key = some k) : ∃ slab, w.slab.remove k = some slab ∧
      ∀ (j : ℕ) (y : Waiter) (l : ℕ), j ≠ i → w.waiters[j]? = some y → y.key = some l →
        slab.get l = w.slab.get l := by
  obtain ⟨e, he, -⟩ := h.held i x k hx hk
  refine ⟨_, Slab.remove_eq_some.mpr ⟨by simp [he], rfl⟩, ?_⟩
  intro j y l hj hy hl
  apply Slab.get_put_ne
  rintro rfl
  exact hj (h.unique j i y x l hy hx hl hk)

end ChannelExecutor.Lib.WaitSet
