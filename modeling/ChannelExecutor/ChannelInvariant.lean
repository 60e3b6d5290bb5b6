import ChannelExecutor.ChannelSides

set_option autoImplicit false

namespace ChannelExecutor.ChannelSystem

open Lib Lib.WaitSet

variable {α : Type}

section Turns

variable {s t : State α} {a : Act α}

theorem Does.recvTurn (h : Does s a t) (hi : Inv s) :
    ∃ c, Turn (recvSide s) (messages s.chan.inner) (sendDebts s) c (recvSide t)
        (messages t.chan.inner) (sendDebts t) ∧
      recvNotified s a = c.woken (recvSide s) ∧
      (∀ j, c = .move (.drop j) → a = .dropRecv j) ∧
      (c = .gift → ∃ handle msg, a = .trySend handle msg) := by
  have same : ∀ {t : State α}, recvNotified s a = [] → recvSide t = recvSide s →
      messages t.chan.inner ≤ messages s.chan.inner → sendDebts t = sendDebts s →
      ∃ c, Turn (recvSide s) (messages s.chan.inner) (sendDebts s) c (recvSide t)
        (messages t.chan.inner) (sendDebts t) ∧
      recvNotified s a = c.woken (recvSide s) ∧
      (∀ j, c = .move (.drop j) → a = .dropRecv j) ∧
      (c = .gift → ∃ handle msg, a = .trySend handle msg) := fun hn hs hm hd =>
    ⟨.steal, hs ▸ .steal hm hd, hn, by simp, by simp⟩
  cases h with
  | send hh =>
    refine same rfl rfl (Int.le_refl _) ?_
    simp [sendDebts, sendNotifying, Driven.new, SendFuture.new, Point.stage]
  | recv hh =>
    refine ⟨.move .join, .move ?_ ⟨rfl, rfl⟩, rfl, by simp, by simp⟩
    rw [recvSide_join]
    exact .join
  | @pollSend i d hd hl hp =>
    refine same rfl rfl (Int.le_refl _) ?_
    have hc := countP_set_some hd sendNotifying
      { d with fut := { d.fut with point := .start }, polls := d.polls + 1, woken := false }
    rcases hp with hp | hp <;> simpa [sendNotifying, hp, Point.stage, sendDebts, State.putSend] using hc
  | @pollRecv i d hd hl hp =>
    refine ⟨.move (.poll i), .move ?_ ⟨rfl, rfl⟩, rfl, by simp, by simp⟩
    rw [recvSide_put]
    exact .poll (recvSide_get hd) (by rcases hp with hp | hp <;> simp [recvWaiter, hp, Point.stage]) hl
  | @stepSend i key d ch f e hd hl hf =>
    obtain ⟨c, hdrop, hgift, hwoken, ht⟩ := sendFuture_turn key hd hl hf
    refine ⟨c, ?_, hwoken, fun j hj => absurd hj (hdrop j), fun hg => absurd hg hgift⟩
    simpa [sendDebts, State.putSend] using ht
  | @stepRecv i key d ch f e hd hl hf =>
    obtain ⟨-, m, ⟨hnotify, hdrop⟩, hm, hs⟩ := recvFuture_move hi hd hl hf
    refine ⟨.move m, .move ?_ ?_, (Move.woken_quiet hnotify _).symm, fun j hj => absurd (Cause.move.inj hj) (hdrop j), by simp⟩
    · simpa [recvSide, State.putRecv, afterRecv_chan, List.map_set] using hm
    · rw [sendDebts_afterRecv, afterRecv_chan]
      exact hs
  | @dropSend i d hd hl hp =>
    refine same rfl rfl (Int.le_refl _) ?_
    have hc := countP_set_some hd sendNotifying { d with dropped := true }
    simpa [sendNotifying, sendDebts, State.putSend] using hc
  | @dropRecv i d hd hl hp =>
    refine ⟨.move (.drop i), .move ?_ ⟨rfl, rfl⟩, rfl, by simp, by simp⟩
    rw [recvSide_put]
    exact .drop (recvSide_get hd) hp
  | trySendOk hh hfull hq hcap hc =>
    exact ⟨.gift, .gift (messages_push hq) rfl, rfl, by simp, fun _ => ⟨_, _, rfl⟩⟩
  | tryRecvOk hh hq hcap hc =>
    refine same rfl rfl ?_ rfl
    simp only [messages_pop hq]
    omega
  | _ => exact same rfl rfl (Int.le_refl _) rfl

theorem Does.sendTurn (h : Does s a t) (hi : Inv s) :
    ∃ c, Turn (sendSide s) (freeSlots s.chan.inner) (recvDebts s) c (sendSide t)
        (freeSlots t.chan.inner) (recvDebts t) ∧
      sendNotified s a = c.woken (sendSide s) ∧
      (∀ j, c = .move (.drop j) → a = .dropSend j) ∧
      (c = .gift → ∃ handle msg rest, a = .tryRecv handle ∧ s.chan.inner.queue = msg :: rest) := by
  have same : ∀ {t : State α}, sendNotified s a = [] → sendSide t = sendSide s →
      freeSlots t.chan.inner ≤ freeSlots s.chan.inner → recvDebts t = recvDebts s →
      ∃ c, Turn (sendSide s) (freeSlots s.chan.inner) (recvDebts s) c (sendSide t)
        (freeSlots t.chan.inner) (recvDebts t) ∧
      sendNotified s a = c.woken (sendSide s) ∧
      (∀ j, c = .move (.drop j) → a = .dropSend j) ∧
      (c = .gift → ∃ handle msg rest, a = .tryRecv handle ∧ s.chan.inner.queue = msg :: rest) :=
    fun hn hs hm hd => ⟨.steal, hs ▸ .steal hm hd, hn, by simp, by simp⟩
  cases h with
  | send hh =>
    refine ⟨.move .join, .move ?_ ⟨rfl, rfl⟩, rfl, by simp, by simp⟩
    rw [sendSide_join]
    exact .join
  | recv hh =>
    refine same rfl rfl (Int.le_refl _) ?_
    simp [recvDebts, recvNotifying, Driven.new, RecvFuture.new, Point.stage]
  | @pollSend i d hd hl hp =>
    refine ⟨.move (.poll i), .move ?_ ⟨rfl, rfl⟩, rfl, by simp, by simp⟩
    rw [sendSide_put]
    exact .poll (sendSide_get hd) (by rcases hp with hp | hp <;> simp [sendWaiter, hp, Point.stage]) hl
  | @pollRecv i d hd hl hp =>
    refine same rfl rfl (Int.le_refl _) ?_
    have hc := countP_set_some hd recvNotifying
      { d with fut := { d.fut with point := .start }, polls := d.polls + 1, woken := false }
    rcases hp with hp | hp <;> simpa [recvNotifying, hp, Point.stage, recvDebts, State.putRecv] using hc
  | @stepSend i key d ch f e hd hl hf =>
    obtain ⟨-, m, ⟨hnotify, hdrop⟩, hm, hs⟩ := sendFuture_move hi hd hl hf
    refine ⟨.move m, .move ?_ ?_, (Move.woken_quiet hnotify _).symm, fun j hj => absurd (Cause.move.inj hj) (hdrop j), by simp⟩
    · simpa [sendSide, State.putSend, afterSend_chan, List.map_set] using hm
    · rw [recvDebts_afterSend, afterSend_chan]
      exact hs
  | @stepRecv i key d ch f e hd hl hf =>
    obtain ⟨c, hdrop, hgift, hwoken, ht⟩ := recvFuture_turn key hd hl hf
    refine ⟨c, ?_, hwoken, fun j hj => absurd hj (hdrop j), fun hg => absurd hg hgift⟩
    simpa [recvDebts, State.putRecv] using ht
  | @dropSend i d hd hl hp =>
    refine ⟨.move (.drop i), .move ?_ ⟨rfl, rfl⟩, rfl, by simp, by simp⟩
    rw [sendSide_put]
    exact .drop (sendSide_get hd) hp
  | @dropRecv i d hd hl hp =>
    refine same rfl rfl (Int.le_refl _) ?_
    have hc := countP_set_some hd recvNotifying { d with dropped := true }
    simpa [recvNotifying, recvDebts, State.putRecv] using hc
  | trySendOk hh hfull hq hcap hc =>
    refine same rfl rfl ?_ rfl
    simp only [freeSlots_push hq hcap]
    omega
  | tryRecvOk hh hq hcap hc =>
    exact ⟨.gift, .gift (freeSlots_pop hq hcap) rfl, rfl, by simp, fun _ => ⟨_, _, _, rfl, hq⟩⟩
  | _ => exact same rfl rfl (Int.le_refl _) rfl

theorem Does.cap (h : Does s a t) (hi : Inv s) : t.chan.inner.cap = s.chan.inner.cap := by
  cases h with
  | stepSend hd hl hf => simpa [State.putSend] using (sendFuture_connected hf hi.connected).2
  | stepRecv hd hl hf => simpa [State.putRecv] using (recvFuture_connected hf hi.connected).2
  | trySendOk hh hfull hq hcap hc => exact hcap
  | tryRecvOk hh hq hcap hc => exact hcap
  | _ => rfl

theorem Does.connected (h : Does s a t) (hi : Inv s) : t.chan.inner.Connected := by
  cases h with
  | stepSend hd hl hf => simpa [State.putSend] using (sendFuture_connected hf hi.connected).1
  | stepRecv hd hl hf => simpa [State.putRecv] using (recvFuture_connected hf hi.connected).1
  | trySendOk hh hfull hq hcap hc => exact hc
  | tryRecvOk hh hq hcap hc => exact hc
  | _ => exact hi.connected

theorem Does.loaded (h : Does s a t) (hi : Inv s) : ∀ d ∈ t.sends, Loaded d.fut := by
  have of_set : ∀ {i : ℕ} {x d : Driven (SendFuture α)}, Loaded x.fut → d ∈ s.sends.set i x →
      Loaded d.fut := by
    intro i x d hx hd
    rcases List.mem_or_eq_of_mem_set hd with hd | rfl
    · exact hi.loaded d hd
    · exact hx
  intro d hd
  cases h with
  | send hh =>
    rcases List.mem_append.mp hd with hd | hd
    · exact hi.loaded d hd
    · rw [List.mem_singleton.mp hd]; rfl
  | @pollSend i x hx hl hp =>
    have := hi.loaded x (List.mem_of_getElem? hx)
    refine of_set ?_ hd
    rcases hp with hp | hp <;> simpa [Loaded, hp] using this
  | stepSend hx hl hf =>
    exact of_set (sendFuture_move hi hx hl hf).1 (by simpa [State.putSend] using hd)
  | stepRecv hx hl hf =>
    obtain ⟨d', hd', hfut, -⟩ := mem_afterRecv_sends hd
    exact hfut ▸ hi.loaded d' hd'
  | @dropSend i x hx hl hp =>
    refine of_set ?_ hd
    exact hi.loaded x (List.mem_of_getElem? hx)
  | _ => exact hi.loaded d hd

theorem Does.unharmed (h : Does s a t) (hi : Inv s) :
    ∀ d ∈ t.recvs, d.fut.point.stage ≠ .panicked := by
  have of_set : ∀ {i : ℕ} {x d : Driven (RecvFuture α)}, x.fut.point.stage ≠ .panicked →
      d ∈ s.recvs.set i x → d.fut.point.stage ≠ .panicked := by
    intro i x d hx hd
    rcases List.mem_or_eq_of_mem_set hd with hd | rfl
    · exact hi.unharmed d hd
    · exact hx
  intro d hd
  cases h with
  | recv hh =>
    rcases List.mem_append.mp hd with hd | hd
    · exact hi.unharmed d hd
    · rw [List.mem_singleton.mp hd]; simp [Driven.new, RecvFuture.new, Point.stage]
  | pollRecv hx hl hp => exact of_set (by simp [Point.stage]) hd
  | stepRecv hx hl hf =>
    exact of_set (recvFuture_move hi hx hl hf).1 (by simpa [State.putRecv] using hd)
  | stepSend hx hl hf =>
    obtain ⟨d', hd', hfut, -⟩ := mem_afterSend_recvs hd
    exact hfut ▸ hi.unharmed d' hd'
  | @dropRecv i x hx hl hp =>
    refine of_set ?_ hd
    exact hi.unharmed x (List.mem_of_getElem? hx)
  | _ => exact hi.unharmed d hd

theorem Does.recvFuts (h : Does s a t) :
    recvFuts t = recvFuts s ∨
    (∃ handle, a = .recv handle ∧ recvFuts t = recvFuts s ++ [.new]) ∨
    (∃ i f, a = .pollRecv i ∧ (recvFuts s)[i]? = some f ∧
      (f.point = .fresh ∨ f.point = .pending) ∧
      recvFuts t = (recvFuts s).set i { f with point := .start }) ∨
    (∃ i key d ch f e, a = .stepRecv i key ∧ s.recvs[i]? = some d ∧ d.dropped = false ∧
      d.fut.Does s.chan ⟨i, d.polls⟩ ch f e ∧ recvFuts t = (recvFuts s).set i f) := by
  cases h with
  | @recv handle hh => exact .inr (.inl ⟨handle, rfl, by simp [ChannelSystem.recvFuts, Driven.new]⟩)
  | @pollRecv i d hd hl hp =>
    refine .inr (.inr (.inl ⟨i, d.fut, rfl, by simp [ChannelSystem.recvFuts, hd], hp, ?_⟩))
    simp [ChannelSystem.recvFuts, State.putRecv, List.map_set]
  | @stepRecv i key d ch f e hd hl hf =>
    refine .inr (.inr (.inr ⟨i, key, d, ch, f, e, rfl, hd, hl, hf, ?_⟩))
    simp [ChannelSystem.recvFuts, State.putRecv, List.map_set]
  | stepSend hd hl hf => exact .inl (recvFuts_afterSend _ _ _)
  | dropRecv hd hl hp => exact .inl (set_futs hd rfl)
  | _ => exact .inl rfl

theorem Does.inv (h : Does s a t) (hi : Inv s) : Inv t := by
  obtain ⟨c, hc, -⟩ := h.sendTurn hi
  obtain ⟨c', hc', -⟩ := h.recvTurn hi
  exact ⟨h.connected hi, h.loaded hi, h.unharmed hi, hc.owned hi.sendOwned, hc'.owned hi.recvOwned⟩

end Turns

theorem inv_start (cap : Option ℕ) : Inv (start (channel cap) : State α) := by
  cases cap <;> exact ⟨⟨Nat.one_pos, Nat.one_pos⟩, by simp [start], by simp [start],
    owned_empty, owned_empty⟩

theorem step_inv {s t : State α} {a : Act α} (hi : Inv s) (h : step s a = some t) : Inv t :=
  (step_does hi.connected h).inv hi

theorem reaches_inv {cap : Option ℕ} {ok : State α → Act α → Prop} {s : State α}
    (h : (system cap).ReachableBy ok s) : Inv s ∧ s.chan.inner.cap = cap := by
  refine h.invariant (I := fun s => Inv s ∧ s.chan.inner.cap = cap) ⟨inv_start cap, ?_⟩ ?_
  · cases cap <;> rfl
  · rintro s a t ⟨hi, hcap⟩ - hstep
    exact ⟨step_inv hi hstep, ((step_does hi.connected hstep).cap hi).trans hcap⟩

end ChannelExecutor.ChannelSystem
