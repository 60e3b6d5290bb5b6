import ChannelExecutor.ChannelUse
import ChannelExecutor.PollLoops

set_option autoImplicit false

namespace ChannelExecutor.ChannelSystem

open Lib

variable {α : Type} {s t : State α} {i n : ℕ}

/-- The steps that an awaited future and its task still make as long as no message moves and nobody wakes
it. Once its own message has moved, they include what the notify adds to the burdens of `n` tasks. -/
def burden (n : ℕ) (blocked woken : Bool) : Stage → ℕ
  | .fresh => 5
  | .notifying => 8 * n + 16 + 5 * woken.toNat
  | .ready => 15
  | st => effort blocked st + 5 * woken.toNat

def price (n : ℕ) : ℕ := 16 * n + 15

def sendBurden (n : ℕ) (s : State α) (i : ℕ) : ℕ :=
  (s.sends[i]?.map fun d => burden n s.chan.inner.isFull d.woken d.fut.point.stage).getD 0

def recvBurden (n : ℕ) (s : State α) (i : ℕ) : ℕ :=
  (s.recvs[i]?.map fun d => burden n s.chan.inner.isEmpty d.woken d.fut.point.stage).getD 0

def sendAsleep (s : State α) (i : ℕ) : Bool :=
  s.sends[i]?.any fun d => d.fut.point.stage = .pending && !d.woken

def recvAsleep (s : State α) (i : ℕ) : Bool :=
  s.recvs[i]?.any fun d => d.fut.point.stage = .pending && !d.woken

structure Still (s t : State α) (o r : Option ℕ) : Prop where
  inner : t.chan.inner = s.chan.inner
  sends : ∀ j, o ≠ some j → t.sends[j]? = s.sends[j]?
  recvs : ∀ j, r ≠ some j → t.recvs[j]? = s.recvs[j]?
  moved : moved t = moved s

theorem burden_le (blocked woken blocked' woken' : Bool) (st : Stage) :
    burden n blocked woken st ≤ burden n blocked' woken' st + 8 := by
  cases st <;> cases blocked <;> cases woken <;> cases blocked' <;> cases woken' <;>
    simp [burden, effort]

def plain : Stage → Bool
  | .fresh | .notifying | .ready => false
  | _ => true

theorem effort_start_le (blocked : Bool) : effort blocked .start ≤ 4 := by cases blocked <;> decide

theorem burden_plain {blocked woken : Bool} {st : Stage} (h : plain st = true) :
    burden n blocked woken st = effort blocked st + 5 * woken.toNat := by
  cases st <;> first | rfl | cases h

theorem sendBurden_some {d : Driven (SendFuture α)} (hd : s.sends[i]? = some d) :
    sendBurden n s i = burden n s.chan.inner.isFull d.woken d.fut.point.stage := by
  simp [sendBurden, hd]

theorem recvBurden_some {d : Driven (RecvFuture α)} (hd : s.recvs[i]? = some d) :
    recvBurden n s i = burden n s.chan.inner.isEmpty d.woken d.fut.point.stage := by
  simp [recvBurden, hd]

theorem Still.sendBurden {o r : Option ℕ} (h : Still s t o r) {j : ℕ} (hj : o ≠ some j) :
    sendBurden n t j = sendBurden n s j := by
  simp only [ChannelSystem.sendBurden, h.sends j hj, h.inner]

theorem Still.recvBurden {o r : Option ℕ} (h : Still s t o r) {j : ℕ} (hj : r ≠ some j) :
    recvBurden n t j = recvBurden n s j := by
  simp only [ChannelSystem.recvBurden, h.recvs j hj, h.inner]

theorem Leaves.sendBurden {o r : Option ℕ} (h : Leaves s t o r) {j : ℕ} (hj : o ≠ some j) :
    sendBurden n t j ≤ sendBurden n s j + 8 := by
  have hfuts := h.sends j hj
  simp only [sendFuts, List.getElem?_map] at hfuts
  unfold ChannelSystem.sendBurden
  cases hd : s.sends[j]? with
  | none =>
    have hd' : t.sends[j]? = none := by simpa [hd] using hfuts
    simp [hd']
  | some d =>
    obtain ⟨d', hd', hfut⟩ : ∃ d', t.sends[j]? = some d' ∧ d'.fut = d.fut := by simpa [hd] using hfuts
    simp only [hd', Option.map_some, Option.getD_some, hfut]
    exact burden_le _ _ _ _ _

theorem Leaves.recvBurden {o r : Option ℕ} (h : Leaves s t o r) {j : ℕ} (hj : r ≠ some j) :
    recvBurden n t j ≤ recvBurden n s j + 8 := by
  have hfuts := h.recvs j hj
  simp only [ChannelSystem.recvFuts, List.getElem?_map] at hfuts
  unfold ChannelSystem.recvBurden
  cases hd : s.recvs[j]? with
  | none =>
    have hd' : t.recvs[j]? = none := by simpa [hd] using hfuts
    simp [hd']
  | some d =>
    obtain ⟨d', hd', hfut⟩ : ∃ d', t.recvs[j]? = some d' ∧ d'.fut = d.fut := by simpa [hd] using hfuts
    simp only [hd', Option.map_some, Option.getD_some, hfut]
    exact burden_le _ _ _ _ _

def Pays (n : ℕ) (s t : State α) (b : Bool) (before after : ℕ) : Prop :=
  after + 1 + 8 * n * b.toNat + price n * moved s ≤ before + price n * moved t

theorem Still.pays {o r : Option ℕ} (h : Still s t o r) {before after : ℕ} (hle : after + 1 ≤ before) :
    Pays n s t false before after := by
  simp only [Pays, h.moved, Bool.toNat_false]
  omega

theorem Pays.mono {b : Bool} {before after before' after' : ℕ} (h : Pays n s t b before after)
    (hb : before ≤ before') (ha : after' ≤ after) : Pays n s t b before' after' := by
  simp only [Pays] at h ⊢
  omega

theorem Still.refl (s : State α) : Still s s none none := ⟨rfl, fun _ _ => rfl, fun _ _ => rfl, rfl⟩

theorem Does.created_send_still {handle : ℕ} {msg : α} (h : Does s (.send handle msg) t) :
    Still s t (some s.sends.length) none ∧ sendBurden n t s.sends.length = 5 := by
  cases h with
  | send hh =>
    refine ⟨⟨rfl, ?_, fun _ _ => rfl, rfl⟩, ?_⟩
    · intro j hj
      exact getElem?_append_ne _ _ (by simpa using hj)
    · simp [sendBurden, Driven.new, SendFuture.new, Point.stage, burden]

theorem Does.created_recv_still {handle : ℕ} (h : Does s (.recv handle) t) :
    Still s t none (some s.recvs.length) ∧ recvBurden n t s.recvs.length = 5 := by
  cases h with
  | recv hh =>
    refine ⟨⟨rfl, fun _ _ => rfl, ?_, rfl⟩, ?_⟩
    · intro j hj
      exact getElem?_append_ne _ _ (by simpa using hj)
    · simp [recvBurden, Driven.new, RecvFuture.new, Point.stage, burden]

theorem Does.handled_still {a : Act α} (h : Does s a t) (ha : a.isHandle = true) :
    Still s t none none := by
  cases h with
  | cloneSender => exact ⟨rfl, fun _ _ => rfl, fun _ _ => rfl, rfl⟩
  | cloneReceiver => exact ⟨rfl, fun _ _ => rfl, fun _ _ => rfl, rfl⟩
  | dropSender => exact ⟨rfl, fun _ _ => rfl, fun _ _ => rfl, rfl⟩
  | dropReceiver => exact ⟨rfl, fun _ _ => rfl, fun _ _ => rfl, rfl⟩
  | _ => cases ha

theorem moved_pushed (s : State α) (i : ℕ) (msg : α) :
    moved (s.afterSend i (.pushed msg)) = moved s + 1 := by
  simp [moved, State.afterSend, History.push, Nat.add_right_comm]

theorem moved_popped (s : State α) (i : ℕ) (msg : α) :
    moved (s.afterRecv i (.popped msg)) = moved s + 1 := by
  simp [moved, State.afterRecv, History.pop, Nat.add_assoc]

theorem Does.polled_send_pays (h : Does s (.pollSend i) t) :
    Still s t (some i) none ∧ sendBurden n t i + 1 ≤ sendBurden n s i + 5 * (sendAsleep s i).toNat := by
  cases h with
  | @pollSend i d hd hl hp =>
    refine ⟨⟨rfl, fun j hj => ?_, fun _ _ => rfl, rfl⟩, ?_⟩
    · have hne : i ≠ j := by simpa using hj
      simp [State.putSend, List.getElem?_set_ne hne]
    have hlt := (List.getElem?_eq_some_iff.mp hd).1
    have hpaid : burden n s.chan.inner.isFull d.woken d.fut.point.stage + 5 * (sendAsleep s i).toNat = 5 := by
      rcases hp with hp | hp
      · simp [sendAsleep, hd, hp, Point.stage, burden]
      · cases hw : d.woken <;> simp [sendAsleep, hd, hp, hw, Point.stage, burden, effort]
    rw [sendBurden_some hd, sendBurden_some (List.getElem?_set_self hlt), hpaid]
    exact Nat.succ_le_succ (effort_start_le _)

theorem Does.polled_recv_pays (h : Does s (.pollRecv i) t) :
    Still s t none (some i) ∧ recvBurden n t i + 1 ≤ recvBurden n s i + 5 * (recvAsleep s i).toNat := by
  cases h with
  | @pollRecv i d hd hl hp =>
    refine ⟨⟨rfl, fun _ _ => rfl, fun j hj => ?_, rfl⟩, ?_⟩
    · have hne : i ≠ j := by simpa using hj
      simp [State.putRecv, List.getElem?_set_ne hne]
    have hlt := (List.getElem?_eq_some_iff.mp hd).1
    have hpaid : burden n s.chan.inner.isEmpty d.woken d.fut.point.stage + 5 * (recvAsleep s i).toNat = 5 := by
      rcases hp with hp | hp
      · simp [recvAsleep, hd, hp, Point.stage, burden]
      · cases hw : d.woken <;> simp [recvAsleep, hd, hp, hw, Point.stage, burden, effort]
    rw [recvBurden_some hd, recvBurden_some (List.getElem?_set_self hlt), hpaid]
    exact Nat.succ_le_succ (effort_start_le _)

theorem Does.stepped_send_pays {key : ℕ} (h : Does s (.stepSend i key) t) :
    ∃ b, (b = false → Still s t (some i) none) ∧ Pays n s t b (sendBurden n s i) (sendBurden n t i) := by
  cases h with
  | @stepSend i key d ch f e hd hl hf =>
    have hlt := (List.getElem?_eq_some_iff.mp hd).1
    have hafter : sendBurden n ((({ s with chan := ch }).putSend i { d with fut := f }).afterSend i e) i =
        burden n ch.inner.isFull d.woken f.point.stage := by
      rw [sendBurden_some (d := { d with fut := f }) (by simp [State.putSend, hlt]), afterSend_chan]
      rfl
    have heffort := sendFuture_effort hf
    -- all steps but two change nothing that another task can see
    have hquiet : ch.inner = s.chan.inner →
        (({ s with chan := ch }).putSend i { d with fut := f }).afterSend i e =
          ({ s with chan := ch }).putSend i { d with fut := f } →
        plain d.fut.point.stage = true → plain f.point.stage = true →
        ∃ b, (b = false →
          Still s ((({ s with chan := ch }).putSend i { d with fut := f }).afterSend i e) (some i) none) ∧
          Pays n s ((({ s with chan := ch }).putSend i { d with fut := f }).afterSend i e) b
            (sendBurden n s i)
            (sendBurden n ((({ s with chan := ch }).putSend i { d with fut := f }).afterSend i e) i) := by
      intro hinner hsame hp hp'
      have hstill : Still s ((({ s with chan := ch }).putSend i { d with fut := f }).afterSend i e)
          (some i) none := by
        rw [hsame]
        refine ⟨hinner, fun j hj => ?_, fun _ _ => rfl, rfl⟩
        have hne : i ≠ j := by simpa using hj
        simp [State.putSend, List.getElem?_set_ne hne]
      refine ⟨false, fun _ => hstill, hstill.pays ?_⟩
      rw [hafter, sendBurden_some hd, hinner, burden_plain hp, burden_plain hp']
      omega
    cases hf with
    | @push msg inner hp hfull hq hcap hc =>
      refine ⟨true, by simp, ?_⟩
      have hsame : ChannelSystem.moved (({ s with chan := { s.chan with inner := inner } }).putSend i
          { d with fut := { d.fut with point := .notifying () } }) = ChannelSystem.moved s := rfl
      rw [Pays, hafter, sendBurden_some hd, moved_pushed, hsame, hp, hfull, Nat.mul_add]
      simp only [burden, Point.stage, effort, price, Bool.toNat_true, Bool.false_eq_true, if_false]
      omega
    | notify hp =>
      refine ⟨true, by simp, ?_⟩
      rw [Pays, hafter, sendBurden_some hd, hp]
      simp only [burden, Point.stage, Bool.toNat_true]
      change 15 + 1 + 8 * n * 1 + price n * ChannelSystem.moved s ≤ _ + price n * ChannelSystem.moved s
      omega
    | unwrap hp hm => exact hquiet rfl rfl (by rw [hp]; rfl) rfl
    | begin hp hm hk => exact hquiet rfl rfl (by rw [hp]; rfl) rfl
    | release hp hm hk hr => exact hquiet rfl rfl (by rw [hp]; rfl) rfl
    | vacant hp hm hk hr => exact hquiet rfl rfl (by rw [hp]; rfl) rfl
    | full hp hfull => exact hquiet rfl rfl (by rw [hp]; rfl) rfl
    | register hp hr => exact hquiet rfl rfl (by rw [hp]; rfl) rfl
    | sleep hp hfull => exact hquiet rfl rfl (by rw [hp]; rfl) rfl
    | retry hp hfull => exact hquiet rfl rfl (by rw [hp]; rfl) rfl

theorem Does.stepped_recv_pays {key : ℕ} (h : Does s (.stepRecv i key) t) :
    ∃ b, (b = false → Still s t none (some i)) ∧ Pays n s t b (recvBurden n s i) (recvBurden n t i) := by
  cases h with
  | @stepRecv i key d ch f e hd hl hf =>
    have hlt := (List.getElem?_eq_some_iff.mp hd).1
    have hafter : recvBurden n ((({ s with chan := ch }).putRecv i { d with fut := f }).afterRecv i e) i =
        burden n ch.inner.isEmpty d.woken f.point.stage := by
      rw [recvBurden_some (d := { d with fut := f }) (by simp [State.putRecv, hlt]), afterRecv_chan]
      rfl
    have heffort := recvFuture_effort hf
    have hquiet : ch.inner = s.chan.inner →
        (({ s with chan := ch }).putRecv i { d with fut := f }).afterRecv i e =
          ({ s with chan := ch }).putRecv i { d with fut := f } →
        plain d.fut.point.stage = true → plain f.point.stage = true →
        ∃ b, (b = false →
          Still s ((({ s with chan := ch }).putRecv i { d with fut := f }).afterRecv i e) none (some i)) ∧
          Pays n s ((({ s with chan := ch }).putRecv i { d with fut := f }).afterRecv i e) b
            (recvBurden n s i)
            (recvBurden n ((({ s with chan := ch }).putRecv i { d with fut := f }).afterRecv i e) i) := by
      intro hinner hsame hp hp'
      have hstill : Still s ((({ s with chan := ch }).putRecv i { d with fut := f }).afterRecv i e)
          none (some i) := by
        rw [hsame]
        refine ⟨hinner, fun _ _ => rfl, fun j hj => ?_, rfl⟩
        have hne : i ≠ j := by simpa using hj
        simp [State.putRecv, List.getElem?_set_ne hne]
      refine ⟨false, fun _ => hstill, hstill.pays ?_⟩
      rw [hafter, recvBurden_some hd, hinner, burden_plain hp, burden_plain hp']
      omega
    cases hf with
    | @pop msg inner hp hq hcap hc =>
      refine ⟨true, by simp, ?_⟩
      have hsame : ChannelSystem.moved (({ s with chan := { s.chan with inner := inner } }).putRecv i
          { d with fut := { d.fut with point := .notifying msg } }) = ChannelSystem.moved s := rfl
      have hempty : s.chan.inner.isEmpty = false := by simp [Crossbeam.isEmpty, hq]
      rw [Pays, hafter, recvBurden_some hd, moved_popped, hsame, hp, hempty, Nat.mul_add]
      simp only [burden, Point.stage, effort, price, Bool.toNat_true, Bool.false_eq_true, if_false]
      omega
    | notify hp =>
      refine ⟨true, by simp, ?_⟩
      rw [Pays, hafter, recvBurden_some hd, hp]
      simp only [burden, Point.stage, Bool.toNat_true]
      change 15 + 1 + 8 * n * 1 + price n * ChannelSystem.moved s ≤ _ + price n * ChannelSystem.moved s
      omega
    | begin hp hk => exact hquiet rfl rfl (by rw [hp]; rfl) rfl
    | release hp hk hr => exact hquiet rfl rfl (by rw [hp]; rfl) rfl
    | vacant hp hk hr => exact hquiet rfl rfl (by rw [hp]; rfl) rfl
    | empty hp hq => exact hquiet rfl rfl (by rw [hp]; rfl) rfl
    | register hp hr => exact hquiet rfl rfl (by rw [hp]; rfl) rfl
    | sleep hp hq => exact hquiet rfl rfl (by rw [hp]; rfl) rfl
    | retry hp hq => exact hquiet rfl rfl (by rw [hp]; rfl) rfl

theorem DrivesSend.pays {a : Act α} (ha : DrivesSend i a) (h : Does s a t) :
    ∃ b, (b = false → Still s t (some i) none) ∧
      Pays n s t b (sendBurden n s i + 5 * (sendAsleep s i).toNat) (sendBurden n t i) := by
  cases ha with
  | poll =>
    obtain ⟨hstill, hle⟩ := h.polled_send_pays (n := n)
    exact ⟨false, fun _ => hstill, hstill.pays hle⟩
  | step =>
    obtain ⟨b, hstill, hpays⟩ := h.stepped_send_pays (n := n)
    exact ⟨b, hstill, hpays.mono (Nat.le_add_right _ _) (Nat.le_refl _)⟩

theorem DrivesRecv.pays {a : Act α} (ha : DrivesRecv i a) (h : Does s a t) :
    ∃ b, (b = false → Still s t none (some i)) ∧
      Pays n s t b (recvBurden n s i + 5 * (recvAsleep s i).toNat) (recvBurden n t i) := by
  cases ha with
  | poll =>
    obtain ⟨hstill, hle⟩ := h.polled_recv_pays (n := n)
    exact ⟨false, fun _ => hstill, hstill.pays hle⟩
  | step =>
    obtain ⟨b, hstill, hpays⟩ := h.stepped_recv_pays (n := n)
    exact ⟨b, hstill, hpays.mono (Nat.le_add_right _ _) (Nat.le_refl _)⟩

end ChannelExecutor.ChannelSystem
