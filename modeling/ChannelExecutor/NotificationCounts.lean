import ChannelExecutor.ForwarderSteps
import Mathlib.Algebra.Order.Group.Nat
import Mathlib.Data.Nat.ModEq

set_option autoImplicit false

namespace ChannelExecutor.Experiment

open Lib (Call)
open Lib.Net (feed feed_cons)

variable {κ : Type}

theorem filter_dvd_range' {n c : ℕ} (hc : c < n) (k : ℕ) :
    (List.range' 1 k).filter (fun m => n ∣ c + m) =
      (List.range' 1 ((c + k) / n)).map (fun j => j * n - c) := by
  induction k with
  | zero => simp [Nat.div_eq_of_lt hc]
  | succ k ih =>
    rw [List.range'_1_concat, List.filter_append, ih, ← Nat.add_assoc c k 1, Nat.succ_div]
    by_cases hd : n ∣ c + k + 1
    · have hm : 1 + k + c = c + k + 1 := by omega
      have hj : (1 + (c + k) / n) * n - c = 1 + k := by
        have hdiv : (c + k + 1) / n = (c + k) / n + 1 := by rw [Nat.succ_div, if_pos hd]
        have := Nat.div_mul_cancel hd
        rw [hdiv] at this
        rw [Nat.add_comm 1 ((c + k) / n), this]
        omega
      rw [if_pos hd, List.range'_1_concat, List.map_append]
      simp [Nat.add_comm c (1 + k), hm, hd, hj]
    · have hm : c + (1 + k) = c + k + 1 := by omega
      rw [if_neg hd]
      simp [hm, hd]

def sentBefore (n c width sent i : ℕ) : ℕ := if c + i < n then sent + width * i else width * ((c + i) % n)

def account (senders : List (TestMessageSender κ)) (notifier : TestMessageSender κ)
    (n c sent k : ℕ) : List (κ × TestMessage κ) :=
  (List.range' 1 k).flatMap fun m =>
    numbered senders (sentBefore n c senders.length sent (m - 1)) ++
      if n ∣ c + m then [(notifier.chan, .testData n)] else []

section Blocks

variable {n c : ℕ}

theorem dvd_succ_iff (hc : c < n) : n ∣ c + 1 ↔ c + 1 = n := by
  constructor
  · intro h
    have := Nat.le_of_dvd (Nat.succ_pos c) h
    omega
  · rintro rfl
    exact Nat.dvd_refl _

theorem sentBefore_full (hc : c + 1 = n) (width sent i : ℕ) :
    sentBefore n c width sent (i + 1) = sentBefore n 0 width 0 i := by
  subst hc
  have hge : ¬ c + (i + 1) < c + 1 := by omega
  have hmod : (c + (i + 1)) % (c + 1) = i % (c + 1) := by
    rw [show c + (i + 1) = i + (c + 1) by omega, Nat.add_mod_right]
  simp only [sentBefore, hge, if_false, hmod, Nat.zero_add]
  split
  next hlt => rw [Nat.mod_eq_of_lt hlt]
  next => rfl

theorem sentBefore_more (n c width sent i : ℕ) :
    sentBefore n c width sent (i + 1) = sentBefore n (c + 1) width (sent + width) i := by
  have heq : c + (i + 1) = c + 1 + i := by omega
  simp only [sentBefore, heq, Nat.mul_succ]
  split
  · omega
  · rfl

theorem account_succ (c' : ℕ) {sent sent' : ℕ} (senders : List (TestMessageSender κ))
    (notifier : TestMessageSender κ) (k : ℕ) (hc : c < n)
    (hsent : ∀ i, sentBefore n c senders.length sent (i + 1) = sentBefore n c' senders.length sent' i)
    (hdvd : ∀ m, n ∣ c + (m + 1) ↔ n ∣ c' + m) :
    account senders notifier n c sent (k + 1) = numbered senders sent ++
      (if c + 1 = n then [(notifier.chan, .testData n)] else []) ++
      account senders notifier n c' sent' k := by
  have hfirst : sentBefore n c senders.length sent 0 = sent := by simp [sentBefore, hc]
  have hrest : List.range' (1 + 1) k = (List.range' 1 k).map (· + 1) := by
    rw [Nat.add_comm 1 1, ← List.map_add_range']
    simp [Nat.add_comm]
  rw [account, List.range'_succ, List.flatMap_cons, hrest, List.flatMap_map, account,
    Nat.sub_self, hfirst]
  simp only [dvd_succ_iff hc, hdvd]
  congr 1
  apply List.flatMap_congr
  intro m hm
  have hpos : 1 ≤ m := (List.mem_range'_1.mp hm).1
  rw [← hsent, Nat.sub_add_cancel hpos, Nat.add_sub_cancel]

end Blocks

namespace Forwarder

variable {f g : Forwarder κ} {send : TestMessageSender κ → TestMessage κ → Sending κ Unit}
variable {other : Forwarder κ → TestMessage κ → Sending κ (Forwarder κ)}

def sentAfter (n c width sent k : ℕ) : ℕ :=
  if (c + k) / n = 0 then sent + width * k else width * ((c + k) % n)

theorem sentAfter_full {n c : ℕ} (hc : c + 1 = n) (width sent k : ℕ) :
    sentAfter n c width sent (k + 1) = sentAfter n 0 width 0 k := by
  have hpos : 0 < n := by omega
  have heq : c + (k + 1) = k + n := by omega
  simp only [sentAfter, heq, Nat.add_div_right _ hpos, Nat.add_mod_right, Nat.zero_add,
    Nat.succ_ne_zero, if_false]
  split
  next h0 => rw [Nat.mod_eq_of_lt ((Nat.div_eq_zero_iff_lt hpos).mp h0)]
  next => rfl

theorem sentAfter_more (n c width sent k : ℕ) :
    sentAfter n c width sent (k + 1) = sentAfter n (c + 1) width (sent + width) k := by
  have heq : c + (k + 1) = c + 1 + k := by omega
  simp only [sentAfter, heq, Nat.mul_succ]
  split
  · omega
  · rfl

theorem feed_data_cons (hf : Serves send f) {d : ℕ} {msgs : List (TestMessage κ)}
    (hok : (feed (receiveBy send other) f (.testData d :: msgs)).result = .ok g) :
    ∃ nextSeq, Serves send (notified (forwarded f nextSeq)) ∧
      (feed (receiveBy send other) (notified (forwarded f nextSeq)) msgs).result = .ok g ∧
      (feed (receiveBy send other) f (.testData d :: msgs)).sends =
        numbered f.senders f.sendCount ++ notifications (forwarded f nextSeq) ++
          (feed (receiveBy send other) (notified (forwarded f nextSeq)) msgs).sends := by
  rw [feed_cons] at hok ⊢
  rcases receive_data_cases other hf d with ⟨nextSeq, -, hr⟩ | hr
  · have haccepts : (receiveBy send other f (.testData d)).result =
        .ok (notified (forwarded f nextSeq)) := by
      rw [hr, Call.result_after, Call.result_done]
    rw [hr, Call.after_bind, Call.done_bind, Call.result_after] at hok
    refine ⟨nextSeq, ?_, hok, ?_⟩
    · apply hf.receive _ haccepts
      simp [TestMessage.handles]
    · rw [hr, Call.after_bind, Call.done_bind, Call.sends_after]
  · rw [hr] at hok
    cases hok

theorem feed_account {notifier : TestMessageSender κ} {n : ℕ} (hf : Serves send f)
    (hs : f.notifySender = some notifier) (hn : f.notifyCount = n) (hc : f.receivedCount < n)
    {ds : List ℕ} (hok : (feed (receiveBy send other) f (ds.map .testData)).result = .ok g) :
    (feed (receiveBy send other) f (ds.map .testData)).sends =
      account f.senders notifier n f.receivedCount f.sendCount ds.length ∧
    g.receivedCount = (f.receivedCount + ds.length) % n ∧
    g.sendCount = sentAfter n f.receivedCount f.senders.length f.sendCount ds.length := by
  induction ds generalizing f with
  | nil =>
    obtain rfl : f = g := by simpa using hok
    simp [account, sentAfter, Nat.mod_eq_of_lt hc, Nat.div_eq_of_lt hc]
  | cons d ds ih =>
    rw [List.map_cons] at hok ⊢
    obtain ⟨nextSeq, hserves, hrest, hfed⟩ := feed_data_cons hf hok
    rw [hfed, List.length_cons]
    by_cases hfull : f.receivedCount + 1 = n
    · -- the notification is due: the counters start again
      have hnow : (forwarded f nextSeq).receivedCount = (forwarded f nextSeq).notifyCount :=
        hfull.trans hn.symm
      have hpos : 0 < n := by omega
      simp only [notified, notifications, if_pos hnow] at hrest hserves ⊢
      obtain ⟨hsends, hcount, hsent⟩ := ih hserves hs hn hpos hrest
      have hblock := account_succ 0 f.senders notifier ds.length hc
        (sentBefore_full hfull f.senders.length f.sendCount) fun m => by
          rw [show f.receivedCount + (m + 1) = m + n by omega, Nat.dvd_add_self_right, Nat.zero_add]
      refine ⟨?_, ?_, ?_⟩
      · rw [hsends, hblock, if_pos hfull, ← hfull]
        simp [forwarded, hs]
      · rw [hcount, show f.receivedCount + (ds.length + 1) = ds.length + n by omega,
          Nat.add_mod_right, Nat.zero_add]
      · rw [hsent, sentAfter_full hfull]
        rfl
    · have hnot : ¬ (forwarded f nextSeq).receivedCount = (forwarded f nextSeq).notifyCount :=
        fun h => hfull (h.trans hn)
      have hlt : f.receivedCount + 1 < n := by omega
      simp only [notified, notifications, if_neg hnot, List.append_nil] at hrest hserves ⊢
      obtain ⟨hsends, hcount, hsent⟩ := ih hserves hs hn hlt hrest
      have hblock := account_succ (f.receivedCount + 1) f.senders notifier ds.length hc
        (sentBefore_more n f.receivedCount f.senders.length f.sendCount) fun m => by
          rw [show f.receivedCount + (m + 1) = f.receivedCount + 1 + m by omega]
      refine ⟨?_, ?_, ?_⟩
      · rw [hsends, hblock, if_neg hfull, List.append_nil]
        rfl
      · rw [hcount, show f.receivedCount + (ds.length + 1) = f.receivedCount + 1 + ds.length by omega]
        rfl
      · rw [hsent, sentAfter_more]
        rfl

theorem feed_unnotified (hf : Serves send f) (hn : f.notifyCount = 0) {ds : List ℕ}
    (hok : (feed (receiveBy send other) f (ds.map .testData)).result = .ok g) :
    (feed (receiveBy send other) f (ds.map .testData)).sends =
      (List.range ds.length).flatMap
        (fun i => numbered f.senders (f.sendCount + f.senders.length * i)) ∧
    g.receivedCount = f.receivedCount + ds.length ∧
    g.sendCount = f.sendCount + f.senders.length * ds.length := by
  induction ds generalizing f with
  | nil =>
    obtain rfl : f = g := by simpa using hok
    simp
  | cons d ds ih =>
    rw [List.map_cons] at hok ⊢
    obtain ⟨nextSeq, hserves, hrest, hfed⟩ := feed_data_cons hf hok
    have hnot : ¬ (forwarded f nextSeq).receivedCount = (forwarded f nextSeq).notifyCount := by
      intro h
      exact absurd (h.trans hn) (Nat.succ_ne_zero _)
    simp only [notified, notifications, if_neg hnot, List.append_nil] at hrest hserves hfed
    rw [hfed, List.length_cons]
    obtain ⟨hsends, hcount, hsent⟩ := ih hserves hn hrest
    refine ⟨?_, ?_, ?_⟩
    · rw [hsends, List.range_succ_eq_map, List.flatMap_cons, List.flatMap_map]
      simp [forwarded, Nat.mul_succ, Nat.add_assoc, Nat.add_comm f.senders.length]
    · rw [hcount]
      simp [forwarded, Nat.add_assoc, Nat.add_comm 1]
    · rw [hsent]
      simp [forwarded, Nat.mul_succ, Nat.add_assoc, Nat.add_comm f.senders.length]

theorem flatMap_replicate {α β : Type} (p : α → Prop) [DecidablePred p] (b : β) (l : List α) :
    (l.flatMap fun a => if p a then [b] else []) = List.replicate (l.filter p).length b := by
  induction l with
  | nil => rfl
  | cons a l ih =>
    rw [List.flatMap_cons, ih]
    by_cases ha : p a
    · simp [ha, List.replicate_succ]
    · simp [ha]

theorem sendsTo_account [DecidableEq κ] {senders : List (TestMessageSender κ)}
    {notifier : TestMessageSender κ} (h : ∀ sender ∈ senders, sender.chan ≠ notifier.chan)
    {n c : ℕ} (hc : c < n) (sent k : ℕ) :
    sendsTo notifier.chan (account senders notifier n c sent k) =
      List.replicate ((c + k) / n) (.testData n) := by
  have hblock : ∀ m, sendsTo notifier.chan
      (numbered senders (sentBefore n c senders.length sent (m - 1)) ++
        if n ∣ c + m then [(notifier.chan, .testData n)] else []) =
      if n ∣ c + m then [.testData n] else [] := by
    intro m
    rw [sendsTo_append, sendsTo_numbered h, List.nil_append]
    split
    · exact sendsTo_single _ _
    · rfl
  rw [account, sendsTo_flatMap]
  simp only [hblock]
  rw [flatMap_replicate, filter_dvd_range' hc]
  simp

/-- With a notification due every `n` messages, those after the messages `n - c`, `2 * n - c`, ...
are all there are; with the threshold 0 nothing is notified and nothing is cleared. -/
theorem notifications_exact [DecidableEq κ] (k : ForwarderKind) (f g : Forwarder κ)
    (hf : Serves k.send f) (ds : List ℕ)
    (hok : (feed k.receive f (ds.map .testData)).result = .ok g) :
    (∀ notifier n, f.notifySender = some notifier → f.notifyCount = n → f.receivedCount < n →
      (feed k.receive f (ds.map .testData)).sends =
        account f.senders notifier n f.receivedCount f.sendCount ds.length ∧
      (List.range' 1 ds.length).filter (fun m => n ∣ f.receivedCount + m) =
        (List.range' 1 ((f.receivedCount + ds.length) / n)).map
          (fun j => j * n - f.receivedCount) ∧
      ((∀ sender ∈ f.senders, sender.chan ≠ notifier.chan) →
        sendsTo notifier.chan (feed k.receive f (ds.map .testData)).sends =
          List.replicate ((f.receivedCount + ds.length) / n) (.testData n)) ∧
      g.receivedCount = (f.receivedCount + ds.length) % n ∧
      g.sendCount = if (f.receivedCount + ds.length) / n = 0
        then f.sendCount + f.senders.length * ds.length
        else f.senders.length * ((f.receivedCount + ds.length) % n)) ∧
    (f.notifyCount = 0 →
      (feed k.receive f (ds.map .testData)).sends = (List.range ds.length).flatMap
        (fun i => numbered f.senders (f.sendCount + f.senders.length * i)) ∧
      g.receivedCount = f.receivedCount + ds.length ∧
      g.sendCount = f.sendCount + f.senders.length * ds.length) := by
  rw [k.receive_eq] at hok ⊢
  constructor
  · intro notifier n hs hn hc
    obtain ⟨hsends, hcount, hsent⟩ := feed_account hf hs hn hc hok
    refine ⟨hsends, filter_dvd_range' hc _, ?_, hcount, hsent⟩
    intro hdisjoint
    rw [hsends]
    exact sendsTo_account hdisjoint hc _ _
  · intro hn
    exact feed_unnotified hf hn hok

theorem notifications_exact_three :
    (feed AsyncForwarder.receive (⟨1, [.tokioSender 7, .smolSender 8], 1, 2, 3, some (.flumeSender 9),
      1, 1⟩ : Forwarder ℕ) [.testData 1, .testData 2, .testData 3]).sends =
      [(7, .testData 2), (8, .testData 3), (7, .testData 4), (8, .testData 5), (9, .testData 3),
        (7, .testData 0), (8, .testData 1)] := by
  have hf : Serves sendCmdAsync (⟨1, [.tokioSender 7, .smolSender 8], 1, 2, 3,
      some (.flumeSender 9), 1, 1⟩ : Forwarder ℕ) := by
    refine ⟨?_, ?_, rfl⟩
    · simp [Deliverable, sendCmdAsync, TestMessageSender.chan]
    · simp [Deliverable, sendCmdAsync, TestMessageSender.chan]
  exact ((notifications_exact .async _ _ hf [1, 2, 3] rfl).1 (.flumeSender 9) 3 rfl rfl
    (by decide)).1

end Forwarder

end ChannelExecutor.Experiment
