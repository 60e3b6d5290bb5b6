import ChannelExecutor.Forwarder
import ChannelExecutor.Lib.NetworkRuns

set_option autoImplicit false

namespace ChannelExecutor.Experiment

open Lib (Call)
open Lib.Net (feed feed_nil feed_cons)

variable {κ : Type}

def Follows : ℕ → List ℕ → Prop
  | _, [] => True
  | k, d :: ds => (d = k ∨ d = 0) ∧ Follows (d + 1) ds

def nextAfter : ℕ → List ℕ → ℕ
  | k, [] => k
  | _, d :: ds => nextAfter (d + 1) ds

theorem nextAfter_append (k : ℕ) (ds : List ℕ) (d : ℕ) : nextAfter k (ds ++ [d]) = d + 1 := by
  induction ds generalizing k with
  | nil => rfl
  | cons d' ds ih => exact ih (d' + 1)

theorem follows_append {k : ℕ} {ds : List ℕ} {d : ℕ} (h : Follows k ds)
    (hd : d = nextAfter k ds ∨ d = 0) : Follows k (ds ++ [d]) := by
  induction ds generalizing k with
  | nil => exact ⟨hd, trivial⟩
  | cons d' ds ih => exact ⟨h.1, ih h.2 hd⟩

theorem nextAfter_range (n : ℕ) : nextAfter 0 (List.range n) = n := by
  cases n with
  | zero => rfl
  | succ n => rw [List.range_succ, nextAfter_append]

theorem follows_range (n : ℕ) : Follows 0 (List.range n) := by
  induction n with
  | zero => trivial
  | succ n ih =>
    rw [List.range_succ]
    exact follows_append ih (.inl (nextAfter_range n).symm)

def rounds (m n : ℕ) : List ℕ := (List.range n).map (· % m)

theorem rounds_succ (m n : ℕ) : rounds m (n + 1) = rounds m n ++ [n % m] := by
  simp [rounds, List.range_succ]

theorem nextAfter_rounds (m n : ℕ) :
    nextAfter 0 (rounds m n) = if n = 0 then 0 else (n - 1) % m + 1 := by
  cases n with
  | zero => rfl
  | succ n => rw [rounds_succ, nextAfter_append, if_neg (Nat.succ_ne_zero n), Nat.add_sub_cancel]

theorem succ_mod_cases {m : ℕ} (hm : 0 < m) (n : ℕ) : (n + 1) % m = n % m + 1 ∨ (n + 1) % m = 0 := by
  by_cases h1 : m = 1
  · subst h1
    exact .inr (Nat.mod_one _)
  · have hone : 1 % m = 1 := Nat.mod_eq_of_lt (by omega)
    have hlt := Nat.mod_lt n hm
    have := Nat.add_mod_eq_ite (k := m) (m := n) (n := 1)
    rw [hone] at this
    split at this
    · omega
    · omega

theorem follows_rounds {m : ℕ} (hm : 0 < m) (n : ℕ) : Follows 0 (rounds m n) := by
  induction n with
  | zero => trivial
  | succ n ih =>
    rw [rounds_succ]
    apply follows_append ih
    rw [nextAfter_rounds]
    cases n with
    | zero => exact .inr (Nat.zero_mod m)
    | succ n =>
      rw [if_neg (Nat.succ_ne_zero n), Nat.add_sub_cancel]
      exact succ_mod_cases hm n

namespace Forwarder

variable {send : TestMessageSender κ → TestMessage κ → Sending κ Unit} {flavour : κ → TestMessageSender κ}
variable {other : Forwarder κ → TestMessage κ → Sending κ (Forwarder κ)}

abbrev receiveBy (send : TestMessageSender κ → TestMessage κ → Sending κ Unit)
    (other : Forwarder κ → TestMessage κ → Sending κ (Forwarder κ)) :
    Forwarder κ → TestMessage κ → Sending κ (Forwarder κ) :=
  receive handleConfig validateSequence (handleAction send other) (handleNotification send)

def relay (id : ℕ) (next : TestMessageSender κ) (n seq : ℕ) : Forwarder κ :=
  ⟨id, [next], n, n, 0, none, 1, seq⟩

def waiting (id n : ℕ) : Forwarder κ := ⟨id, [], n, 0, 0, none, 1, 0⟩

def counting (id : ℕ) (target : TestMessageSender κ) (total n : ℕ) : Forwarder κ :=
  ⟨id, [], n, 0, total, some target, 1, 0⟩

theorem new_eq_waiting (id : ℕ) : (new id : Forwarder κ) = waiting id 0 := rfl

theorem receive_addSender (id : ℕ) (next : TestMessageSender κ) :
    receiveBy send other (new id) (.addSender next) = .done (relay id next 0 0) := rfl

theorem receive_relay (hs : Delivers send flavour) {id n seq k : ℕ} {c : κ} (h : seq = k ∨ seq = 0) :
    receiveBy send other (relay id (flavour c) n k) (.testData seq) =
      .send c (.testData n) (.done (relay id (flavour c) (n + 1) (seq + 1))) := by
  have hseq : validateSequence (relay id (flavour c) n k) (.testData seq) =
      ((⟨id, [flavour c], n + 1, n, 0, none, 1, seq + 1⟩ : Forwarder κ), .ok (.testData seq)) := by
    by_cases hk : seq = k
    · subst hk
      simp [validateSequence, relay, countReceived]
    · have h0 : seq = 0 := h.resolve_left hk
      subst h0
      simp [validateSequence, relay, countReceived, hk]
  have hconfig : handleConfig (relay id (flavour c) n k) (.testData seq) = .error (.testData seq) := rfl
  have hsend := hs c (.testData n)
  simp only [receiveBy, receive, hconfig, hseq]
  simp [handleAction, forward, hsend, handleNotification, relay]

theorem receive_waiting (id n seq : ℕ) :
    receiveBy send other (waiting id n) (.testData seq) = .done (waiting id (n + 1)) := by
  simp [receive, handleConfig, validateSequence, countReceived, handleAction, handleNotification, waiting]

theorem receive_waiting_notify (id n total : ℕ) (target : TestMessageSender κ) :
    receiveBy send other (waiting id n) (.notify target total) = .done (counting id target total n) := rfl

theorem receive_counting_notify (id n total : ℕ) (target : TestMessageSender κ) :
    receiveBy send other (counting id target total n) (.notify target total) =
      .done (counting id target total n) := rfl

theorem receive_counting (hs : Delivers send flavour) (id n total seq : ℕ) (c : κ) :
    receiveBy send other (counting id (flavour c) total n) (.testData seq) =
      if n + 1 = total then
        .send c (.testData total) (.done (counting id (flavour c) total 0))
      else .done (counting id (flavour c) total (n + 1)) := by
  by_cases hn : n + 1 = total
  · have hsend := hs c (.testData total)
    simp [receive, handleConfig, validateSequence, countReceived, handleAction, handleNotification,
      counting, hn, getAndClearReceivedCount, hsend]
  · simp [receive, handleConfig, validateSequence, countReceived, handleAction, handleNotification,
      counting, hn]

theorem feed_relay (hs : Delivers send flavour) (id : ℕ) (c : κ) {n k : ℕ} {ds : List ℕ}
    (h : Follows k ds) :
    feed (receiveBy send other) (relay id (flavour c) n k) (ds.map .testData) =
      .after ((List.range' n ds.length).map fun j => (c, .testData j))
        (.done (relay id (flavour c) (n + ds.length) (nextAfter k ds))) := by
  induction ds generalizing n k with
  | nil => rfl
  | cons d ds ih =>
    rw [List.map_cons, feed_cons, receive_relay hs h.1, Call.send_bind, Call.done_bind, ih h.2]
    simp [List.range'_succ, nextAfter, Nat.add_assoc, Nat.add_comm 1]

theorem feed_counting (hs : Delivers send flavour) (id : ℕ) (c : κ) {n total : ℕ} (hn : n < total)
    (ds : List ℕ) :
    feed (receiveBy send other) (counting id (flavour c) total n) (ds.map .testData) =
      .after (List.replicate ((n + ds.length) / total) (c, .testData total))
        (.done (counting id (flavour c) total ((n + ds.length) % total))) := by
  induction ds generalizing n with
  | nil => simp [Nat.div_eq_of_lt hn, Nat.mod_eq_of_lt hn]
  | cons d ds ih =>
    rw [List.map_cons, feed_cons, receive_counting hs]
    by_cases htop : n + 1 = total
    · -- the count is reached: a notification, and the count starts again
      have hlen : n + (d :: ds).length = 0 + ds.length + total := by
        simp only [List.length_cons]
        omega
      have hpos : 0 < total := by omega
      rw [if_pos htop, Call.send_bind, Call.done_bind, ih hpos, hlen, Nat.add_div_right _ hpos,
        Nat.add_mod_right, List.replicate_succ]
      rfl
    · have hlen : n + (d :: ds).length = n + 1 + ds.length := by
        simp only [List.length_cons]
        omega
      have hlt : n + 1 < total := by omega
      rw [if_neg htop, Call.done_bind, ih hlt, hlen]

def Tallies (id : ℕ) (target : TestMessageSender κ) (total n : ℕ) (f : Forwarder κ) : Prop :=
  f = waiting id n ∨ f = counting id target total n

theorem Tallies.sends_le (hs : Delivers send flavour) {id : ℕ} {c : κ} {n total : ℕ} {f : Forwarder κ}
    (hf : Tallies id (flavour c) total n f) {msg : TestMessage κ}
    (hm : ∀ m ∈ configs [msg], m = .notify (flavour c) total) :
    (receiveBy send other f msg).sends.length ≤ 1 := by
  cases msg with
  | testData seq =>
    rcases hf with rfl | rfl
    · rw [receive_waiting]
      exact Nat.zero_le 1
    · rw [receive_counting hs]
      split
      · exact Nat.le_refl 1
      · exact Nat.zero_le 1
  | addSender sender => cases hm (.addSender sender) (by simp [configs, TestMessage.seq?])
  | notify sender count =>
    cases hm (.notify sender count) (by simp [configs, TestMessage.seq?])
    rcases hf with rfl | rfl
    · exact Nat.zero_le 1
    · exact Nat.zero_le 1

theorem feed_tallies (hs : Delivers send flavour) {id : ℕ} {c : κ} {n total : ℕ} {f : Forwarder κ}
    {msgs : List (TestMessage κ)} (hf : Tallies id (flavour c) total n f)
    (hm : ∀ msg ∈ configs msgs, msg = .notify (flavour c) total) :
    ∃ o n' f', feed (receiveBy send other) f msgs =
      .after (List.replicate o (c, .testData total)) (.done f') ∧
      Tallies id (flavour c) total n' f' ∧ total * o + n' = n + (seqs msgs).length := by
  induction msgs generalizing n f with
  | nil => exact ⟨0, n, f, rfl, hf, by simp⟩
  | cons msg msgs ih =>
    rw [feed_cons]
    by_cases hseq : msg.seq? = none
    · have hmsg : msg = .notify (flavour c) total := by
        apply hm
        rw [configs_config hseq]
        exact List.mem_cons_self
      have hrest : ∀ msg ∈ configs msgs, msg = .notify (flavour c) total := by
        intro msg' h'
        apply hm
        rw [configs_config hseq]
        exact List.mem_cons_of_mem _ h'
      have hdone : receiveBy send other f msg = .done (counting id (flavour c) total n) := by
        subst hmsg
        rcases hf with rfl | rfl
        · exact receive_waiting_notify ..
        · exact receive_counting_notify ..
      obtain ⟨o, n', f', hfeed, hf', hcount⟩ := ih (.inr rfl) hrest
      refine ⟨o, n', f', ?_, hf', ?_⟩
      · rw [hdone, Call.done_bind, hfeed]
      · rw [seqs_config hseq, hcount]
    · obtain ⟨seq, rfl⟩ : ∃ seq, msg = .testData seq := by
        cases msg with
        | testData seq => exact ⟨seq, rfl⟩
        | addSender sender => exact absurd rfl hseq
        | notify sender count => exact absurd rfl hseq
      have hrest : ∀ msg ∈ configs msgs, msg = .notify (flavour c) total := by simpa using hm
      by_cases htop : f = counting id (flavour c) total n ∧ n + 1 = total
      · obtain ⟨rfl, htotal⟩ := htop
        obtain ⟨o, n', f', hfeed, hf', hcount⟩ := ih (n := 0) (.inr rfl) hrest
        refine ⟨o + 1, n', f', ?_, hf', ?_⟩
        · rw [receive_counting hs, if_pos htotal, Call.send_bind, Call.done_bind, hfeed,
            List.replicate_succ]
          rfl
        · simp only [seqs_testData, List.length_cons, Nat.mul_add, Nat.mul_one]
          omega
      · have hdone : ∃ f', receiveBy send other f (.testData seq) = .done f' ∧
            Tallies id (flavour c) total (n + 1) f' := by
          rcases hf with rfl | rfl
          · exact ⟨_, receive_waiting .., .inl rfl⟩
          · refine ⟨_, ?_, .inr rfl⟩
            rw [receive_counting hs, if_neg fun h => htop ⟨rfl, h⟩]
        obtain ⟨g, hg, hgt⟩ := hdone
        obtain ⟨o, n', f', hfeed, hf', hcount⟩ := ih hgt hrest
        refine ⟨o, n', f', ?_, hf', ?_⟩
        · rw [hg, Call.done_bind, hfeed]
        · simp only [seqs_testData, List.length_cons]
          omega

end Forwarder

end ChannelExecutor.Experiment
