import ChannelExecutor.ForwarderRuns
import Mathlib.Data.List.Nodup

set_option autoImplicit false

namespace ChannelExecutor.Experiment

variable {κ : Type}

section Counting

theorem nextAfter_eq_getLast {k : ℕ} {ds : List ℕ} (h : ds ≠ []) :
    nextAfter k ds = ds.getLast h + 1 := by
  have hsplit := List.dropLast_concat_getLast h
  calc nextAfter k ds = nextAfter k (ds.dropLast ++ [ds.getLast h]) := by rw [hsplit]
    _ = ds.getLast h + 1 := nextAfter_append k ds.dropLast (ds.getLast h)

theorem exists_break {k : ℕ} {ds : List ℕ} (h : ¬ Follows k ds) : ∃ as d bs,
    ds = as ++ d :: bs ∧ Follows k as ∧ d ≠ nextAfter k as ∧ d ≠ 0 := by
  induction ds generalizing k with
  | nil => exact absurd trivial h
  | cons d ds ih =>
    by_cases hd : d = k ∨ d = 0
    · have htail : ¬ Follows (d + 1) ds := fun ht => h ⟨hd, ht⟩
      obtain ⟨as, e, bs, rfl, has, he⟩ := ih htail
      exact ⟨d :: as, e, bs, rfl, ⟨hd, has⟩, he⟩
    · exact ⟨[], d, ds, rfl, trivial, fun he => hd (.inl he), fun he => hd (.inr he)⟩

theorem follows_eq_range' {k : ℕ} {ds : List ℕ} (h : Follows k ds) (h0 : 0 ∉ ds) :
    ds = List.range' k ds.length := by
  induction ds generalizing k with
  | nil => rfl
  | cons d ds ih =>
    obtain ⟨hne, hds⟩ : 0 ≠ d ∧ 0 ∉ ds := by simpa using h0
    obtain rfl : d = k := h.1.resolve_right (Ne.symm hne)
    rw [List.length_cons, List.range'_succ, ← ih h.2 hds]

theorem follows_eq_range {ds : List ℕ} (h : Follows 0 ds) (h0 : ds.count 0 ≤ 1) :
    ds = List.range ds.length := by
  cases ds with
  | nil => rfl
  | cons d ds =>
    obtain rfl : d = 0 := h.1.elim id id
    have hrest : 0 ∉ ds := by
      rw [List.count_cons_self] at h0
      exact List.count_eq_zero.mp (by omega)
    rw [List.length_cons, List.range_eq_range', List.range'_succ, ← follows_eq_range' h.2 hrest]

theorem count_range_le (n : ℕ) : (List.range n).count 0 ≤ 1 :=
  List.nodup_iff_count_le_one.mp List.nodup_range 0

theorem not_follows_eraseIdx {n i : ℕ} (hi : i + 1 < n) : ¬ Follows 0 ((List.range n).eraseIdx i) := by
  intro h
  have hcount : ((List.range n).eraseIdx i).count 0 ≤ 1 :=
    Nat.le_trans (List.Sublist.count_le _ (List.eraseIdx_sublist _ _)) (count_range_le n)
  have hlen : ((List.range n).eraseIdx i).length = n - 1 := by
    rw [List.length_eraseIdx_of_lt (by simpa using Nat.lt_of_succ_lt hi), List.length_range]
  have heq := congrArg (·[i]?) (follows_eq_range h hcount)
  have hrange : (List.range (n - 1))[i]? = some i := List.getElem?_range (by omega)
  simp only [hlen, hrange, List.getElem?_eraseIdx_of_ge (Nat.le_refl i)] at heq
  simp [List.getElem?_range hi] at heq

theorem not_follows_insert {n d : ℕ} {as bs : List ℕ} (hs : as ++ bs = List.range n) (hd : d < n)
    (h0 : d ≠ 0) : ¬ Follows 0 (as ++ d :: bs) := by
  intro h
  have hcount : (as ++ d :: bs).count 0 ≤ 1 := by
    have := count_range_le n
    rw [← hs, List.count_append] at this
    simpa [List.count_append, List.count_cons, h0] using this
  have hnodup : (as ++ d :: bs).Nodup := by
    rw [follows_eq_range h hcount]
    exact List.nodup_range
  have hmem : d ∈ as ++ bs := by simpa [hs] using hd
  have hfresh := (List.nodup_middle.mp hnodup).notMem
  exact hfresh hmem

theorem not_follows_perm {n : ℕ} {ds : List ℕ} (hp : ds.Perm (List.range n))
    (hne : ds ≠ List.range n) : ¬ Follows 0 ds := by
  intro h
  have hcount : ds.count 0 ≤ 1 := by
    rw [hp.count_eq]
    exact count_range_le n
  have hlen : ds.length = n := by simpa using hp.length_eq
  exact hne (by rw [← hlen]; exact follows_eq_range h hcount)

end Counting

namespace Forwarder

def validateAll (f : Forwarder κ) : List ℕ → Forwarder κ × Except (TestMessage κ) Unit
  | [] => (f, .ok ())
  | d :: ds =>
    match f.validateSequence (.testData d) with
    | (f, .ok _) => validateAll f ds
    | (f, .error msg) => (f, .error msg)

def accepted (f : Forwarder κ) (ds : List ℕ) : Forwarder κ :=
  { f with nextSeq := nextAfter f.nextSeq ds, receivedCount := f.receivedCount + ds.length }

variable {f : Forwarder κ}

theorem accepted_cons (f : Forwarder κ) (d : ℕ) (ds : List ℕ) :
    f.accepted (d :: ds) = (f.accepted [d]).accepted ds := by
  simp [accepted, nextAfter, Nat.add_assoc, Nat.add_comm 1]

theorem validateSequence_accepts (hf : f.senders ≠ []) {d : ℕ} (hd : d = f.nextSeq ∨ d = 0) :
    f.validateSequence (.testData d) = (f.accepted [d], .ok (.testData d)) := by
  have hempty : f.senders.isEmpty = false := by simpa using hf
  by_cases hnext : d = f.nextSeq
  · simp [validateSequence, hempty, hnext, accepted, countReceived, nextAfter]
  · obtain rfl := hd.resolve_left hnext
    simp [validateSequence, hempty, hnext, accepted, countReceived, nextAfter]

theorem validateSequence_rejects (hf : f.senders ≠ []) {d : ℕ} (hnext : d ≠ f.nextSeq)
    (h0 : d ≠ 0) : f.validateSequence (.testData d) = (f, .error (.testData d)) := by
  have hempty : f.senders.isEmpty = false := by simpa using hf
  simp [validateSequence, hempty, hnext, h0]

theorem validateAll_append (hf : f.senders ≠ []) {as : List ℕ} (h : Follows f.nextSeq as)
    (bs : List ℕ) : f.validateAll (as ++ bs) = (f.accepted as).validateAll bs := by
  induction as generalizing f with
  | nil => rfl
  | cons d as ih =>
    have htail : Follows (f.accepted [d]).nextSeq as := h.2
    rw [List.cons_append, validateAll, validateSequence_accepts hf h.1, accepted_cons f d as]
    exact ih (f := f.accepted [d]) hf htail

theorem validateAll_accepts (hf : f.senders ≠ []) {ds : List ℕ} (h : Follows f.nextSeq ds) :
    f.validateAll ds = (f.accepted ds, .ok ()) := by
  simpa [validateAll] using validateAll_append hf h []

theorem validateAll_rejects (hf : f.senders ≠ []) {as : List ℕ} {d : ℕ} (bs : List ℕ)
    (h : Follows f.nextSeq as) (hnext : d ≠ nextAfter f.nextSeq as) (h0 : d ≠ 0) :
    f.validateAll (as ++ d :: bs) = (f.accepted as, .error (.testData d)) := by
  have hrejects := validateSequence_rejects (f := f.accepted as) hf hnext h0
  rw [validateAll_append hf h, validateAll, hrejects]

theorem validateAll_ok_iff (hf : f.senders ≠ []) (ds : List ℕ) :
    (f.validateAll ds).2 = .ok () ↔ Follows f.nextSeq ds := by
  constructor
  · intro h
    by_contra hn
    obtain ⟨as, d, bs, rfl, has, hd, h0⟩ := exists_break hn
    rw [validateAll_rejects hf bs has hd h0] at h
    cases h
  · intro h
    rw [validateAll_accepts hf h]

/-- What a forwarder with senders accepts, what it has become then, and what it leaves untouched
when it rejects; from 0, any damage to a stream that brings no further 0 is rejected. -/
theorem validates_counting_sequences (f : Forwarder κ) (hf : f.senders ≠ []) :
    (∀ ds, (f.validateAll ds).2 = .ok () ↔ Follows f.nextSeq ds) ∧
    (∀ ds, (f.validateAll ds).2 = .ok () → (f.validateAll ds).1 = f.accepted ds ∧
      ∀ h : ds ≠ [], (f.accepted ds).nextSeq = ds.getLast h + 1) ∧
    (∀ ds, (f.validateAll ds).2 ≠ .ok () → ∃ as d bs, ds = as ++ d :: bs ∧
      Follows f.nextSeq as ∧ d ≠ nextAfter f.nextSeq as ∧ d ≠ 0 ∧
      (f.accepted as).validateSequence (.testData d) = (f.accepted as, .error (.testData d)) ∧
      f.validateAll ds = (f.accepted as, .error (.testData d))) ∧
    (f.nextSeq = 0 →
      (∀ ds, (f.validateAll ds).2 = .ok () → ds.count 0 ≤ 1 → ds = List.range ds.length) ∧
      (∀ n i, i + 1 < n → (f.validateAll ((List.range n).eraseIdx i)).2 ≠ .ok ()) ∧
      (∀ n d as bs, as ++ bs = List.range n → d < n → d ≠ 0 →
        (f.validateAll (as ++ d :: bs)).2 ≠ .ok ()) ∧
      (∀ n ds, ds.Perm (List.range n) → ds ≠ List.range n → (f.validateAll ds).2 ≠ .ok ())) := by
  refine ⟨validateAll_ok_iff hf, ?_, ?_, ?_⟩
  · intro ds hok
    have hfollows := (validateAll_ok_iff hf ds).mp hok
    rw [validateAll_accepts hf hfollows]
    exact ⟨rfl, fun h => nextAfter_eq_getLast h⟩
  · intro ds hok
    rw [ne_eq, validateAll_ok_iff hf] at hok
    obtain ⟨as, d, bs, rfl, has, hd, h0⟩ := exists_break hok
    exact ⟨as, d, bs, rfl, has, hd, h0, validateSequence_rejects (f := f.accepted as) hf hd h0,
      validateAll_rejects hf bs has hd h0⟩
  · intro hnext
    simp only [ne_eq, validateAll_ok_iff hf, hnext]
    exact ⟨fun ds => follows_eq_range, fun n i => not_follows_eraseIdx,
      fun n d as bs => not_follows_insert, fun n ds => not_follows_perm⟩

theorem validates_counting_sequences_relay :
    ((relay 1 (.flumeSender 2) 0 0 : Forwarder ℕ).validateAll [0, 1, 0]).2 = .ok () ∧
    ((relay 1 (.flumeSender 2) 0 0 : Forwarder ℕ).validateAll [0, 2]).2 ≠ .ok () ∧
    ((relay 1 (.flumeSender 2) 0 0 : Forwarder ℕ).validateAll ((List.range 3).eraseIdx 1)).2 ≠
      .ok () := by
  have hf : (relay 1 (.flumeSender 2) 0 0 : Forwarder ℕ).senders ≠ [] := List.cons_ne_nil _ _
  refine ⟨((validates_counting_sequences _ hf).1 _).mpr (by simp [Follows, relay]), ?_,
    ((validates_counting_sequences _ hf).2.2.2 rfl).2.1 3 1 (by decide)⟩
  rw [ne_eq, (validates_counting_sequences _ hf).1]
  simp [Follows, relay]

end Forwarder

end ChannelExecutor.Experiment
