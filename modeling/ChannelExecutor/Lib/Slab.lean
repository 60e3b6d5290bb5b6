import Mathlib.Data.List.Basic
import Mathlib.Data.Nat.Notation

set_option autoImplicit false

namespace ChannelExecutor.Lib

/-- Storage of values under reusable keys; `none` marks a vacant key. -/
structure Slab (α : Type) where
  slots : List (Option α)
  deriving DecidableEq, Repr

namespace Slab

variable {α : Type}

def empty : Slab α := ⟨[]⟩

def get (s : Slab α) (k : ℕ) : Option α := s.slots[k]?.join

def put (s : Slab α) (k : ℕ) (o : Option α) : Slab α :=
  ⟨(s.slots ++ List.replicate (k + 1 - s.slots.length) none).set k o⟩

def insert (s : Slab α) (k : ℕ) (a : α) : Option (Slab α) :=
  if (s.get k).isNone then some (s.put k (some a)) else none

def remove (s : Slab α) (k : ℕ) : Option (Slab α) :=
  if (s.get k).isSome then some (s.put k none) else none

def count (p : α → Bool) (s : Slab α) : ℕ := s.slots.countP (fun o => o.any p)

@[simp] theorem get_empty (k : ℕ) : (empty : Slab α).get k = none := by simp [get, empty]

theorem get_put (s : Slab α) (k j : ℕ) (o : Option α) :
    (s.put k o).get j = if j = k then o else s.get j := by
  unfold get put
  by_cases hj : j = k
  · subst j
    rw [List.getElem?_set_self (by simp; omega)]
    simp
  · rw [List.getElem?_set_ne (Ne.symm hj), if_neg hj]
    by_cases hl : j < s.slots.length
    · rw [List.getElem?_append_left hl]
    · rw [List.getElem?_append_right (by omega), List.getElem?_replicate,
        List.getElem?_eq_none (by omega : s.slots.length ≤ j)]
      split <;> rfl

@[simp] theorem get_put_self (s : Slab α) (k : ℕ) (o : Option α) : (s.put k o).get k = o := by
  simp [get_put]

theorem get_put_ne (s : Slab α) {k j : ℕ} (o : Option α) (h : j ≠ k) :
    (s.put k o).get j = s.get j := by simp [get_put, h]

theorem count_put (p : α → Bool) (s : Slab α) (k : ℕ) (o : Option α) :
    (s.put k o).count p + (if (s.get k).any p then 1 else 0) =
      s.count p + (if o.any p then 1 else 0) := by
  let padded := s.slots ++ List.replicate (k + 1 - s.slots.length) none
  have hlen : k < padded.length := by simp [padded]; omega
  have hcount : padded.countP (fun o => o.any p) = s.count p := by
    simp [padded, count, List.countP_append, List.countP_replicate]
  have hget : padded[k] = s.get k := by
    by_cases hl : k < s.slots.length
    · simp [padded, get, List.getElem_append_left hl, List.getElem?_eq_getElem hl]
    · simp [padded, get, List.getElem_append_right (Nat.le_of_not_lt hl),
        List.getElem?_eq_none (Nat.le_of_not_lt hl)]
  have hpos : (if (s.get k).any p then 1 else 0) ≤ padded.countP (fun o => o.any p) := by
    split
    next h => exact List.countP_pos_iff.mpr ⟨_, List.getElem_mem hlen, hget ▸ h⟩
    next => exact Nat.zero_le _
  have hset := List.countP_set (p := fun o : Option α => o.any p) (a := o) hlen
  rw [hget, hcount] at hset
  rw [hcount] at hpos
  change (padded.set k o).countP _ + _ = _
  omega

theorem insert_eq_some {s t : Slab α} {k : ℕ} {a : α} :
    s.insert k a = some t ↔ s.get k = none ∧ t = s.put k (some a) := by
  simp [insert, eq_comm (a := t)]

theorem remove_eq_some {s t : Slab α} {k : ℕ} :
    s.remove k = some t ↔ (s.get k).isSome ∧ t = s.put k none := by
  simp [remove, eq_comm (a := t)]

theorem count_pos {p : α → Bool} {s : Slab α} {k : ℕ} {a : α} (h : s.get k = some a) (ha : p a) :
    0 < s.count p := by
  have hc := count_put p s k none
  simp only [h, Option.any_some, ha, if_true, Option.any_none] at hc
  simp at hc
  omega

theorem exists_of_count_pos {p : α → Bool} {s : Slab α} (h : 0 < s.count p) :
    ∃ k a, s.get k = some a ∧ p a := by
  obtain ⟨o, ho, hp⟩ := List.countP_pos_iff.mp h
  obtain ⟨a, rfl, ha⟩ := (Option.any_eq_true p o).mp hp
  obtain ⟨k, hk⟩ := List.getElem?_of_mem ho
  exact ⟨k, a, by simp [get, hk], ha⟩

def firstFull (s : Slab (Option α)) : Option (ℕ × α) :=
  s.slots.zipIdx.findSome? (fun e => e.1.join.map (fun a => (e.2, a)))

def takeFirst (s : Slab (Option α)) : Slab (Option α) × Option α :=
  match s.firstFull with
  | some (k, a) => (s.put k (some none), some a)
  | none => (s, none)

theorem firstFull_some {s : Slab (Option α)} {k : ℕ} {a : α} (h : s.firstFull = some (k, a)) :
    s.get k = some (some a) := by
  obtain ⟨⟨o, j⟩, hm, he⟩ := List.exists_of_findSome?_eq_some h
  obtain ⟨b, hb, hkb⟩ := Option.map_eq_some_iff.mp he
  obtain ⟨rfl, rfl⟩ := Prod.mk.inj hkb
  have hj := List.mem_zipIdx_iff_getElem?.mp hm
  obtain ⟨o', rfl, rfl⟩ := Option.join_eq_some_iff.mp hb
  simp [get, hj]

theorem firstFull_none {s : Slab (Option α)} (h : s.firstFull = none) (k : ℕ) (a : α) :
    s.get k ≠ some (some a) := by
  intro hk
  have hs : s.slots[k]? = some (some (some a)) := by
    simpa [get, Option.join_eq_some_iff] using hk
  have hm : (some (some a), k) ∈ s.slots.zipIdx := List.mem_zipIdx_iff_getElem?.mpr hs
  simpa using List.findSome?_eq_none_iff.mp h _ hm

theorem takeFirst_cases (s : Slab (Option α)) :
    (s.takeFirst = (s, none) ∧ ∀ k a, s.get k ≠ some (some a)) ∨
    ∃ k a, s.get k = some (some a) ∧ s.takeFirst = (s.put k (some none), some a) := by
  unfold takeFirst
  cases hf : s.firstFull with
  | none => exact .inl ⟨rfl, firstFull_none hf⟩
  | some e => exact .inr ⟨e.1, e.2, firstFull_some hf, rfl⟩

end Slab

end ChannelExecutor.Lib
