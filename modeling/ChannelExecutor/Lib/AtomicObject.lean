import Mathlib.Data.List.Nodup
import Mathlib.Data.Nat.Notation
import Mathlib.Logic.Function.Basic

/-!
Objects whose operations each take effect at one instant between their call and their return.
What the callers of such an object see is linearizable.
-/

set_option autoImplicit false

namespace ChannelExecutor.Lib

variable {ι κ ρ σ : Type}

structure Spec (σ κ ρ : Type) where
  init : σ
  next : σ → κ → ρ → σ → Prop

inductive Event (ι κ ρ : Type)
  | call (i : ι) (c : κ)
  | ret (i : ι) (r : ρ)
  deriving DecidableEq, Repr

def Event.id : Event ι κ ρ → ι
  | .call i _ => i
  | .ret i _ => i

inductive Phase (κ ρ : Type)
  | idle
  | called (c : κ)
  | done (c : κ) (r : ρ)
  | returned (c : κ) (r : ρ)

def Phase.events (i : ι) : Phase κ ρ → List (Event ι κ ρ)
  | .idle => []
  | .called c | .done c _ => [.call i c]
  | .returned c r => [.call i c, .ret i r]

def Phase.entry (i : ι) : Phase κ ρ → List (ι × κ × ρ)
  | .idle | .called _ => []
  | .done c r | .returned c r => [(i, c, r)]

namespace Spec

inductive Legal (O : Spec σ κ ρ) : List (κ × ρ) → σ → Prop
  | nil : Legal O [] O.init
  | snoc {l s c r t} (h : Legal O l s) (hn : O.next s c r t) : Legal O (l ++ [(c, r)]) t

/-- `order` is a sequential history of the object that explains the history `h`: it has every
call that returned, with its answer, and keeps the order of calls that do not overlap. -/
structure Linearizes (O : Spec σ κ ρ) (h : List (Event ι κ ρ)) (order : List (ι × κ × ρ)) : Prop where
  legal : ∃ s, O.Legal (order.map Prod.snd) s
  once : (order.map Prod.fst).Nodup
  called : ∀ i c r, (i, c, r) ∈ order → .call i c ∈ h
  returned : ∀ i r, .ret i r ∈ h → ∃ c, (i, c, r) ∈ order
  real_time : ∀ (i j : ι) (r : ρ) (c : κ) (m n : ℕ), [.ret i r, .call j c].Sublist h →
    (order.map Prod.fst)[m]? = some i → (order.map Prod.fst)[n]? = some j → m < n

section Runs

variable [DecidableEq ι] {O : Spec σ κ ρ} {h : List (Event ι κ ρ)} {order : List (ι × κ × ρ)} {s : σ}
  {phase : ι → Phase κ ρ}

inductive Run (O : Spec σ κ ρ) : List (Event ι κ ρ) → List (ι × κ × ρ) → σ → (ι → Phase κ ρ) → Prop
  | init : Run O [] [] O.init (fun _ => .idle)
  | call {h order s phase i} (c : κ) (hr : Run O h order s phase) (hi : phase i = .idle) :
      Run O (h ++ [.call i c]) order s (Function.update phase i (.called c))
  | effect {h order s phase i c r t} (hr : Run O h order s phase) (hi : phase i = .called c)
      (hn : O.next s c r t) :
      Run O h (order ++ [(i, c, r)]) t (Function.update phase i (.done c r))
  | ret {h order s phase i c r} (hr : Run O h order s phase) (hi : phase i = .done c r) :
      Run O (h ++ [.ret i r]) order s (Function.update phase i (.returned c r))

theorem Run.atOnce {i : ι} {c : κ} {r : ρ} {t : σ} (hr : O.Run h order s phase) (hi : phase i = .idle)
    (hn : O.next s c r t) : O.Run (h ++ [.call i c, .ret i r]) (order ++ [(i, c, r)]) t
      (Function.update phase i (.returned c r)) := by
  have hcall := hr.call c hi
  have heffect := hcall.effect (Function.update_self i _ phase) hn
  have hret := heffect.ret (Function.update_self i _ _)
  simpa only [Function.update_idem, List.append_assoc, List.singleton_append] using hret

theorem Run.legal (hr : O.Run h order s phase) : O.Legal (order.map Prod.snd) s := by
  induction hr with
  | init => exact .nil
  | call c _ _ ih => exact ih
  | effect _ _ hn ih =>
    rw [List.map_append]
    exact .snoc ih hn
  | ret _ _ ih => exact ih

theorem Run.events (hr : O.Run h order s phase) (j : ι) :
    h.filter (fun e => e.id = j) = (phase j).events j := by
  induction hr with
  | init => rfl
  | @call h order s phase i c _ hi ih =>
    rw [List.filter_append, ih]
    by_cases hj : i = j
    · subst hj
      simp [Event.id, Phase.events, hi]
    · simp [Event.id, hj, Function.update_of_ne (Ne.symm hj)]
  | @effect h order s phase i c r t _ hi _ ih =>
    rw [ih]
    by_cases hj : i = j
    · subst hj
      simp [Phase.events, hi]
    · rw [Function.update_of_ne (Ne.symm hj)]
  | @ret h order s phase i c r _ hi ih =>
    rw [List.filter_append, ih]
    by_cases hj : i = j
    · subst hj
      simp [Event.id, Phase.events, hi]
    · simp [Event.id, hj, Function.update_of_ne (Ne.symm hj)]

theorem Run.entries (hr : O.Run h order s phase) (j : ι) :
    order.filter (fun e => e.1 = j) = (phase j).entry j := by
  induction hr with
  | init => rfl
  | @call h order s phase i c _ hi ih =>
    rw [ih]
    by_cases hj : i = j
    · subst hj
      simp [Phase.entry, hi]
    · rw [Function.update_of_ne (Ne.symm hj)]
  | @effect h order s phase i c r t _ hi _ ih =>
    rw [List.filter_append, ih]
    by_cases hj : i = j
    · subst hj
      simp [Phase.entry, hi]
    · simp [hj, Function.update_of_ne (Ne.symm hj)]
  | @ret h order s phase i c r _ hi ih =>
    rw [ih]
    by_cases hj : i = j
    · subst hj
      simp [Phase.entry, hi]
    · rw [Function.update_of_ne (Ne.symm hj)]

theorem Run.mem_history (hr : O.Run h order s phase) {e : Event ι κ ρ} :
    e ∈ h ↔ e ∈ (phase e.id).events e.id := by
  rw [← hr.events e.id, List.mem_filter]
  simp

theorem Run.mem_order (hr : O.Run h order s phase) {e : ι × κ × ρ} :
    e ∈ order ↔ e ∈ (phase e.1).entry e.1 := by
  rw [← hr.entries e.1, List.mem_filter]
  simp

theorem Run.called (hr : O.Run h order s phase) {i : ι} {c : κ} {r : ρ} (he : (i, c, r) ∈ order) :
    .call i c ∈ h := by
  rw [hr.mem_order] at he
  rw [hr.mem_history]
  simp only [Event.id] at he ⊢
  cases hp : phase i <;> simp_all [Phase.entry, Phase.events]

theorem Run.returned (hr : O.Run h order s phase) {i : ι} {r : ρ} (he : .ret i r ∈ h) :
    ∃ c, (i, c, r) ∈ order := by
  rw [hr.mem_history] at he
  simp only [Event.id] at he
  cases hp : phase i with
  | returned c r' =>
    obtain rfl : r = r' := by simpa [hp, Phase.events] using he
    exact ⟨c, hr.mem_order.mpr (by simp [hp, Phase.entry])⟩
  | idle => simp [hp, Phase.events] at he
  | called c => simp [hp, Phase.events] at he
  | done c r' => simp [hp, Phase.events] at he

theorem Run.once (hr : O.Run h order s phase) : (order.map Prod.fst).Nodup := by
  induction hr with
  | init => exact List.nodup_nil
  | call c _ _ ih => exact ih
  | @effect h order s phase i c r t hr hi _ ih =>
    rw [List.map_append, List.map_singleton]
    refine ih.append (List.nodup_singleton i) ?_
    rw [List.disjoint_singleton]
    intro hm
    obtain ⟨e, he, rfl⟩ := List.mem_map.mp hm
    rw [hr.mem_order, hi] at he
    simp [Phase.entry] at he
  | ret _ _ ih => exact ih

theorem Run.not_returned (hr : O.Run h order s phase) {i : ι} {c : κ} (hi : phase i = .called c) (r : ρ) :
    .ret i r ∉ h := by
  rw [hr.mem_history]
  simp [Event.id, hi, Phase.events]

theorem Run.not_ordered (hr : O.Run h order s phase) {i : ι} (hi : (phase i).entry i = []) {n : ℕ} :
    (order.map Prod.fst)[n]? ≠ some i := by
  intro hn
  obtain ⟨e, he, rfl⟩ := List.mem_map.mp (List.mem_of_getElem? hn)
  rw [hr.mem_order, hi] at he
  exact List.not_mem_nil he

theorem pair_sublist_snoc {β : Type} {a b x : β} {l : List β} (h : [a, b].Sublist (l ++ [x])) :
    [a, b].Sublist l ∨ b = x := by
  obtain ⟨l₁, l₂, he, h₁, h₂⟩ := List.sublist_append_iff.mp h
  cases l₂ with
  | nil => exact .inl (by simpa [he] using h₁)
  | cons y l₂ =>
    have hlen : l₂ = [] := List.eq_nil_of_length_eq_zero (by simpa using h₂.length_le)
    have hy : y = x := by simpa using h₂.subset (List.mem_cons_self ..)
    rw [hlen, hy] at he
    exact .inr (by simpa using congrArg List.getLast? he)

theorem Run.real_time (hr : O.Run h order s phase) (i j : ι) (r : ρ) (c : κ) (m n : ℕ)
    (hij : [.ret i r, .call j c].Sublist h) (hm : (order.map Prod.fst)[m]? = some i)
    (hn : (order.map Prod.fst)[n]? = some j) : m < n := by
  induction hr with
  | init => simp at hij
  | @call h order s phase i₀ c₀ hr hi ih =>
    rcases pair_sublist_snoc hij with hij | he
    · exact ih hij hm hn
    · -- a call that has only just been made is not in the order
      obtain ⟨rfl, -⟩ := Event.call.inj he
      exact absurd hn (hr.not_ordered (by rw [hi]; rfl))
  | @effect h order s phase i₀ c₀ r₀ t hr hi _ ih =>
    have hne : i ≠ i₀ := by
      rintro rfl
      exact hr.not_returned hi r (hij.subset (List.mem_cons_self ..))
    rw [List.map_append, List.getElem?_append] at hm hn
    split at hm
    next hmlt =>
      split at hn
      next => exact ih hij hm hn
      next hnge => exact Nat.lt_of_lt_of_le hmlt (Nat.le_of_not_lt hnge)
    next =>
      have hmem := List.mem_of_getElem? hm
      exact absurd (List.mem_singleton.mp hmem) hne
  | @ret h order s phase i₀ c₀ r₀ hr hi ih =>
    rcases pair_sublist_snoc hij with hij | he
    · exact ih hij hm hn
    · cases he

theorem Run.linearizes (hr : O.Run h order s phase) : O.Linearizes h order where
  legal := ⟨s, hr.legal⟩
  once := hr.once
  called _ _ _ he := hr.called he
  returned _ _ he := hr.returned he
  real_time := hr.real_time

end Runs

end Spec

end ChannelExecutor.Lib
