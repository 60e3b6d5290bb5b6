import Mathlib.Data.Nat.Notation
import Mathlib.Logic.Relation

set_option autoImplicit false

namespace ChannelExecutor.Lib

/-- A system that takes labelled steps; a label that is not enabled gives `none`. -/
structure System (σ α : Type) where
  init : σ
  step : σ → α → Option σ

namespace System

variable {σ α : Type} (S : System σ α)

def Next (ok : σ → α → Prop) (s t : σ) : Prop := ∃ a, ok s a ∧ S.step s a = some t

def Reaches (ok : σ → α → Prop) : σ → σ → Prop := Relation.ReflTransGen (S.Next ok)

def Anything (_ : σ) (_ : α) : Prop := True

def ReachableBy (ok : σ → α → Prop) (s : σ) : Prop := S.Reaches ok S.init s

def Reachable (s : σ) : Prop := S.ReachableBy Anything s

def Stuck (ok : σ → α → Prop) (s : σ) : Prop := ∀ a, ok s a → S.step s a = none

variable {S}

theorem Reaches.invariant {ok : σ → α → Prop} {I : σ → Prop} {s t : σ}
    (h : S.Reaches ok s t) (hs : I s)
    (hstep : ∀ s a t, I s → ok s a → S.step s a = some t → I t) : I t := by
  induction h with
  | refl => exact hs
  | tail _ hn ih =>
    obtain ⟨a, ha, he⟩ := hn
    exact hstep _ a _ ih ha he

theorem Reaches.mono {ok ok' : σ → α → Prop} (hok : ∀ s a, ok s a → ok' s a) {s t : σ}
    (h : S.Reaches ok s t) : S.Reaches ok' s t :=
  Relation.ReflTransGen.mono (fun _ _ ⟨a, ha, he⟩ => ⟨a, hok _ a ha, he⟩) _ _ h

theorem ReachableBy.reachable {ok : σ → α → Prop} {s : σ} (h : S.ReachableBy ok s) :
    S.Reachable s := Reaches.mono (fun _ _ _ => trivial) h

theorem Reaches.step {ok : σ → α → Prop} {s t u : σ} (h : S.Reaches ok s t) {a : α}
    (ha : ok t a) (he : S.step t a = some u) : S.Reaches ok s u := h.tail ⟨a, ha, he⟩

theorem Reaches.single {ok : σ → α → Prop} {s t : σ} {a : α} (ha : ok s a)
    (he : S.step s a = some t) : S.Reaches ok s t := Relation.ReflTransGen.single ⟨a, ha, he⟩

theorem Reaches.trans {ok : σ → α → Prop} {s t u : σ} (h : S.Reaches ok s t)
    (h' : S.Reaches ok t u) : S.Reaches ok s u := Relation.ReflTransGen.trans h h'

theorem Reaches.simulation {τ β : Type} {T : System τ β} {ok : σ → α → Prop} {ok' : τ → β → Prop}
    {R : σ → τ → Prop} (hstep : ∀ s a s' t, R s t → ok s a → S.step s a = some s' →
      ∃ t', T.Reaches ok' t t' ∧ R s' t')
    {s s' : σ} {t : τ} (h : S.Reaches ok s s') (hr : R s t) : ∃ t', T.Reaches ok' t t' ∧ R s' t' := by
  induction h with
  | refl => exact ⟨t, .refl, hr⟩
  | tail _ hn ih =>
    obtain ⟨u, hu, hru⟩ := ih
    obtain ⟨a, ha, he⟩ := hn
    obtain ⟨v, hv, hrv⟩ := hstep _ a _ u hru ha he
    exact ⟨v, hu.trans hv, hrv⟩

variable (S)

def exec (ok : σ → α → Bool) (s : σ) : List α → Option σ
  | [] => some s
  | a :: as => if ok s a then (S.step s a).bind (fun t => exec ok t as) else none

variable {S}

theorem exec_reaches {ok : σ → α → Bool} {s t : σ} {as : List α}
    (h : S.exec ok s as = some t) : S.Reaches (fun s a => ok s a = true) s t := by
  induction as generalizing s with
  | nil =>
    obtain rfl : s = t := by simpa [exec] using h
    exact .refl
  | cons a as ih =>
    simp only [exec] at h
    split at h
    next hok =>
      obtain ⟨u, hu, ht⟩ := Option.bind_eq_some_iff.mp h
      exact .head ⟨a, hok, hu⟩ (ih ht)
    next => cases h

theorem exec_get (S : System σ α) (ok : σ → α → Bool) (s : σ) (as : List α)
    (h : (S.exec ok s as).isSome) :
    S.Reaches (fun s a => ok s a = true) s ((S.exec ok s as).get h) :=
  exec_reaches (Option.some_get h).symm

end System

end ChannelExecutor.Lib
