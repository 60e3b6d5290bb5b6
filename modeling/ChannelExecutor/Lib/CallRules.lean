import ChannelExecutor.Lib.Call
import Mathlib.Data.List.Forall2

set_option autoImplicit false

namespace ChannelExecutor.Lib.Call

variable {κ μ ε α α' β β' γ γ' : Type}

theorem bind_ok_iff {c : Call κ μ ε β} {f : β → Call κ μ ε γ} {g : γ} :
    (c >>= f).result = .ok g ↔ ∃ b, c.result = .ok b ∧ (f b).result = .ok g := by
  induction c with
  | done b => simp
  | send dst msg rest ih => simpa using ih
  | panic e => simp

theorem sends_bind {c : Call κ μ ε β} {b : β} (h : c.result = .ok b) (f : β → Call κ μ ε γ) :
    (c >>= f).sends = c.sends ++ (f b).sends := by
  induction c with
  | done b' =>
    obtain rfl : b' = b := by simpa using h
    rfl
  | send dst msg rest ih => simp [ih h]
  | panic e => cases h

theorem sends_bind_pure (c : Call κ μ ε β) (f : β → γ) : (c >>= fun b => pure (f b)).sends = c.sends := by
  induction c with
  | done b => rfl
  | send dst msg rest ih => simpa using ih
  | panic e => rfl

theorem sends_prefix_bind (c : Call κ μ ε β) (f : β → Call κ μ ε γ) :
    c.sends <+: (c >>= f).sends := by
  induction c with
  | done b => exact List.nil_prefix
  | send dst msg rest ih => simpa using ih
  | panic e => exact List.nil_prefix

theorem foldlM_ok {T : β → β → Prop} (hrefl : ∀ b, T b b)
    (htrans : ∀ a b c, T a b → T b c → T a c) {f : β → α → Call κ μ ε β}
    (hf : ∀ b a b', (f b a).result = .ok b' → T b b') {l : List α} {b b' : β}
    (h : (l.foldlM f b).result = .ok b') : T b b' := by
  induction l generalizing b with
  | nil =>
    obtain rfl : b = b' := Except.ok.inj h
    exact hrefl b
  | cons a l ih =>
    rw [List.foldlM_cons] at h
    obtain ⟨b₁, hb₁, hrest⟩ := bind_ok_iff.mp h
    exact htrans _ _ _ (hf b a b₁ hb₁) (ih hrest)

inductive Matches (R : β → β' → Prop) : Call κ μ ε β → Call κ μ ε β' → Prop
  | done {b b'} (h : R b b') : Matches R (.done b) (.done b')
  | send {dst msg rest rest'} (h : Matches R rest rest') :
      Matches R (.send dst msg rest) (.send dst msg rest')
  | panic {e} : Matches R (.panic e) (.panic e)

variable {R : β → β' → Prop} {S : γ → γ' → Prop}

theorem Matches.bind {c : Call κ μ ε β} {c' : Call κ μ ε β'} (h : Matches R c c')
    {f : β → Call κ μ ε γ} {f' : β' → Call κ μ ε γ'}
    (hf : ∀ b b', R b b' → Matches S (f b) (f' b')) : Matches S (c >>= f) (c' >>= f') := by
  induction h with
  | done h => exact hf _ _ h
  | send h ih => exact .send ih
  | panic => exact .panic

theorem Matches.foldlM {A : α → α' → Prop} {l : List α} {l' : List α'} (hl : List.Forall₂ A l l')
    {f : β → α → Call κ μ ε β} {f' : β' → α' → Call κ μ ε β'}
    (hf : ∀ b b' a a', R b b' → A a a' → Matches R (f b a) (f' b' a')) {b : β} {b' : β'}
    (h : R b b') : Matches R (l.foldlM f b) (l'.foldlM f' b') := by
  induction hl generalizing b b' with
  | nil => exact .done h
  | cons ha hl ih =>
    rw [List.foldlM_cons, List.foldlM_cons]
    exact (hf _ _ _ _ h ha).bind fun c c' hc => ih hc

theorem Matches.sends {c : Call κ μ ε β} {c' : Call κ μ ε β'} (h : Matches R c c') :
    c.sends = c'.sends := by
  induction h with
  | done h => rfl
  | send h ih => rw [sends_send, sends_send, ih]
  | panic => rfl

theorem Matches.result {c : Call κ μ ε β} {c' : Call κ μ ε β'} (h : Matches R c c') :
    (∃ b b', c.result = .ok b ∧ c'.result = .ok b' ∧ R b b') ∨
    ∃ e, c.result = .error e ∧ c'.result = .error e := by
  induction h with
  | done h => exact .inl ⟨_, _, rfl, rfl, h⟩
  | send h ih => exact ih
  | panic => exact .inr ⟨_, rfl, rfl⟩

end ChannelExecutor.Lib.Call
