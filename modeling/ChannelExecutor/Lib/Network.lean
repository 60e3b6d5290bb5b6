import Mathlib.Algebra.GroupWithZero.Nat
import Mathlib.Logic.Function.Basic
import ChannelExecutor.Lib.Call

/-!
A network of processes with one bounded FIFO queue each. A process takes the next message of its
queue when it is idle and blocks on a send while the queue it sends to is full.
-/

set_option autoImplicit false

namespace ChannelExecutor.Lib

/-- `put`, `got` and `out` record what entered each queue, what left it, and what its process
sent. -/
structure Net (κ μ ε σ : Type) where
  queue : κ → List μ
  proc : κ → σ
  call : κ → Option (Call κ μ ε σ)
  put : κ → List μ
  got : κ → List μ
  out : κ → List (κ × μ)

namespace Net

variable {κ μ ε σ : Type} [DecidableEq κ]

def start (init : κ → σ) : Net κ μ ε σ :=
  ⟨fun _ => [], init, fun _ => none, fun _ => [], fun _ => [], fun _ => []⟩

def push (n : Net κ μ ε σ) (c : κ) (msg : μ) : Net κ μ ε σ :=
  { n with
    queue := Function.update n.queue c (n.queue c ++ [msg])
    put := Function.update n.put c (n.put c ++ [msg]) }

def pop (n : Net κ μ ε σ) (c : κ) (msg : μ) (rest : List μ) : Net κ μ ε σ :=
  { n with
    queue := Function.update n.queue c rest
    got := Function.update n.got c (n.got c ++ [msg]) }

def take (n : Net κ μ ε σ) (c : κ) : Option (Net κ μ ε σ) :=
  match n.queue c with
  | msg :: rest => some (n.pop c msg rest)
  | [] => none

def accept (receive : σ → μ → Call κ μ ε σ) (n : Net κ μ ε σ) (c : κ) : Option (Net κ μ ε σ) :=
  match n.call c, n.queue c with
  | none, msg :: rest =>
    some { n.pop c msg rest with call := Function.update n.call c (some (receive (n.proc c) msg)) }
  | _, _ => none

def deliver {β : Type} (cap : κ → ℕ) (n : Net κ μ ε σ) (call : Call κ μ ε β) :
    Option (Net κ μ ε σ × Call κ μ ε β) :=
  match call with
  | .send dst msg rest => if (n.queue dst).length < cap dst then some (n.push dst msg, rest) else none
  | _ => none

def sent (n : Net κ μ ε σ) (c dst : κ) (msg : μ) (rest : Call κ μ ε σ) : Net κ μ ε σ :=
  { n.push dst msg with
    call := Function.update n.call c (some rest)
    out := Function.update n.out c (n.out c ++ [(dst, msg)]) }

def finished (n : Net κ μ ε σ) (c : κ) (b : σ) : Net κ μ ε σ :=
  { n with proc := Function.update n.proc c b, call := Function.update n.call c none }

def advance (cap : κ → ℕ) (n : Net κ μ ε σ) (c : κ) : Option (Net κ μ ε σ) :=
  match n.call c with
  | some (.send dst msg rest) =>
    if (n.queue dst).length < cap dst then some (n.sent c dst msg rest) else none
  | some (.done b) => some (n.finished c b)
  | _ => none

section Steps

variable {receive : σ → μ → Call κ μ ε σ} {cap : κ → ℕ} {n t : Net κ μ ε σ} {c : κ}

theorem take_cases (h : n.take c = some t) :
    ∃ msg rest, n.queue c = msg :: rest ∧ t = n.pop c msg rest := by
  unfold take at h
  split at h
  next msg rest hq => exact ⟨msg, rest, hq, by simpa using h.symm⟩
  next => cases h

theorem accept_cases (h : n.accept receive c = some t) :
    ∃ msg rest, n.call c = none ∧ n.queue c = msg :: rest ∧
      t = { n.pop c msg rest with
        call := Function.update n.call c (some (receive (n.proc c) msg)) } := by
  unfold accept at h
  split at h
  next msg rest hc hq => exact ⟨msg, rest, hc, hq, by simpa using h.symm⟩
  next => cases h

theorem deliver_cases {β : Type} {call call' : Call κ μ ε β}
    (h : n.deliver cap call = some (t, call')) :
    ∃ dst msg, call = .send dst msg call' ∧ (n.queue dst).length < cap dst ∧ t = n.push dst msg := by
  unfold deliver at h
  split at h
  next dst msg rest =>
    split at h
    next hroom =>
      obtain ⟨rfl, rfl⟩ : n.push dst msg = t ∧ rest = call' := by simpa using h
      exact ⟨dst, msg, rfl, hroom, rfl⟩
    next => cases h
  next => cases h

theorem advance_cases (h : n.advance cap c = some t) :
    (∃ dst msg rest, n.call c = some (.send dst msg rest) ∧ (n.queue dst).length < cap dst ∧
      t = n.sent c dst msg rest) ∨
    ∃ b, n.call c = some (.done b) ∧ t = n.finished c b := by
  unfold advance at h
  split at h
  next dst msg rest hc =>
    split at h
    next hroom => exact .inl ⟨dst, msg, rest, hc, hroom, by simpa using h.symm⟩
    next => cases h
  next b hc => exact .inr ⟨b, hc, by simpa using h.symm⟩
  next => cases h

theorem take_none (h : n.take c = none) : n.queue c = [] := by
  unfold take at h
  split at h
  next => cases h
  next hq => exact hq

theorem accept_none (h : n.accept receive c = none) (hc : n.call c = none) : n.queue c = [] := by
  unfold accept at h
  split at h
  next => cases h
  next hne =>
    cases hq : n.queue c with
    | nil => rfl
    | cons msg rest => exact absurd hq (hne msg rest hc)

theorem deliver_none {β : Type} {call : Call κ μ ε β} (h : n.deliver cap call = none) {dst : κ}
    {msg : μ} {rest : Call κ μ ε β} (hc : call = .send dst msg rest) :
    cap dst ≤ (n.queue dst).length := by
  subst hc
  simpa [deliver] using h

theorem advance_none (h : n.advance cap c = none) {call : Call κ μ ε σ} (hc : n.call c = some call) :
    (∃ e, call = .panic e) ∨
      ∃ dst msg rest, call = .send dst msg rest ∧ cap dst ≤ (n.queue dst).length := by
  unfold advance at h
  rw [hc] at h
  cases call with
  | done b => cases h
  | send dst msg rest => exact .inr ⟨dst, msg, rest, rfl, by simpa using h⟩
  | panic e => exact .inl ⟨e, rfl⟩

end Steps

end Net

end ChannelExecutor.Lib
