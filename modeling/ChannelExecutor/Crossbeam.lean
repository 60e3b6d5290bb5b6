import Mathlib.Data.List.Basic
import Mathlib.Algebra.GroupWithZero.Nat

/-!
The part of `crossbeam::channel` the programs rely on: a linearizable FIFO queue, bounded by a
capacity of at least one or unbounded, that disconnects when one side has no handle left.
-/

set_option autoImplicit false

namespace ChannelExecutor

inductive TrySendError (α : Type)
  | full (msg : α)
  | disconnected (msg : α)
  deriving DecidableEq, Repr

inductive TryRecvError
  | empty
  | disconnected
  deriving DecidableEq, Repr

inductive RecvError
  | recvError
  deriving DecidableEq, Repr

structure Crossbeam (α : Type) where
  queue : List α
  cap : Option ℕ
  senders : ℕ
  receivers : ℕ
  fits : ∀ c, cap = some c → queue.length ≤ c

namespace Crossbeam

variable {α : Type}

def bounded (cap : ℕ) : Crossbeam α := ⟨[], some cap, 1, 1, fun _ _ => Nat.zero_le _⟩

def unbounded : Crossbeam α := ⟨[], none, 1, 1, fun _ _ => Nat.zero_le _⟩

def capacity (c : Crossbeam α) : Option ℕ := c.cap

def len (c : Crossbeam α) : ℕ := c.queue.length

def isEmpty (c : Crossbeam α) : Bool := c.queue.isEmpty

def isFull (c : Crossbeam α) : Bool := c.cap = some c.queue.length

theorem push_fits {c : Crossbeam α} (h : ¬ c.isFull) (msg : α) (n : ℕ) (hn : c.cap = some n) :
    (c.queue ++ [msg]).length ≤ n := by
  have hle := c.fits n hn
  have hne : n ≠ c.queue.length := by
    rintro rfl
    exact h (by simp [isFull, hn])
  simp only [List.length_append, List.length_singleton]
  omega

def trySend (c : Crossbeam α) (msg : α) : Crossbeam α × Except (TrySendError α) Unit :=
  if c.receivers = 0 then (c, .error (.disconnected msg))
  else if h : c.isFull then (c, .error (.full msg))
  else ({ c with queue := c.queue ++ [msg], fits := push_fits h msg }, .ok ())

theorem pop_fits {c : Crossbeam α} {msg : α} {rest : List α} (h : c.queue = msg :: rest) (n : ℕ)
    (hn : c.cap = some n) : rest.length ≤ n := by
  have hle := c.fits n hn
  simp only [h, List.length_cons] at hle
  omega

def tryRecv (c : Crossbeam α) : Crossbeam α × Except TryRecvError α :=
  match h : c.queue with
  | msg :: rest => ({ c with queue := rest, fits := pop_fits h }, .ok msg)
  | [] => if c.senders = 0 then (c, .error .disconnected) else (c, .error .empty)

def Connected (c : Crossbeam α) : Prop := 0 < c.senders ∧ 0 < c.receivers

theorem trySend_cases {c : Crossbeam α} (hc : c.Connected) (msg : α) :
    (c.isFull = true ∧ c.trySend msg = (c, .error (.full msg))) ∨
    (c.isFull = false ∧ ∃ c' : Crossbeam α, c.trySend msg = (c', .ok ()) ∧
      c'.queue = c.queue ++ [msg] ∧ c'.cap = c.cap ∧ c'.Connected) := by
  have hr : c.receivers ≠ 0 := Nat.pos_iff_ne_zero.mp hc.2
  unfold trySend
  rw [if_neg hr]
  split
  next hf => exact .inl ⟨hf, rfl⟩
  next hf => exact .inr ⟨by simpa using hf, _, rfl, rfl, rfl, hc⟩

theorem tryRecv_cases {c : Crossbeam α} (hc : c.Connected) :
    (c.queue = [] ∧ c.tryRecv = (c, .error .empty)) ∨
    ∃ (msg : α) (c' : Crossbeam α), c.tryRecv = (c', .ok msg) ∧ c.queue = msg :: c'.queue ∧
      c'.cap = c.cap ∧ c'.Connected := by
  have hs : c.senders ≠ 0 := Nat.pos_iff_ne_zero.mp hc.1
  unfold tryRecv
  split
  next msg rest hq => exact .inr ⟨msg, _, rfl, hq, rfl, hc⟩
  next hq => exact .inl ⟨hq, by rw [if_neg hs]⟩

theorem isFull_of_lt {c : Crossbeam α} (h : ∀ n, c.cap = some n → c.queue.length < n) :
    c.isFull = false := by
  simp only [isFull, decide_eq_false_iff_not]
  intro hcap
  exact absurd (h _ hcap) (Nat.lt_irrefl _)

end Crossbeam

end ChannelExecutor
