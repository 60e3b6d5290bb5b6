import Mathlib.Data.Nat.Notation
import Mathlib.Data.List.Basic

/-!
What a process does with one message: the sends it blocks on, one after the other, and how it
ends. Nothing comes back from a send, so the sends do not depend on one another.
-/

set_option autoImplicit false

namespace ChannelExecutor.Lib

inductive Call (κ μ ε β : Type)
  | done (b : β)
  | send (dst : κ) (msg : μ) (rest : Call κ μ ε β)
  | panic (e : ε)
  deriving DecidableEq, Repr

namespace Call

variable {κ μ ε β γ : Type}

def andThen (call : Call κ μ ε β) (f : β → Call κ μ ε γ) : Call κ μ ε γ :=
  match call with
  | done b => f b
  | send dst msg rest => send dst msg (rest.andThen f)
  | panic e => panic e

instance : Monad (Call κ μ ε) where
  pure := done
  bind := andThen

@[simp] theorem pure_eq (b : β) : (pure b : Call κ μ ε β) = done b := rfl

@[simp] theorem done_bind (b : β) (f : β → Call κ μ ε γ) : done b >>= f = f b := rfl

@[simp] theorem send_bind (dst : κ) (msg : μ) (rest : Call κ μ ε β) (f : β → Call κ μ ε γ) :
    send dst msg rest >>= f = send dst msg (rest >>= f) := rfl

@[simp] theorem panic_bind (e : ε) (f : β → Call κ μ ε γ) :
    (panic e : Call κ μ ε β) >>= f = panic e := rfl

theorem bind_done (call : Call κ μ ε β) : call >>= done = call := by
  induction call with
  | done b => rfl
  | send dst msg rest ih => simp [ih]
  | panic e => rfl

theorem bind_bind {δ : Type} (call : Call κ μ ε β) (f : β → Call κ μ ε γ) (g : γ → Call κ μ ε δ) :
    call >>= f >>= g = call >>= fun b => f b >>= g := by
  induction call with
  | done b => rfl
  | send dst msg rest ih => simp [ih]
  | panic e => rfl

instance : LawfulMonad (Call κ μ ε) :=
  LawfulMonad.mk' _ bind_done (fun _ _ => rfl) bind_bind

def sends : Call κ μ ε β → List (κ × μ)
  | done _ => []
  | send dst msg rest => (dst, msg) :: rest.sends
  | panic _ => []

def result : Call κ μ ε β → Except ε β
  | done b => .ok b
  | send _ _ rest => rest.result
  | panic e => .error e

@[simp] theorem sends_done (b : β) : (done b : Call κ μ ε β).sends = [] := rfl

@[simp] theorem sends_send (dst : κ) (msg : μ) (rest : Call κ μ ε β) :
    (send dst msg rest).sends = (dst, msg) :: rest.sends := rfl

@[simp] theorem sends_panic (e : ε) : (panic e : Call κ μ ε β).sends = [] := rfl

@[simp] theorem result_done (b : β) : (done b : Call κ μ ε β).result = .ok b := rfl

@[simp] theorem result_send (dst : κ) (msg : μ) (rest : Call κ μ ε β) :
    (send dst msg rest).result = rest.result := rfl

@[simp] theorem result_panic (e : ε) : (panic e : Call κ μ ε β).result = .error e := rfl

def after (l : List (κ × μ)) (call : Call κ μ ε β) : Call κ μ ε β :=
  match l with
  | [] => call
  | (dst, msg) :: l => send dst msg (after l call)

@[simp] theorem after_nil (call : Call κ μ ε β) : after [] call = call := rfl

@[simp] theorem after_cons (p : κ × μ) (l : List (κ × μ)) (call : Call κ μ ε β) :
    after (p :: l) call = send p.1 p.2 (after l call) := rfl

theorem after_append (l l' : List (κ × μ)) (call : Call κ μ ε β) :
    after (l ++ l') call = after l (after l' call) := by
  induction l with
  | nil => rfl
  | cons p l ih => simp [ih]

@[simp] theorem after_bind (l : List (κ × μ)) (call : Call κ μ ε β) (f : β → Call κ μ ε γ) :
    after l call >>= f = after l (call >>= f) := by
  induction l with
  | nil => rfl
  | cons p l ih => simp [ih]

@[simp] theorem sends_after (l : List (κ × μ)) (call : Call κ μ ε β) :
    (after l call).sends = l ++ call.sends := by
  induction l with
  | nil => rfl
  | cons p l ih => simp [ih]

@[simp] theorem result_after (l : List (κ × μ)) (call : Call κ μ ε β) :
    (after l call).result = call.result := by
  induction l with
  | nil => rfl
  | cons p l ih => simp [ih]

theorem foldlM_after {α : Type} {f : α → Call κ μ ε Unit} {g : α → List (κ × μ)} (l : List α)
    (h : ∀ a ∈ l, f a = after (g a) (done ())) :
    l.foldlM (fun _ a => f a) () = after (l.flatMap g) (done ()) := by
  induction l with
  | nil => rfl
  | cons a l ih =>
    rw [List.foldlM_cons, h a List.mem_cons_self, after_bind, done_bind,
      ih fun a' h' => h a' (List.mem_cons_of_mem _ h'), List.flatMap_cons, after_append]

def work (w : κ → ℕ) : Call κ μ ε β → ℕ
  | done _ => 1
  | send dst _ rest => 1 + w dst + rest.work w
  | panic _ => 0

@[simp] theorem work_done (w : κ → ℕ) (b : β) :
    (done b : Call κ μ ε β).work w = 1 := rfl

@[simp] theorem work_send (w : κ → ℕ) (dst : κ) (msg : μ) (rest : Call κ μ ε β) :
    (send dst msg rest).work w = 1 + w dst + rest.work w := rfl

@[simp] theorem work_panic (w : κ → ℕ) (e : ε) :
    (panic e : Call κ μ ε β).work w = 0 := rfl

theorem work_le {w : κ → ℕ} {x : κ} {call : Call κ μ ε β} (h : ∀ p ∈ call.sends, p.1 = x) :
    call.work w ≤ call.sends.length * (1 + w x) + 1 := by
  induction call with
  | done b => simp
  | send dst msg rest ih =>
    have hdst : dst = x := h (dst, msg) (by simp)
    have := ih fun p hp => h p (by simp [hp])
    subst hdst
    simp only [work_send, sends_send, List.length_cons, Nat.add_mul, Nat.one_mul]
    omega
  | panic e => simp

end Call

end ChannelExecutor.Lib
