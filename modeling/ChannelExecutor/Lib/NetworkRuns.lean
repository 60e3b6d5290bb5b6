import ChannelExecutor.Lib.Network

set_option autoImplicit false

namespace ChannelExecutor.Lib.Net

variable {κ μ ε σ : Type}

def current (n : Net κ μ ε σ) (c : κ) : Call κ μ ε σ := (n.call c).getD (.done (n.proc c))

def feed (receive : σ → μ → Call κ μ ε σ) (b : σ) (msgs : List μ) : Call κ μ ε σ :=
  msgs.foldlM receive b

structure Sound (receive : σ → μ → Call κ μ ε σ) (init : κ → σ) (procs : κ → Prop)
    (n : Net κ μ ε σ) : Prop where
  fifo : ∀ c, n.put c = n.got c ++ n.queue c
  replay : ∀ c, procs c → feed receive (init c) (n.got c) = .after (n.out c) (n.current c)

section Sound

variable {receive : σ → μ → Call κ μ ε σ} {init : κ → σ} {procs : κ → Prop} {cap : κ → ℕ}
variable {n t : Net κ μ ε σ} {c : κ}

@[simp] theorem feed_nil (b : σ) : feed receive b [] = .done b := rfl

@[simp] theorem feed_cons (b : σ) (msg : μ) (msgs : List μ) :
    feed receive b (msg :: msgs) = receive b msg >>= fun b' => feed receive b' msgs := by
  simp [feed]

theorem feed_append (b : σ) (msgs msgs' : List μ) :
    feed receive b (msgs ++ msgs') = feed receive b msgs >>= fun b' => feed receive b' msgs' := by
  simp [feed]

theorem sound_start : Sound receive init procs (start init) := ⟨fun _ => rfl, fun _ _ => rfl⟩

section Steps

variable [DecidableEq κ]

theorem Sound.push (h : n.Sound receive init procs) (c : κ) (msg : μ) :
    (n.push c msg).Sound receive init procs := by
  constructor
  case fifo =>
    intro x
    have := h.fifo x
    by_cases hx : x = c
    · subst hx
      simp [Net.push, this]
    · simp [Net.push, hx, this]
  case replay => exact fun x hx => h.replay x hx

theorem fifo_pop {msg : μ} {rest : List μ} (h : ∀ x, n.put x = n.got x ++ n.queue x)
    (hq : n.queue c = msg :: rest) (x : κ) :
    (n.pop c msg rest).put x = (n.pop c msg rest).got x ++ (n.pop c msg rest).queue x := by
  have := h x
  by_cases hx : x = c
  · subst hx
    simp [pop, this, hq]
  · simp [pop, hx, this]

theorem Sound.take (h : n.Sound receive init procs) (hc : ¬ procs c) (ht : n.take c = some t) :
    t.Sound receive init procs := by
  obtain ⟨msg, rest, hq, rfl⟩ := take_cases ht
  constructor
  case fifo => exact fifo_pop h.fifo hq
  case replay =>
    intro x hx
    have hxc : x ≠ c := fun he => hc (he ▸ hx)
    simpa [pop, hxc, current] using h.replay x hx

theorem Sound.accept (h : n.Sound receive init procs) (ht : n.accept receive c = some t) :
    t.Sound receive init procs := by
  obtain ⟨msg, rest, hc, hq, rfl⟩ := accept_cases ht
  constructor
  case fifo => exact fifo_pop h.fifo hq
  case replay =>
    intro x hx
    have hr := h.replay x hx
    by_cases hxc : x = c
    · subst hxc
      simp only [current, hc, Option.getD_none] at hr
      simp [pop, current, feed_append, hr, Call.bind_done]
    · simpa [pop, hxc, current] using hr

theorem Sound.advance (h : n.Sound receive init procs) (ht : n.advance cap c = some t) :
    t.Sound receive init procs := by
  obtain ⟨dst, msg, rest, hc, -, rfl⟩ | ⟨b, hc, rfl⟩ := advance_cases ht
  · constructor
    case fifo => exact (h.push dst msg).fifo
    case replay =>
      intro x hx
      have hr := h.replay x hx
      by_cases hxc : x = c
      · subst hxc
        simp only [current, hc, Option.getD_some] at hr
        simp [sent, Net.push, current, hr, Call.after_append]
      · simpa [sent, Net.push, current, hxc] using hr
  · constructor
    case fifo => exact h.fifo
    case replay =>
      intro x hx
      have hr := h.replay x hx
      by_cases hxc : x = c
      · subst hxc
        simpa [finished, current, hc] using hr
      · simpa [finished, current, hxc] using hr

end Steps

theorem Sound.of_feed (h : n.Sound receive init procs) (hc : procs c) {l : List (κ × μ)} {b : σ}
    (hf : feed receive (init c) (n.got c) = .after l (.done b)) :
    n.out c ++ (n.current c).sends = l ∧ (n.current c).result = .ok b := by
  have hr := (h.replay c hc).symm.trans hf
  constructor
  · simpa using congrArg Call.sends hr
  · simpa using congrArg Call.result hr

theorem Sound.of_feed_idle (h : n.Sound receive init procs) (hc : procs c) {l : List (κ × μ)}
    {b : σ} (hf : feed receive (init c) (n.got c) = .after l (.done b)) (hi : n.call c = none) :
    n.out c = l ∧ n.proc c = b := by
  obtain ⟨hs, hb⟩ := h.of_feed hc hf
  constructor
  · simpa [current, hi] using hs
  · simpa [current, hi] using hb

end Sound

section Work

variable {receive : σ → μ → Call κ μ ε σ} {cap : κ → ℕ} {n t : Net κ μ ε σ} {c : κ}
variable (w : κ → ℕ)

def callWork (call : Option (Call κ μ ε σ)) : ℕ := (call.map (Call.work w)).getD 0

def workAt (n : Net κ μ ε σ) (c : κ) : ℕ :=
  (n.queue c).length * w c + callWork w (n.call c)

def work (cs : List κ) (n : Net κ μ ε σ) : ℕ := (cs.map (n.workAt w)).sum

variable {w}

theorem sum_map_congr_off {f g : κ → ℕ} {cs : List κ} (h : ∀ x, x ≠ c → f x = g x)
    (hc : c ∉ cs) : (cs.map f).sum = (cs.map g).sum := by
  have : cs.map f = cs.map g := by
    apply List.map_congr_left
    intro x hx
    exact h x fun he => hc (he ▸ hx)
  rw [this]

theorem sum_map_change {f g : κ → ℕ} {cs : List κ} (h : ∀ x, x ≠ c → f x = g x) (hn : cs.Nodup)
    (hc : c ∈ cs) : (cs.map f).sum + g c = (cs.map g).sum + f c := by
  induction cs with
  | nil => cases hc
  | cons x cs ih =>
    obtain ⟨hx, hn⟩ := List.nodup_cons.mp hn
    simp only [List.map_cons, List.sum_cons]
    by_cases hxc : x = c
    · subst hxc
      rw [sum_map_congr_off h hx]
      omega
    · have hcs : c ∈ cs := by simpa [Ne.symm hxc] using hc
      have := ih hn hcs
      rw [h x hxc]
      omega

section Steps

variable [DecidableEq κ]

theorem work_push (cs : List κ) (hn : cs.Nodup) (n : Net κ μ ε σ) (c : κ) (msg : μ) :
    (n.push c msg).work w cs ≤ n.work w cs + w c := by
  have hoff : ∀ x, x ≠ c → (n.push c msg).workAt w x = n.workAt w x := by
    intro x hx
    simp [workAt, push, hx]
  have hon : (n.push c msg).workAt w c = n.workAt w c + w c := by
    simp only [workAt, push, Function.update_self, List.length_append, List.length_singleton,
      Nat.add_mul, Nat.one_mul]
    omega
  unfold work
  by_cases hc : c ∈ cs
  · have := sum_map_change hoff hn hc
    omega
  · rw [sum_map_congr_off hoff hc]
    omega

theorem work_pop {cs : List κ} (hn : cs.Nodup) (hc : c ∈ cs) {msg : μ} {rest : List μ}
    (hq : n.queue c = msg :: rest) :
    (n.pop c msg rest).work w cs + w c = n.work w cs := by
  have hoff : ∀ x, x ≠ c → (n.pop c msg rest).workAt w x = n.workAt w x := by
    intro x hx
    simp [workAt, pop, hx]
  have hon : n.workAt w c = (n.pop c msg rest).workAt w c + w c := by
    simp only [workAt, pop, Function.update_self, hq, List.length_cons, Nat.add_mul, Nat.one_mul]
    omega
  have := sum_map_change hoff hn hc
  unfold work
  omega

theorem work_call {cs : List κ} (hn : cs.Nodup) (hc : c ∈ cs) {m : Net κ μ ε σ}
    (hq : m.queue = n.queue) {call : Option (Call κ μ ε σ)}
    (hm : m.call = Function.update n.call c call) :
    m.work w cs + callWork w (n.call c) = n.work w cs + callWork w call := by
  have hoff : ∀ x, x ≠ c → m.workAt w x = n.workAt w x := by
    intro x hx
    simp [workAt, hq, hm, hx]
  have hon : m.workAt w c + callWork w (n.call c) =
      n.workAt w c + callWork w call := by
    simp only [workAt, hq, hm, Function.update_self]
    omega
  have := sum_map_change hoff hn hc
  unfold work
  omega

theorem work_take {cs : List κ} (hn : cs.Nodup) (hc : c ∈ cs) (ht : n.take c = some t) :
    t.work w cs ≤ n.work w cs := by
  obtain ⟨msg, rest, hq, rfl⟩ := take_cases ht
  have := work_pop (w := w) hn hc hq
  omega

theorem work_accept {cs : List κ} (hn : cs.Nodup) (hc : c ∈ cs)
    (ht : n.accept receive c = some t)
    (hlt : ∀ msg rest, n.call c = none → n.queue c = msg :: rest →
      (receive (n.proc c) msg).work w < w c) :
    t.work w cs < n.work w cs := by
  obtain ⟨msg, rest, hidle, hq, rfl⟩ := accept_cases ht
  have hpop := work_pop (w := w) hn hc hq
  have hcall := work_call (w := w) (n := n.pop c msg rest)
    (m := { n.pop c msg rest with
      call := Function.update n.call c (some (receive (n.proc c) msg)) }) hn hc rfl rfl
  have := hlt msg rest hidle hq
  simp only [pop, hidle, callWork, Option.map_none, Option.map_some, Option.getD_none,
    Option.getD_some] at hcall hpop ⊢
  omega

theorem work_advance {cs : List κ} (hn : cs.Nodup) (hc : c ∈ cs) (ht : n.advance cap c = some t) :
    t.work w cs < n.work w cs := by
  obtain ⟨dst, msg, rest, hcall, -, rfl⟩ | ⟨b, hcall, rfl⟩ := advance_cases ht
  · have hpush := work_push (w := w) cs hn n dst msg
    have := work_call (w := w) (n := n.push dst msg) (m := n.sent c dst msg rest)
      hn hc rfl rfl
    simp only [push, hcall, callWork, Option.map_some, Option.getD_some, Call.work_send]
      at this hpush
    omega
  · have := work_call (w := w) (n := n) (m := n.finished c b) hn hc rfl rfl
    simp only [hcall, callWork, Option.map_some, Option.map_none, Option.getD_some,
      Option.getD_none, Call.work_done] at this
    omega

end Steps

end Work

end ChannelExecutor.Lib.Net
