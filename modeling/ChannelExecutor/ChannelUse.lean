import ChannelExecutor.Disconnection
import ChannelExecutor.Linearization
import ChannelExecutor.LostWakeups

set_option autoImplicit false

namespace ChannelExecutor.ChannelSystem

open Lib Lib.WaitSet

variable {α : Type}

structure Shift (s t : State α) (put got : List α) : Prop where
  queue : s.chan.inner.queue ++ put = got ++ t.chan.inner.queue
  enqueued : t.history.enqueued.map Prod.snd = s.history.enqueued.map Prod.snd ++ put
  handedOut : t.history.handedOut.map Prod.snd = s.history.handedOut.map Prod.snd ++ got

structure Touches (s t : State α) (o r : Option ℕ) : Prop where
  sends : s.sends.length ≤ t.sends.length
  recvs : s.recvs.length ≤ t.recvs.length
  held : ∀ i < s.sends.length, o ≠ some i → held t (.send i) = held s (.send i)
  received : ∀ i < s.recvs.length, r ≠ some i → received t (.recv i) = received s (.recv i)

def Act.isHandle : Act α → Bool
  | .cloneSender _ | .cloneReceiver _ | .dropSender _ | .dropReceiver _ => true
  | _ => false

section Steps

variable {s t : State α} {i : ℕ}

theorem Shift.of_same (hq : t.chan.inner.queue = s.chan.inner.queue)
    (he : t.history.enqueued = s.history.enqueued) (hh : t.history.handedOut = s.history.handedOut) :
    Shift s t [] [] := by
  constructor
  case queue => simp [hq]
  case enqueued => simp [he]
  case handedOut => simp [hh]

theorem Touches.of_set_send {o r : Option ℕ} {f g : SendFuture α} (hg : (sendFuts s)[i]? = some g)
    (ht : sendFuts t = (sendFuts s).set i f) (hr : recvFuts t = recvFuts s)
    (hf : o = some i ∨ heldBy f = heldBy g) : Touches s t o r := by
  have hlen : t.sends.length = s.sends.length := by
    simpa [sendFuts] using congrArg List.length ht
  have hlen' : t.recvs.length = s.recvs.length := by
    simpa [recvFuts] using congrArg List.length hr
  constructor
  case sends => exact Nat.le_of_eq hlen.symm
  case recvs => exact Nat.le_of_eq hlen'.symm
  case held =>
    intro j _ hj
    rw [held_set hg ht]
    split
    next heq =>
      cases heq
      rcases hf with hf | hf
      · exact absurd hf hj
      · simp [ChannelSystem.held, hg, hf]
    next => rfl
  case received =>
    intro j _ _
    simp [ChannelSystem.received, hr]

theorem Touches.of_set_recv {o r : Option ℕ} {f g : RecvFuture α} (hg : (recvFuts s)[i]? = some g)
    (ht : recvFuts t = (recvFuts s).set i f) (hs : sendFuts t = sendFuts s)
    (hf : r = some i ∨ takenBy f = takenBy g) : Touches s t o r := by
  have hlen : t.recvs.length = s.recvs.length := by
    simpa [recvFuts] using congrArg List.length ht
  have hlen' : t.sends.length = s.sends.length := by
    simpa [sendFuts] using congrArg List.length hs
  constructor
  case sends => exact Nat.le_of_eq hlen'.symm
  case recvs => exact Nat.le_of_eq hlen.symm
  case held =>
    intro j _ _
    simp [ChannelSystem.held, hs]
  case received =>
    intro j _ hj
    simp only [ChannelSystem.received, ht, getElem?_set_some hg]
    split
    next heq =>
      subst heq
      rcases hf with hf | hf
      · exact absurd hf hj
      · simp [hg, hf]
    next => rfl

theorem Touches.of_futs {o r : Option ℕ} (hs : sendFuts t = sendFuts s) (hr : recvFuts t = recvFuts s) :
    Touches s t o r := by
  have hlen : t.sends.length = s.sends.length := by simpa [sendFuts] using congrArg List.length hs
  have hlen' : t.recvs.length = s.recvs.length := by simpa [recvFuts] using congrArg List.length hr
  constructor
  case sends => exact Nat.le_of_eq hlen.symm
  case recvs => exact Nat.le_of_eq hlen'.symm
  case held =>
    intro j _ _
    simp [ChannelSystem.held, hs]
  case received =>
    intro j _ _
    simp [ChannelSystem.received, hr]

theorem Does.created_send {handle : ℕ} {msg : α} (h : Does s (.send handle msg) t) :
    Shift s t [] [] ∧ Touches s t none none ∧ t.sends.length = s.sends.length + 1 ∧
      held t (.send s.sends.length) = some msg := by
  cases h with
  | send hh =>
    refine ⟨.of_same rfl rfl rfl, ?_, by simp, ?_⟩
    · constructor
      case sends => simp
      case recvs => exact Nat.le_refl _
      case held =>
        intro j hj _
        rw [held_append (s := s) (f := .new msg) (by simp [sendFuts, Driven.new])]
        rw [if_neg (by simp [sendFuts, Nat.ne_of_lt hj])]
      case received => exact fun _ _ _ => rfl
    · rw [held_append (s := s) (f := .new msg) (by simp [sendFuts, Driven.new]), if_pos (by simp [sendFuts])]
      rfl

theorem Does.created_recv {handle : ℕ} (h : Does s (.recv handle) t) :
    Shift s t [] [] ∧ Touches s t none none ∧ t.recvs.length = s.recvs.length + 1 ∧
      received t (.recv s.recvs.length) = none := by
  cases h with
  | recv hh =>
    refine ⟨.of_same rfl rfl rfl, ?_, by simp, ?_⟩
    · constructor
      case sends => exact Nat.le_refl _
      case recvs => simp
      case held => exact fun _ _ _ => rfl
      case received =>
        intro j hj _
        simp [ChannelSystem.received, ChannelSystem.recvFuts, List.getElem?_append_left, hj]
    · simp [received, ChannelSystem.recvFuts, Driven.new, RecvFuture.new, takenBy]

inductive SendMoves (s t : State α) (i : ℕ) : Prop
  | quiet (hs : Shift s t [] []) (ht : Touches s t none none)
  | put (msg : α) (hmsg : held s (.send i) = some msg) (hfull : s.chan.inner.isFull = false)
      (hs : Shift s t [msg] []) (ht : Touches s t (some i) none) (hgone : held t (.send i) = none)

inductive RecvMoves (s t : State α) (i : ℕ) : Prop
  | quiet (hs : Shift s t [] []) (ht : Touches s t none none)
  | got (msg : α) (hnone : received s (.recv i) = none) (hs : Shift s t [] [msg])
      (ht : Touches s t none (some i)) (htaken : received t (.recv i) = some msg)

theorem Does.polled_send (h : Does s (.pollSend i) t) : SendMoves s t i := by
  cases h with
  | @pollSend i d hd hl hp =>
    refine .quiet (.of_same rfl rfl rfl) ?_
    refine .of_set_send (i := i) (g := d.fut) (by simp [sendFuts, hd]) List.map_set rfl (.inr ?_)
    rcases hp with hp | hp <;> simp [heldBy, hp]

theorem Does.polled_recv (h : Does s (.pollRecv i) t) : RecvMoves s t i := by
  cases h with
  | @pollRecv i d hd hl hp =>
    refine .quiet (.of_same rfl rfl rfl) ?_
    refine .of_set_recv (i := i) (g := d.fut) (by simp [ChannelSystem.recvFuts, hd]) List.map_set rfl (.inr ?_)
    rcases hp with hp | hp <;> simp [takenBy, hp]

theorem Does.stepped_send {key : ℕ} (h : Does s (.stepSend i key) t) (hi : Inv s) :
    SendMoves s t i := by
  cases h with
  | @stepSend i key d ch f e hd hl hf =>
    have hload := hi.loaded d (List.mem_of_getElem? hd)
    have hload' := (sendFuture_move hi hd hl hf).1
    have hg : (sendFuts s)[i]? = some d.fut := by simp [sendFuts, hd]
    have hset : sendFuts ((({ s with chan := ch }).putSend i { d with fut := f }).afterSend i e) =
        (sendFuts s).set i f := by
      rw [sendFuts_afterSend]
      exact List.map_set
    have hr : ChannelSystem.recvFuts ((({ s with chan := ch }).putSend i { d with fut := f }).afterSend i e) =
        ChannelSystem.recvFuts s := recvFuts_afterSend _ _ _
    have hquiet : heldBy f = heldBy d.fut → ch.inner.queue = s.chan.inner.queue →
        ((({ s with chan := ch }).putSend i { d with fut := f }).afterSend i e).history = s.history →
        SendMoves s ((({ s with chan := ch }).putSend i { d with fut := f }).afterSend i e) i := by
      intro hheld hq hh
      refine .quiet (.of_same ?_ (by rw [hh]) (by rw [hh])) (.of_set_send hg hset hr (.inr hheld))
      rw [afterSend_chan]
      exact hq
    cases hf with
    | @push msg inner hp hfull hq hcap hc =>
      have hnone : d.fut.msg = none := by simpa [Loaded, hp] using hload
      refine .put msg (by simp [held, hg, heldBy, hp]) hfull ?_ (.of_set_send hg hset hr (.inl rfl)) ?_
      · constructor
        case queue => simp [State.afterSend, State.putSend, hq]
        case enqueued => simp [State.afterSend, State.putSend, History.push]
        case handedOut => simp [State.afterSend, State.putSend, History.push]
      · rw [held_set hg hset, if_pos rfl]
        simpa [heldBy] using hnone
    | unwrap hp hm => simp [Loaded] at hload'
    | vacant hp hm hk hrm => simp [Loaded] at hload'
    | begin hp hm hk => exact hquiet (by simp [heldBy, hp, hm]) rfl rfl
    | release hp hm hk hrm => exact hquiet (by simp [heldBy, hp, hm]) rfl rfl
    | full hp hfull => exact hquiet (by simp [heldBy, hp]) rfl rfl
    | register hp hrm => exact hquiet (by simp [heldBy, hp]) rfl rfl
    | sleep hp hfull => exact hquiet (by simp [heldBy, hp]) rfl rfl
    | retry hp hfull => exact hquiet (by simp [heldBy, hp]) rfl rfl
    | notify hp => exact hquiet (by simp [heldBy, hp]) rfl rfl

theorem Does.stepped_recv {key : ℕ} (h : Does s (.stepRecv i key) t) : RecvMoves s t i := by
  cases h with
  | @stepRecv i key d ch f e hd hl hf =>
    have hg : (ChannelSystem.recvFuts s)[i]? = some d.fut := by simp [ChannelSystem.recvFuts, hd]
    have hset : ChannelSystem.recvFuts ((({ s with chan := ch }).putRecv i { d with fut := f }).afterRecv i e) =
        (ChannelSystem.recvFuts s).set i f := by
      rw [recvFuts_afterRecv]
      exact List.map_set
    have hr : sendFuts ((({ s with chan := ch }).putRecv i { d with fut := f }).afterRecv i e) =
        sendFuts s := sendFuts_afterRecv _ _ _
    have hquiet : takenBy f = takenBy d.fut → ch.inner.queue = s.chan.inner.queue →
        ((({ s with chan := ch }).putRecv i { d with fut := f }).afterRecv i e).history = s.history →
        RecvMoves s ((({ s with chan := ch }).putRecv i { d with fut := f }).afterRecv i e) i := by
      intro htaken hq hh
      refine .quiet (.of_same ?_ (by rw [hh]) (by rw [hh])) (.of_set_recv hg hset hr (.inr htaken))
      rw [afterRecv_chan]
      exact hq
    cases hf with
    | @pop msg inner hp hq hcap hc =>
      refine .got msg (by simp [received, hg, takenBy, hp]) ?_ (.of_set_recv hg hset hr (.inl rfl)) ?_
      · constructor
        case queue => simp [State.afterRecv, State.putRecv, hq]
        case enqueued => simp [State.afterRecv, State.putRecv, History.pop]
        case handedOut => simp [State.afterRecv, State.putRecv, History.pop]
      · simp only [received, hset, getElem?_set_some hg, if_pos, Option.bind_some]
        rfl
    | begin hp hk => exact hquiet (by simp [takenBy, hp]) rfl rfl
    | release hp hk hrm => exact hquiet (by simp [takenBy, hp]) rfl rfl
    | vacant hp hk hrm => exact hquiet (by simp [takenBy, hp]) rfl rfl
    | empty hp hq => exact hquiet (by simp [takenBy, hp]) rfl rfl
    | register hp hrm => exact hquiet (by simp [takenBy, hp]) rfl rfl
    | sleep hp hq => exact hquiet (by simp [takenBy, hp]) rfl rfl
    | retry hp hq => exact hquiet (by simp [takenBy, hp]) rfl rfl
    | notify hp => exact hquiet (by simp [takenBy, hp]) rfl rfl

theorem Does.tried_recv {handle : ℕ} (h : Does s (.tryRecv handle) t) (hi : Inv s) :
    Touches s t none none ∧
      ((∃ msg, s.chan.tryRecv.2 = .ok msg ∧ Shift s t [] [msg]) ∨
        (∃ e, s.chan.tryRecv.2 = .error e ∧ Shift s t [] [])) := by
  cases h with
  | @tryRecvOk handle msg inner hh hq hcap hc =>
    refine ⟨.of_futs rfl rfl, .inl ⟨msg, ?_, ?_⟩⟩
    · rcases Crossbeam.tryRecv_cases hi.connected with ⟨hnil, -⟩ | ⟨msg', c, hr, hq', -⟩
      · simp [hnil] at hq
      · obtain ⟨rfl, -⟩ := List.cons.inj (hq.symm.trans hq')
        rw [Channel.tryRecv, hr]
    · constructor
      case queue => simp [hq]
      case enqueued => simp
      case handedOut => simp
  | tryRecvEmpty hh hq =>
    refine ⟨.of_futs rfl rfl, .inr ⟨.empty, ?_, .of_same rfl rfl rfl⟩⟩
    rcases Crossbeam.tryRecv_cases hi.connected with ⟨-, hr⟩ | ⟨msg, c, -, hq', -⟩
    · rw [Channel.tryRecv, hr]
    · simp [hq] at hq'

theorem Does.handled {a : Act α} (h : Does s a t) (ha : a.isHandle = true) :
    Shift s t [] [] ∧ Touches s t none none := by
  cases h with
  | cloneSender => exact ⟨.of_same rfl rfl rfl, .of_futs rfl rfl⟩
  | cloneReceiver => exact ⟨.of_same rfl rfl rfl, .of_futs rfl rfl⟩
  | dropSender => exact ⟨.of_same rfl rfl rfl, .of_futs rfl rfl⟩
  | dropReceiver => exact ⟨.of_same rfl rfl rfl, .of_futs rfl rfl⟩
  | _ => cases ha

structure Leaves (s t : State α) (o r : Option ℕ) : Prop where
  sends : ∀ j, o ≠ some j → (sendFuts t)[j]? = (sendFuts s)[j]?
  recvs : ∀ j, r ≠ some j → (recvFuts t)[j]? = (recvFuts s)[j]?

def Act.sendOf (s : State α) : Act α → Option ℕ
  | .send _ _ => some s.sends.length
  | .pollSend i | .stepSend i _ => some i
  | _ => none

def Act.recvOf (s : State α) : Act α → Option ℕ
  | .recv _ => some s.recvs.length
  | .pollRecv i | .stepRecv i _ => some i
  | _ => none

inductive DrivesSend (i : ℕ) : Act α → Prop
  | poll : DrivesSend i (.pollSend i)
  | step {key : ℕ} : DrivesSend i (.stepSend i key)

inductive DrivesRecv (i : ℕ) : Act α → Prop
  | poll : DrivesRecv i (.pollRecv i)
  | step {key : ℕ} : DrivesRecv i (.stepRecv i key)

theorem getElem?_append_ne {β : Type} (l : List β) (x : β) {j : ℕ} (h : l.length ≠ j) :
    (l ++ [x])[j]? = l[j]? := by
  rw [List.getElem?_append]
  split
  next => rfl
  next hle =>
    rw [List.getElem?_eq_none (by simp; omega), List.getElem?_eq_none (by omega)]

theorem Does.leaves {a : Act α} (h : Does s a t) : Leaves s t (a.sendOf s) (a.recvOf s) := by
  constructor
  case sends =>
    intro j hj
    cases h with
    | send hh =>
      have hlen : (sendFuts s).length ≠ j := by simpa [sendFuts, Act.sendOf] using hj
      simpa [sendFuts] using getElem?_append_ne (sendFuts s) _ hlen
    | @pollSend i d hd hl hp =>
      have hne : i ≠ j := by simpa [Act.sendOf] using hj
      simp [sendFuts, State.putSend, List.map_set, List.getElem?_set_ne hne]
    | @stepSend i key d ch f e hd hl hf =>
      have hne : i ≠ j := by simpa [Act.sendOf] using hj
      rw [sendFuts_afterSend]
      simp [sendFuts, State.putSend, List.map_set, List.getElem?_set_ne hne]
    | stepRecv hd hl hf =>
      rw [sendFuts_afterRecv]
      rfl
    | dropSend hd hl hp => exact congrArg (fun fs => fs[j]?) (set_futs hd rfl)
    | _ => rfl
  case recvs =>
    intro j hj
    cases h with
    | recv hh =>
      have hlen : (ChannelSystem.recvFuts s).length ≠ j := by
        simpa [ChannelSystem.recvFuts, Act.recvOf] using hj
      simpa [ChannelSystem.recvFuts] using getElem?_append_ne (ChannelSystem.recvFuts s) _ hlen
    | @pollRecv i d hd hl hp =>
      have hne : i ≠ j := by simpa [Act.recvOf] using hj
      simp [ChannelSystem.recvFuts, State.putRecv, List.map_set, List.getElem?_set_ne hne]
    | @stepRecv i key d ch f e hd hl hf =>
      have hne : i ≠ j := by simpa [Act.recvOf] using hj
      rw [recvFuts_afterRecv]
      simp [ChannelSystem.recvFuts, State.putRecv, List.map_set, List.getElem?_set_ne hne]
    | stepSend hd hl hf =>
      rw [recvFuts_afterSend]
      rfl
    | dropRecv hd hl hp => exact congrArg (fun fs => fs[j]?) (set_futs hd rfl)
    | _ => rfl

theorem DrivesSend.moves {a : Act α} (ha : DrivesSend i a) (h : Does s a t) (hi : Inv s) :
    SendMoves s t i := by
  cases ha with
  | poll => exact h.polled_send
  | step => exact h.stepped_send hi

theorem DrivesRecv.moves {a : Act α} (ha : DrivesRecv i a) (h : Does s a t) : RecvMoves s t i := by
  cases ha with
  | poll => exact h.polled_recv
  | step => exact h.stepped_recv

theorem DrivesSend.leaves {a : Act α} (ha : DrivesSend i a) (h : Does s a t) :
    Leaves s t (some i) none := by
  cases ha with
  | poll => exact h.leaves
  | step => exact h.leaves

theorem DrivesRecv.leaves {a : Act α} (ha : DrivesRecv i a) (h : Does s a t) :
    Leaves s t none (some i) := by
  cases ha with
  | poll => exact h.leaves
  | step => exact h.leaves

theorem Does.handles {a : Act α} (h : Does s a t) (ha : a.isHandle = false) :
    t.senders = s.senders ∧ t.receivers = s.receivers := by
  cases h with
  | @stepSend i key d ch f e => cases e <;> exact ⟨rfl, rfl⟩
  | @stepRecv i key d ch f e => cases e <;> exact ⟨rfl, rfl⟩
  | cloneSender => cases ha
  | cloneReceiver => cases ha
  | dropSender => cases ha
  | dropReceiver => cases ha
  | _ => exact ⟨rfl, rfl⟩

theorem held_of_ready (hi : Inv s) {f : SendFuture α} (hf : (sendFuts s)[i]? = some f)
    (hp : f.point = .ready ()) : held s (.send i) = none := by
  obtain ⟨d, hd, rfl⟩ : ∃ d, s.sends[i]? = some d ∧ d.fut = f := by simpa [sendFuts] using hf
  have hload := hi.loaded d (List.mem_of_getElem? hd)
  simpa [held, hf, heldBy, hp, Loaded] using hload

end Steps

/-- No future is dropped and no message enters without a notify. -/
def Act.isMild : Act α → Bool
  | .dropSend _ | .dropRecv _ | .trySend _ _ => false
  | _ => true

def sparesSleepers (s : State α) : Act α → Bool
  | .tryRecv _ => s.chan.isEmpty || s.sends.all fun d => d.fut.point.stage ≠ .pending || d.woken
  | _ => true

/-- A sleeping receiver is owed a wake for all messages, and no future is dropped. -/
structure Attended (s : State α) : Prop where
  recvs : (recvSide s).Balanced (messages s.chan.inner) (sendDebts s)
  sendsKept : ∀ d ∈ s.sends, d.dropped = false
  recvsKept : ∀ d ∈ s.recvs, d.dropped = false

def Relieved (s : State α) : Prop := (sendSide s).Balanced (freeSlots s.chan.inner) (recvDebts s)

section Wakeups

variable {s t : State α} {a : Act α}

theorem isHandle_cases (ha : a.isHandle = true) :
    a.sendOf s = none ∧ a.recvOf s = none ∧ a.isMild = true ∧ sparesSleepers s a = true := by
  cases a <;> first | exact ⟨rfl, rfl, rfl, rfl⟩ | cases ha

theorem attended_start (cap : Option ℕ) : Attended (start (channel cap) : State α) := by
  constructor
  case recvs =>
    rintro ⟨i, x, hx, -⟩
    simp [recvSide, start] at hx
  case sendsKept => simp [start]
  case recvsKept => simp [start]

theorem relieved_start (cap : Option ℕ) : Relieved (start (channel cap) : State α) := by
  rintro ⟨i, x, hx, -⟩
  simp [sendSide, start] at hx

theorem kept_set {φ : Type} {ds : List (Driven φ)} {i : ℕ} {x d : Driven φ}
    (h : ∀ d ∈ ds, d.dropped = false) (hd : d ∈ ds.set i x) (hx : x.dropped = false) :
    d.dropped = false := by
  rcases List.mem_or_eq_of_mem_set hd with hd | rfl
  · exact h d hd
  · exact hx

theorem kept_append {φ : Type} {ds : List (Driven φ)} {fut : φ} {handle : ℕ} {d : Driven φ}
    (h : ∀ d ∈ ds, d.dropped = false) (hd : d ∈ ds ++ [.new fut handle]) : d.dropped = false := by
  rcases List.mem_append.mp hd with hd | hd
  · exact h d hd
  · rw [List.mem_singleton.mp hd]
    rfl

theorem Does.kept (h : Does s a t) (ha : a.isMild = true) (hs : Attended s) :
    (∀ d ∈ t.sends, d.dropped = false) ∧ ∀ d ∈ t.recvs, d.dropped = false := by
  obtain ⟨-, hsends, hrecvs⟩ := hs
  cases h with
  | send hh => exact ⟨fun d hd => kept_append hsends hd, hrecvs⟩
  | recv hh => exact ⟨hsends, fun d hd => kept_append hrecvs hd⟩
  | pollSend hd hl hp => exact ⟨fun d hd => kept_set hsends hd hl, hrecvs⟩
  | pollRecv hd hl hp => exact ⟨hsends, fun d hd => kept_set hrecvs hd hl⟩
  | stepSend hd hl hf =>
    constructor
    · intro d hd
      rw [afterSend_sends] at hd
      exact kept_set hsends hd hl
    · intro d hd
      obtain ⟨d', hd', -, hdrop⟩ := mem_afterSend_recvs hd
      exact hdrop.trans (hrecvs d' hd')
  | stepRecv hd hl hf =>
    constructor
    · intro d hd
      obtain ⟨d', hd', -, hdrop⟩ := mem_afterRecv_sends hd
      exact hdrop.trans (hsends d' hd')
    · intro d hd
      rw [afterRecv_recvs] at hd
      exact kept_set hrecvs hd hl
  | dropSend => cases ha
  | dropRecv => cases ha
  | _ => exact ⟨hsends, hrecvs⟩

theorem Does.attended (h : Does s a t) (hi : Inv s) (ha : a.isMild = true) (hs : Attended s) :
    Attended t := by
  obtain ⟨hsends, hrecvs⟩ := h.kept ha hs
  obtain ⟨c, hc, -, -, hgift⟩ := h.recvTurn hi
  refine ⟨hc.balanced hi.recvOwned ?_ hs.recvs, hsends, hrecvs⟩
  rintro rfl
  obtain ⟨handle, msg, rfl⟩ := hgift rfl
  cases ha

theorem Does.relieved (h : Does s a t) (hi : Inv s) (ha : sparesSleepers s a = true)
    (hs : Relieved s) : Relieved t := by
  obtain ⟨c, hc, -, -, hgift⟩ := h.sendTurn hi
  refine hc.balanced_of_gift hi.sendOwned ?_ hs
  rintro rfl i x hx ⟨hp, hw, -⟩
  obtain ⟨handle, msg, rest, rfl, hq⟩ := hgift rfl
  obtain ⟨d, hd, rfl⟩ := sendSide_some hx
  have hempty : s.chan.isEmpty = false := by simp [Channel.isEmpty, Crossbeam.isEmpty, hq]
  simp only [sparesSleepers, hempty, Bool.false_or, List.all_eq_true] at ha
  have hd := ha d (List.mem_of_getElem? hd)
  change d.fut.point.stage = .pending at hp
  change d.woken = false at hw
  simp [hp, hw] at hd

theorem Attended.empty (h : Attended s) (hi : Inv s) (hq : Quiescent s)
    {d : Driven (RecvFuture α)} (hd : d ∈ s.recvs) (hp : d.fut.point = .pending) :
    s.chan.inner.queue = [] := by
  have hb := h.recvs
  rw [hq.sendDebts] at hb
  obtain ⟨i, hget⟩ := List.getElem?_of_mem hd
  have hclean : (recvSide s).Clean := by
    intro j x hx hdrop
    obtain ⟨d', hd', rfl⟩ := recvSide_some hx
    have hkept := h.recvsKept d' (List.mem_of_getElem? hd')
    exact absurd hdrop (by simp [recvWaiter, hkept])
  have := hb.no_tokens hi.recvOwned hclean hq.recvSide (recvSide_get hget)
    (by simp [recvWaiter, hp, Point.stage]) (h.recvsKept d hd)
  simpa [messages] using this

theorem Relieved.full (h : Relieved s) (hs : Attended s) (hi : Inv s) (hq : Quiescent s) {cap : ℕ}
    (hcap : s.chan.inner.cap = some cap) {d : Driven (SendFuture α)} (hd : d ∈ s.sends)
    (hp : d.fut.point = .pending) : cap ≤ s.chan.inner.queue.length := by
  rw [Relieved, hq.recvDebts] at h
  obtain ⟨i, hget⟩ := List.getElem?_of_mem hd
  have hclean : (sendSide s).Clean := by
    intro j x hx hdrop
    obtain ⟨d', hd', rfl⟩ := sendSide_some hx
    have hkept := hs.sendsKept d' (List.mem_of_getElem? hd')
    exact absurd hdrop (by simp [sendWaiter, hkept])
  have hfree := h.no_tokens hi.sendOwned hclean hq.sendSide (sendSide_get hget)
    (by simp [sendWaiter, hp, Point.stage]) (hs.sendsKept d hd)
  simp only [freeSlots, hcap, Option.getD_some] at hfree
  omega

end Wakeups

end ChannelExecutor.ChannelSystem
