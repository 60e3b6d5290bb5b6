import ChannelExecutor.ChannelInvariant

set_option autoImplicit false

namespace ChannelExecutor.ChannelSystem

open Lib Lib.WaitSet

section Log

variable {α κ : Type} [DecidableEq κ]

def msgsOf (k : κ) (log : List (κ × α)) : List α := (log.filter (fun e => e.1 = k)).map Prod.snd

@[simp] theorem msgsOf_nil (k : κ) : msgsOf k ([] : List (κ × α)) = [] := rfl

@[simp] theorem msgsOf_append (k : κ) (log log' : List (κ × α)) :
    msgsOf k (log ++ log') = msgsOf k log ++ msgsOf k log' := by
  simp [msgsOf]

@[simp] theorem msgsOf_singleton (k j : κ) (m : α) :
    msgsOf k [(j, m)] = if j = k then [m] else [] := by
  by_cases h : j = k <;> simp [msgsOf, h]

theorem mem_msgsOf {k : κ} {log : List (κ × α)} {m : α} : m ∈ msgsOf k log ↔ (k, m) ∈ log := by
  simp [msgsOf]

end Log

variable {α : Type}

def heldBy (f : SendFuture α) : Option α :=
  match f.point with
  | .trying msg => some msg
  | _ => f.msg

def takenBy (f : RecvFuture α) : Option α :=
  match f.point with
  | .notifying msg | .ready (.ok msg) => some msg
  | _ => none

def held (s : State α) : Origin → Option α
  | .send i => (sendFuts s)[i]?.bind heldBy
  | .trySend _ => none

def handedBack (s : State α) : Origin → Option α
  | .send _ => none
  | .trySend j =>
    match s.history.trySends[j]? with
    | some (.error (.full msg)) | some (.error (.disconnected msg)) => some msg
    | _ => none

def received (s : State α) : Receipt → Option α
  | .recv i => (recvFuts s)[i]?.bind takenBy
  | .tryRecv j =>
    match s.history.tryRecvs[j]? with
    | some (.ok msg) => some msg
    | _ => none

def submissions (s : State α) : Origin → ℕ
  | .send i => if i < (sendFuts s).length then 1 else 0
  | .trySend j => if j < s.history.trySends.length then 1 else 0

structure Accounted (s : State α) : Prop where
  once : ∀ o, (msgsOf o s.history.submitted).length = submissions s o
  places : ∀ o, msgsOf o s.history.submitted =
    msgsOf o s.history.enqueued ++ (held s o).toList ++ (handedBack s o).toList
  receipts : ∀ r, msgsOf r s.history.handedOut = (received s r).toList
  fifo : s.history.enqueued.map Prod.snd = s.history.handedOut.map Prod.snd ++ s.chan.inner.queue

section Steps

variable {s t : State α} {i : ℕ}

theorem held_set {f g : SendFuture α} (hg : (sendFuts s)[i]? = some g)
    (ht : sendFuts t = (sendFuts s).set i f) (o : Origin) :
    held t o = if o = .send i then heldBy f else held s o := by
  cases o with
  | send j =>
    simp only [held, ht, getElem?_set_some hg, Origin.send.injEq]
    split <;> rfl
  | trySend j => rfl

theorem received_set {f g : RecvFuture α} (hg : (recvFuts s)[i]? = some g)
    (ht : recvFuts t = (recvFuts s).set i f) (hh : t.history.tryRecvs = s.history.tryRecvs)
    (r : Receipt) : received t r = if r = .recv i then takenBy f else received s r := by
  cases r with
  | recv j =>
    simp only [received, ht, getElem?_set_some hg, Receipt.recv.injEq]
    split <;> rfl
  | tryRecv j => simp [received, hh]

theorem handedBack_congr (h : t.history.trySends = s.history.trySends) : handedBack t = handedBack s := by
  funext o
  cases o with
  | send i => rfl
  | trySend j => simp only [handedBack, h]

theorem submissions_congr (hlen : (sendFuts t).length = (sendFuts s).length)
    (h : t.history.trySends.length = s.history.trySends.length) : submissions t = submissions s := by
  funext o
  cases o with
  | send i => simp only [submissions, hlen]
  | trySend j => simp only [submissions, h]

theorem Accounted.of_same (hs : Accounted s) (hh : t.history = s.history)
    (hq : t.chan.inner.queue = s.chan.inner.queue)
    (hlen : (sendFuts t).length = (sendFuts s).length) (hheld : ∀ o, held t o = held s o)
    (hrecv : ∀ r, received t r = received s r) : Accounted t := by
  have hsub : submissions t = submissions s := submissions_congr hlen (by rw [hh])
  have hback : handedBack t = handedBack s := handedBack_congr (by rw [hh])
  constructor
  case once =>
    intro o
    rw [hh, hsub]
    exact hs.once o
  case places =>
    intro o
    rw [hh, hheld, hback]
    exact hs.places o
  case receipts =>
    intro r
    rw [hh, hrecv]
    exact hs.receipts r
  case fifo =>
    rw [hh, hq]
    exact hs.fifo

theorem Accounted.push (hs : Accounted s) {f g : SendFuture α} {msg : α}
    (hg : (sendFuts s)[i]? = some g) (hmsg : heldBy g = some msg) (hf : heldBy f = none)
    (ht : sendFuts t = (sendFuts s).set i f) (hr : recvFuts t = recvFuts s)
    (hh : t.history = s.history.push (.send i) msg)
    (hq : t.chan.inner.queue = s.chan.inner.queue ++ [msg]) : Accounted t := by
  have hsub : submissions t = submissions s := submissions_congr (by simp [ht]) (by rw [hh]; rfl)
  have hback : handedBack t = handedBack s := handedBack_congr (by rw [hh]; rfl)
  have hrecv : received t = received s := by
    funext r
    cases r <;> simp [received, hr, hh, History.push]
  constructor
  case once =>
    intro o
    rw [hh, hsub]
    exact hs.once o
  case places =>
    intro o
    have hheld : held s (.send i) = some msg := by simp [held, hg, hmsg]
    rw [hh, hback, held_set hg ht]
    simp only [History.push, msgsOf_append, msgsOf_singleton]
    by_cases ho : o = .send i
    · simp [ho, hs.places (.send i), hheld, hf]
    · simp [ho, Ne.symm ho, hs.places o]
  case receipts =>
    intro r
    rw [hh, hrecv]
    exact hs.receipts r
  case fifo =>
    simp [hh, History.push, hq, hs.fifo]

theorem Accounted.pop (hs : Accounted s) {f g : RecvFuture α} {msg : α}
    (hg : (recvFuts s)[i]? = some g) (hnone : takenBy g = none) (hf : takenBy f = some msg)
    (ht : recvFuts t = (recvFuts s).set i f) (hsend : sendFuts t = sendFuts s)
    (hh : t.history = s.history.pop (.recv i) msg)
    (hq : s.chan.inner.queue = msg :: t.chan.inner.queue) : Accounted t := by
  have hsub : submissions t = submissions s := submissions_congr (by rw [hsend]) (by rw [hh]; rfl)
  have hback : handedBack t = handedBack s := handedBack_congr (by rw [hh]; rfl)
  have hheld : held t = held s := by
    funext o
    cases o <;> simp [held, hsend]
  constructor
  case once =>
    intro o
    rw [hh, hsub]
    exact hs.once o
  case places =>
    intro o
    rw [hh, hback, hheld]
    exact hs.places o
  case receipts =>
    intro r
    have hr : received s (.recv i) = none := by simp [received, hg, hnone]
    rw [hh, received_set hg ht (by rw [hh]; rfl)]
    simp only [History.pop, msgsOf_append, msgsOf_singleton]
    by_cases ho : r = .recv i
    · simp [ho, hs.receipts (.recv i), hr, hf]
    · simp [ho, Ne.symm ho, hs.receipts r]
  case fifo =>
    simp [hh, History.pop, hs.fifo, hq]

theorem Accounted.unused (hs : Accounted s) {o : Origin} (h : submissions s o = 0) :
    msgsOf o s.history.submitted = [] ∧ msgsOf o s.history.enqueued = [] ∧
      held s o = none ∧ handedBack s o = none := by
  have hnil : msgsOf o s.history.submitted = [] := List.eq_nil_of_length_eq_zero (h ▸ hs.once o)
  have hp := hs.places o
  rw [hnil] at hp
  exact ⟨hnil, by simpa using hp⟩

theorem getElem?_concat {β : Type} (l : List β) (x : β) (j : ℕ) :
    (l ++ [x])[j]? = if j = l.length then some x else l[j]? := by
  rw [List.getElem?_append]
  split
  next hlt => rw [if_neg (by omega)]
  next hge =>
    split
    next hj => simp [hj]
    next hj => rw [List.getElem?_eq_none (by simp; omega), List.getElem?_eq_none (by omega)]

theorem held_append {f : SendFuture α} (ht : sendFuts t = sendFuts s ++ [f]) (o : Origin) :
    held t o = if o = .send (sendFuts s).length then heldBy f else held s o := by
  cases o with
  | trySend j => rfl
  | send j =>
    simp only [held, ht, Origin.send.injEq, getElem?_concat]
    split <;> rfl

theorem Accounted.submit (hs : Accounted s) (msg : α)
    (ht : sendFuts t = sendFuts s ++ [.new msg]) (hr : recvFuts t = recvFuts s)
    (hh : t.history = { s.history with
      submitted := s.history.submitted ++ [(.send (sendFuts s).length, msg)] })
    (hq : t.chan.inner.queue = s.chan.inner.queue) : Accounted t := by
  have hback : handedBack t = handedBack s := handedBack_congr (by rw [hh])
  have hrecv : received t = received s := by
    funext r
    cases r <;> simp [received, hr, hh]
  constructor
  case once =>
    intro o
    have := hs.once o
    simp only [hh, msgsOf_append, msgsOf_singleton, List.length_append]
    cases o with
    | trySend j => simpa [submissions, hh] using this
    | send j =>
      simp only [submissions, ht, List.length_append, List.length_singleton, Origin.send.injEq] at this ⊢
      rw [this]
      split <;> split <;> split <;> simp_all <;> omega
  case places =>
    intro o
    rw [hh, hback, held_append ht]
    simp only [msgsOf_append, msgsOf_singleton]
    by_cases ho : o = .send (sendFuts s).length
    · obtain ⟨hsub, henq, -, hnb⟩ := hs.unused (o := o) (by simp [ho, submissions])
      simp [← ho, hsub, henq, hnb, heldBy, SendFuture.new]
    · simp [ho, Ne.symm ho, hs.places o]
  case receipts =>
    intro r
    rw [hh, hrecv]
    exact hs.receipts r
  case fifo =>
    rw [hh, hq]
    exact hs.fifo

theorem Accounted.trySend (hs : Accounted s) (msg : α) (full : Bool)
    (ht : sendFuts t = sendFuts s) (hr : recvFuts t = recvFuts s)
    (hh : t.history = { s.history with
      submitted := s.history.submitted ++ [(.trySend s.history.trySends.length, msg)]
      enqueued := s.history.enqueued ++
        (if full then [] else [(.trySend s.history.trySends.length, msg)])
      trySends := s.history.trySends ++ [if full then .error (.full msg) else .ok ()] })
    (hq : t.chan.inner.queue = s.chan.inner.queue ++ (if full then [] else [msg])) :
    Accounted t := by
  have hheld : held t = held s := by
    funext o
    cases o <;> simp [held, ht]
  have hrecv : received t = received s := by
    funext r
    cases r <;> simp [received, hr, hh]
  constructor
  case once =>
    intro o
    have := hs.once o
    simp only [hh, msgsOf_append, msgsOf_singleton, List.length_append]
    cases o with
    | send i => simpa [submissions, ht] using this
    | trySend j =>
      simp only [submissions, hh, List.length_append, List.length_singleton, Origin.trySend.injEq]
        at this ⊢
      rw [this]
      split <;> split <;> split <;> simp_all <;> omega
  case places =>
    intro o
    have hback : handedBack t o = if o = .trySend s.history.trySends.length
        then (if full then some msg else none) else handedBack s o := by
      cases o with
      | send i => rfl
      | trySend j =>
        simp only [handedBack, hh, Origin.trySend.injEq, getElem?_concat]
        by_cases hj : j = s.history.trySends.length
        · cases full <;> simp [hj]
        · simp [hj]
    rw [hback, hheld, hh]
    simp only [msgsOf_append, msgsOf_singleton]
    by_cases ho : o = .trySend s.history.trySends.length
    · obtain ⟨hsub, henq, hnh, -⟩ := hs.unused (o := o) (by simp [ho, submissions])
      cases full <;> simp [← ho, hsub, henq, hnh]
    · cases full <;> simp [ho, Ne.symm ho, hs.places o]
  case receipts =>
    intro r
    rw [hh, hrecv]
    exact hs.receipts r
  case fifo =>
    cases full <;> simp [hh, hq, hs.fifo]

theorem Accounted.tryRecv (hs : Accounted s) (got : Option α)
    (ht : sendFuts t = sendFuts s) (hr : recvFuts t = recvFuts s)
    (hh : t.history = { s.history with
      handedOut := s.history.handedOut ++
        got.toList.map (Prod.mk (.tryRecv s.history.tryRecvs.length))
      tryRecvs := s.history.tryRecvs ++ [match got with
        | some msg => .ok msg
        | none => .error .empty] })
    (hq : s.chan.inner.queue = got.toList ++ t.chan.inner.queue) : Accounted t := by
  have hsub : submissions t = submissions s := submissions_congr (by rw [ht]) (by rw [hh])
  have hback : handedBack t = handedBack s := handedBack_congr (by rw [hh])
  have hheld : held t = held s := by
    funext o
    cases o <;> simp [held, ht]
  constructor
  case once =>
    intro o
    rw [hh, hsub]
    exact hs.once o
  case places =>
    intro o
    rw [hh, hback, hheld]
    exact hs.places o
  case receipts =>
    intro r
    have hrecv : received t r = if r = .tryRecv s.history.tryRecvs.length then got else received s r := by
      cases r with
      | recv i => simp [received, hr]
      | tryRecv j =>
        simp only [received, hh, Receipt.tryRecv.injEq, getElem?_concat]
        by_cases hj : j = s.history.tryRecvs.length
        · cases got <;> simp [hj]
        · simp [hj]
    have hold : received s (.tryRecv s.history.tryRecvs.length) = none := by simp [received]
    rw [hrecv, hh]
    by_cases ho : r = .tryRecv s.history.tryRecvs.length
    · cases got <;> simp [ho, hs.receipts, hold]
    · cases got <;> simp [ho, Ne.symm ho, hs.receipts]
  case fifo =>
    cases got <;> simp_all [hs.fifo]

theorem Accounted.keepSend (hs : Accounted s) {f g : SendFuture α} (hg : (sendFuts s)[i]? = some g)
    (hf : heldBy f = heldBy g) (ht : sendFuts t = (sendFuts s).set i f) (hr : recvFuts t = recvFuts s)
    (hh : t.history = s.history) (hq : t.chan.inner.queue = s.chan.inner.queue) : Accounted t := by
  refine hs.of_same hh hq (by simp [ht]) (fun o => ?_) (fun r => ?_)
  · rw [held_set hg ht]
    split
    next ho => simp [ho, held, hg, hf]
    next => rfl
  · cases r <;> simp [received, hr, hh]

theorem Accounted.keepRecv (hs : Accounted s) {f g : RecvFuture α} (hg : (recvFuts s)[i]? = some g)
    (hf : takenBy f = takenBy g) (ht : recvFuts t = (recvFuts s).set i f) (hr : sendFuts t = sendFuts s)
    (hh : t.history = s.history) (hq : t.chan.inner.queue = s.chan.inner.queue) : Accounted t := by
  refine hs.of_same hh hq (by rw [hr]) (fun o => ?_) (fun r => ?_)
  · cases o <;> simp [held, hr]
  · rw [received_set hg ht (by rw [hh])]
    split
    next ho => simp [ho, received, hg, hf]
    next => rfl

theorem Accounted.stepSend (hs : Accounted s) (hi : Inv s) {d : Driven (SendFuture α)}
    {ch : Channel α Ticket} {f : SendFuture α} {e : Effect α Ticket} (hd : s.sends[i]? = some d)
    (hl : d.dropped = false) (hf : d.fut.Does s.chan ⟨i, d.polls⟩ ch f e) :
    Accounted ((({ s with chan := ch }).putSend i { d with fut := f }).afterSend i e) := by
  have hload := hi.loaded d (List.mem_of_getElem? hd)
  have hload' := (sendFuture_move hi hd hl hf).1
  have hg : (sendFuts s)[i]? = some d.fut := by simp [sendFuts, hd]
  have hset : ∀ e : Effect α Ticket, sendFuts ((({ s with chan := ch }).putSend i
      { d with fut := f }).afterSend i e) = (sendFuts s).set i f := by
    intro e
    rw [sendFuts_afterSend]
    exact List.map_set
  have hr : ∀ e : Effect α Ticket, recvFuts ((({ s with chan := ch }).putSend i
      { d with fut := f }).afterSend i e) = recvFuts s := recvFuts_afterSend _ _
  cases hf with
  | push hp hfull hq hcap hc =>
    have hnone : d.fut.msg = none := by simpa [Loaded, hp] using hload
    exact hs.push hg (by simp [heldBy, hp]) (by simpa [heldBy] using hnone) (hset _) (hr _) rfl hq
  | unwrap hp hm => simp [Loaded] at hload'
  | vacant hp hm hk hrm => simp [Loaded] at hload'
  | begin hp hm hk => exact hs.keepSend hg (by simp [heldBy, hp, hm]) (hset _) (hr _) rfl rfl
  | release hp hm hk hrm => exact hs.keepSend hg (by simp [heldBy, hp, hm]) (hset _) (hr _) rfl rfl
  | full hp hfull => exact hs.keepSend hg (by simp [heldBy, hp]) (hset _) (hr _) rfl rfl
  | register hp hrm => exact hs.keepSend hg (by simp [heldBy, hp]) (hset _) (hr _) rfl rfl
  | sleep hp hfull => exact hs.keepSend hg (by simp [heldBy, hp]) (hset _) (hr _) rfl rfl
  | retry hp hfull => exact hs.keepSend hg (by simp [heldBy, hp]) (hset _) (hr _) rfl rfl
  | notify hp => exact hs.keepSend hg (by simp [heldBy, hp]) (hset _) (hr _) rfl rfl

theorem Accounted.stepRecv (hs : Accounted s) {d : Driven (RecvFuture α)}
    {ch : Channel α Ticket} {f : RecvFuture α} {e : Effect α Ticket} (hd : s.recvs[i]? = some d)
    (hf : d.fut.Does s.chan ⟨i, d.polls⟩ ch f e) :
    Accounted ((({ s with chan := ch }).putRecv i { d with fut := f }).afterRecv i e) := by
  have hg : (recvFuts s)[i]? = some d.fut := by simp [recvFuts, hd]
  have hset : ∀ e : Effect α Ticket, recvFuts ((({ s with chan := ch }).putRecv i
      { d with fut := f }).afterRecv i e) = (recvFuts s).set i f := by
    intro e
    rw [recvFuts_afterRecv]
    exact List.map_set
  have hr : ∀ e : Effect α Ticket, sendFuts ((({ s with chan := ch }).putRecv i
      { d with fut := f }).afterRecv i e) = sendFuts s := sendFuts_afterRecv _ _
  cases hf with
  | pop hp hq hcap hc => exact hs.pop hg (by simp [takenBy, hp]) rfl (hset _) (hr _) rfl hq
  | begin hp hk => exact hs.keepRecv hg (by simp [takenBy, hp]) (hset _) (hr _) rfl rfl
  | release hp hk hrm => exact hs.keepRecv hg (by simp [takenBy, hp]) (hset _) (hr _) rfl rfl
  | vacant hp hk hrm => exact hs.keepRecv hg (by simp [takenBy, hp]) (hset _) (hr _) rfl rfl
  | empty hp hq => exact hs.keepRecv hg (by simp [takenBy, hp]) (hset _) (hr _) rfl rfl
  | register hp hrm => exact hs.keepRecv hg (by simp [takenBy, hp]) (hset _) (hr _) rfl rfl
  | sleep hp hq => exact hs.keepRecv hg (by simp [takenBy, hp]) (hset _) (hr _) rfl rfl
  | retry hp hq => exact hs.keepRecv hg (by simp [takenBy, hp]) (hset _) (hr _) rfl rfl
  | notify hp => exact hs.keepRecv hg (by simp [takenBy, hp]) (hset _) (hr _) rfl rfl

theorem Accounted.step {a : Act α} (hs : Accounted s) (hi : Inv s) (h : Does s a t) :
    Accounted t := by
  cases h with
  | @send handle msg hh => exact hs.submit msg (by simp [sendFuts, Driven.new]) rfl (by simp [sendFuts]) rfl
  | recv hh =>
    refine hs.of_same rfl rfl rfl (fun o => by cases o <;> rfl) (fun r => ?_)
    cases r with
    | tryRecv j => rfl
    | recv j =>
      simp only [received, recvFuts, List.map_append, List.map_cons, List.map_nil, getElem?_concat]
      split
      next hj => simp [hj, Driven.new, RecvFuture.new, takenBy]
      next => rfl
  | @pollSend i d hd hl hp =>
    refine hs.keepSend (i := i) (g := d.fut) (by simp [sendFuts, hd]) ?_ List.map_set rfl rfl rfl
    rcases hp with hp | hp <;> simp [heldBy, hp]
  | @pollRecv i d hd hl hp =>
    refine hs.keepRecv (i := i) (g := d.fut) (by simp [recvFuts, hd]) ?_ List.map_set rfl rfl rfl
    rcases hp with hp | hp <;> simp [takenBy, hp]
  | stepSend hd hl hf => exact hs.stepSend hi hd hl hf
  | stepRecv hd hl hf => exact hs.stepRecv hd hf
  | @dropSend i d hd hl hp =>
    exact hs.keepSend (i := i) (g := d.fut) (f := d.fut) (by simp [sendFuts, hd]) rfl List.map_set
      rfl rfl rfl
  | @dropRecv i d hd hl hp =>
    exact hs.keepRecv (i := i) (g := d.fut) (f := d.fut) (by simp [recvFuts, hd]) rfl List.map_set
      rfl rfl rfl
  | @trySendOk handle msg inner hh hfull hq hcap hc =>
    exact hs.trySend msg false rfl rfl (by simp) (by simp [hq])
  | @trySendFull handle msg hh hfull => exact hs.trySend msg true rfl rfl (by simp) (by simp)
  | @tryRecvOk handle msg inner hh hq hcap hc => exact hs.tryRecv (some msg) rfl rfl rfl hq
  | tryRecvEmpty hh hq => exact hs.tryRecv none rfl rfl (by simp) rfl
  | _ => exact hs.of_same rfl rfl rfl (fun o => by cases o <;> rfl) (fun r => by cases r <;> rfl)

theorem accounted_start (chan : Channel α Ticket) (h : chan.inner.queue = []) :
    Accounted (ChannelSystem.start chan) := by
  refine ⟨fun o => ?_, fun o => ?_, fun r => ?_, by simp [ChannelSystem.start, h]⟩
  · cases o <;> simp [submissions, ChannelSystem.start, sendFuts]
  · cases o <;> simp [held, handedBack, ChannelSystem.start, sendFuts]
  · cases r <;> simp [received, ChannelSystem.start, recvFuts]

theorem reaches_accounted {cap : Option ℕ} {ok : State α → Act α → Prop}
    (h : (system cap).ReachableBy ok s) : Inv s ∧ Accounted s := by
  refine h.invariant (I := fun s => Inv s ∧ Accounted s) ⟨inv_start cap, accounted_start _ ?_⟩ ?_
  · cases cap <;> rfl
  · exact fun s a t hI _ hstep => ⟨step_inv hI.1 hstep, hI.2.step hI.1 (step_does hI.1.connected hstep)⟩

end Steps

end ChannelExecutor.ChannelSystem
