import ChannelExecutor.ChannelInvariant

set_option autoImplicit false

namespace ChannelExecutor.ChannelSystem

open Lib Lib.WaitSet

variable {α : Type}

def NoSender (s : State α) : Prop := true ∉ s.senders

def anythingBut (b : Act α) (_ : State α) (a : Act α) : Prop := a ≠ b

structure PollReturns (cap : Option ℕ) (s : State α) (i : ℕ) (r : Except RecvError α) : Prop where
  finishes : ∃ t f, (system cap).Reaches (anythingBut (.pollRecv i)) s t ∧
    (recvFuts t)[i]? = some f ∧ f.point.stage.inPoll = false
  returns : ∀ t f, (system cap).Reaches (anythingBut (.pollRecv i)) s t →
    (recvFuts t)[i]? = some f → f.point.stage.inPoll = false → f.point = .ready r

def due (queue : List α) : Except RecvError α :=
  match queue with
  | msg :: _ => .ok msg
  | [] => .error .recvError

def Returning (msg : α) (f : RecvFuture α) : Prop :=
  f.point = .notifying msg ∨ f.point = .ready (.ok msg)

theorem Returning.step {s t : State α} {a : Act α} {i : ℕ} {msg : α} (h : Does s a t)
    (hr : ∃ f, (recvFuts s)[i]? = some f ∧ Returning msg f) :
    ∃ f, (recvFuts t)[i]? = some f ∧ Returning msg f := by
  obtain ⟨f, hf, hr⟩ := hr
  rcases h.recvFuts with he | ⟨handle, -, he⟩ | ⟨j, g, -, hg, hp, he⟩ |
    ⟨j, key, d, ch, g, e, -, hd, -, hdoes, he⟩
  · exact ⟨f, he ▸ hf, hr⟩
  · refine ⟨f, ?_, hr⟩
    rw [he, List.getElem?_append_left (List.getElem?_eq_some_iff.mp hf).1, hf]
  · rw [he, getElem?_set_some hg]
    split
    next hj =>
      subst j
      obtain rfl := Option.some.inj (hf.symm.trans hg)
      rcases hr with hr | hr <;> simp [hr] at hp
    next => exact ⟨f, hf, hr⟩
  · have hd' : (recvFuts s)[j]? = some d.fut := by simp [ChannelSystem.recvFuts, hd]
    rw [he, getElem?_set_some hd']
    split
    next hj =>
      subst j
      obtain rfl := Option.some.inj (hf.symm.trans hd')
      refine ⟨g, rfl, ?_⟩
      cases hdoes <;> simp_all [Returning]
    next => exact ⟨f, hf, hr⟩

theorem Returning.reaches {cap : Option ℕ} {ok : State α → Act α → Prop} {s t : State α} {i : ℕ}
    {msg : α} (h : (system cap).Reaches ok s t) (hi : Inv s)
    (hr : ∃ f, (recvFuts s)[i]? = some f ∧ Returning msg f) :
    ∃ f, (recvFuts t)[i]? = some f ∧ Returning msg f :=
  (h.invariant (I := fun s => Inv s ∧ ∃ f, (recvFuts s)[i]? = some f ∧ Returning msg f) ⟨hi, hr⟩
    (fun _ _ _ hI _ hstep =>
      ⟨step_inv hI.1 hstep, Returning.step (step_does hI.1.connected hstep) hI.2⟩)).2

def NoError (s : State α) : Prop := ∀ f ∈ recvFuts s, ∀ e, f.point ≠ .ready (.error e)

theorem NoError.step {s t : State α} {a : Act α} (h : Does s a t) (hn : NoError s) : NoError t := by
  intro f hf e
  rcases h.recvFuts with he | ⟨handle, -, he⟩ | ⟨j, g, -, hg, hp, he⟩ |
    ⟨j, key, d, ch, g, e', -, hd, -, hdoes, he⟩
  · exact hn f (he ▸ hf) e
  · rcases List.mem_append.mp (he ▸ hf) with hf | hf
    · exact hn f hf e
    · rw [List.mem_singleton.mp hf]; simp [RecvFuture.new]
  · rcases List.mem_or_eq_of_mem_set (he ▸ hf) with hf | rfl
    · exact hn f hf e
    · simp
  · have hd' : d.fut ∈ recvFuts s := List.mem_map.mpr ⟨d, List.mem_of_getElem? hd, rfl⟩
    rcases List.mem_or_eq_of_mem_set (he ▸ hf) with hf | rfl
    · exact hn f hf e
    · cases hdoes <;> simp

theorem reaches_noError {cap : Option ℕ} {ok : State α → Act α → Prop} {s : State α}
    (h : (system cap).ReachableBy ok s) : NoError s := by
  refine (h.invariant (I := fun s => Inv s ∧ NoError s) ⟨inv_start cap, ?_⟩ ?_).2
  · simp [NoError, recvFuts, system, start]
  · exact fun s a t hI _ hstep => ⟨step_inv hI.1 hstep, hI.2.step (step_does hI.1.connected hstep)⟩

section Poll

variable {cap : Option ℕ} {s t : State α} {i : ℕ} {d : Driven (RecvFuture α)}

theorem recvFuts_put (hd : s.recvs[i]? = some d) (d' : Driven (RecvFuture α)) :
    (recvFuts (s.putRecv i d'))[i]? = some d'.fut := by
  rw [recvFuts, List.getElem?_map, State.putRecv, getElem?_set_some hd, if_pos rfl]
  rfl

theorem sleeps_on_empty (cap : Option ℕ) (hd : s.recvs[i]? = some d) (hl : d.dropped = false)
    (hp : d.fut.point = .inserting) (hq : s.chan.inner.queue = []) :
    ∃ t f, (system cap).Reaches (anythingBut (.pollRecv i)) s t ∧ (recvFuts t)[i]? = some f ∧
      f.point = .pending := by
  let k := s.chan.recvWakers.slab.slots.length
  have hvacant : s.chan.recvWakers.slab.get k = none := by simp [Slab.get, k]
  let ws : WakerSet Ticket := ⟨s.chan.recvWakers.slab.put k (some (some ⟨i, d.polls⟩))⟩
  have hregister : d.fut.step s.chan ⟨i, d.polls⟩ k =
      some ({ s.chan with recvWakers := ws }, ⟨some k, .checking⟩, .quiet) := by
    simp [RecvFuture.step, hp, WakerSet.insert, Slab.insert, hvacant, ws]
  let s₁ := ({ s with chan := { s.chan with recvWakers := ws } } : State α).putRecv i
    { d with fut := ⟨some k, .checking⟩ }
  have hd₁ : s₁.recvs[i]? = some { d with fut := ⟨some k, .checking⟩ } := by
    change (s.recvs.set i _)[i]? = _
    rw [getElem?_set_some hd, if_pos rfl]
  have hsleep : (⟨some k, .checking⟩ : RecvFuture α).step s₁.chan ⟨i, d.polls⟩ k =
      some (s₁.chan, ⟨some k, .pending⟩, .quiet) := by
    simp [RecvFuture.step, Channel.isEmpty, Crossbeam.isEmpty, Channel.isDisconnected, s₁,
      State.putRecv, hq]
  have hreach : (system cap).Reaches (anythingBut (.pollRecv i)) s _ :=
    .single (a := .stepRecv i k) (by simp [anythingBut]) (stepRecv_eq hd hl hregister)
  exact ⟨_, _, hreach.step (a := .stepRecv i k) (by simp [anythingBut]) (stepRecv_eq hd₁ hl hsleep),
    recvFuts_put hd₁ _, rfl⟩

theorem pollReturns_of_returning (cap : Option ℕ) (hi : Inv s) (hd : s.recvs[i]? = some d) (hl : d.dropped = false)
    {msg : α} (hp : d.fut.point = .notifying msg) : PollReturns cap s i (.ok msg) := by
  have hr : ∃ f, (recvFuts s)[i]? = some f ∧ Returning msg f :=
    ⟨d.fut, by simp [recvFuts, hd], .inl hp⟩
  constructor
  · let ch : Channel α Ticket := { s.chan with sendWakers := s.chan.sendWakers.notify.1 }
    have hnotify : d.fut.step s.chan ⟨i, d.polls⟩ 0 = some (ch, { d.fut with point := .ready (.ok msg) },
        .notified s.chan.sendWakers.notify.2) := by
      simp only [RecvFuture.step, hp, ch]
    refine ⟨_, { d.fut with point := .ready (.ok msg) },
      .single (a := .stepRecv i 0) (by simp [anythingBut]) (stepRecv_eq hd hl hnotify), ?_, rfl⟩
    rw [recvFuts_afterRecv]
    exact recvFuts_put (s := { s with chan := ch }) hd _
  · intro t f hreach hf hout
    obtain ⟨g, hg, hret⟩ := Returning.reaches hreach hi hr
    obtain rfl := Option.some.inj (hf.symm.trans hg)
    rcases hret with hret | hret
    · simp [hret, Point.stage, Stage.inPoll] at hout
    · exact hret

theorem pollReturns_due_iff (hi : Inv s) (hd : s.recvs[i]? = some d)
    (hp : d.fut.point = .trying ()) {key : ℕ} (h : step s (.stepRecv i key) = some t) :
    PollReturns cap t i (due s.chan.inner.queue) ↔ s.chan.inner.queue ≠ [] := by
  have hit := step_inv hi h
  cases step_does hi.connected h with
  | @stepRecv _ _ d' ch f e hd' hl hf =>
    obtain rfl := Option.some.inj (hd.symm.trans hd')
    have hput : ∀ (e : Effect α Ticket),
        ((({ s with chan := ch }).putRecv i { d with fut := f }).afterRecv i e).recvs[i]? =
          some { d with fut := f } := by
      intro e
      simp [State.putRecv, getElem?_set_some hd]
    cases hf with
    | @pop msg inner _ hq hcap hc =>
      refine iff_of_true ?_ (by simp [hq])
      rw [hq]
      exact pollReturns_of_returning cap hit (hput _) hl rfl
    | empty _ hq =>
      refine iff_of_false (fun hret => ?_) (by simp [hq])
      obtain ⟨u, f, hu, hf, hpend⟩ := sleeps_on_empty cap (hput .quiet) hl rfl hq
      have := hret.returns u f hu hf (by simp [hpend, Point.stage, Stage.inPoll])
      simp [hpend] at this
    | _ => simp_all

theorem dropSender_recvs {handle : ℕ} (hi : Inv s) (h : step s (.dropSender handle) = some t) :
    t.recvs = s.recvs := by
  cases step_does hi.connected h
  rfl

end Poll

def RecvAsleep (d : Driven (RecvFuture α)) : Prop :=
  d.fut.point = .pending ∧ d.dropped = false ∧ d.woken = false

/-- Without a `Sender`, a poll returns what is due exactly when it finds a message; the drop of
the last one leaves nobody asleep exactly when nobody slept before; no `recv` ever fails. -/
theorem recv_without_sender (cap : Option ℕ) :
    (∀ (s t : State α) (i key : ℕ) (d : Driven (RecvFuture α)), (system cap).Reachable s →
      NoSender s → s.recvs[i]? = some d → d.fut.point = .trying () →
      step s (.stepRecv i key) = some t →
      (PollReturns cap t i (due s.chan.inner.queue) ↔ s.chan.inner.queue ≠ [])) ∧
    (∀ (s t : State α) (handle : ℕ), (system cap).Reachable s →
      step s (.dropSender handle) = some t → NoSender t →
      ((∀ d ∈ t.recvs, ¬ RecvAsleep d) ↔ ∀ d ∈ s.recvs, ¬ RecvAsleep d)) ∧
    (∀ s : State α, (system cap).Reachable s → ∀ f ∈ recvFuts s, ∀ e, f.point ≠ .ready (.error e)) :=
  ⟨fun _ _ _ _ _ h _ hd hp hstep => pollReturns_due_iff (reaches_inv h).1 hd hp hstep,
    fun _ _ _ h hstep _ => by rw [dropSender_recvs (reaches_inv h).1 hstep],
    fun _ h => reaches_noError h⟩

theorem recv_without_sender_run : ∃ s t : State ℕ, NoSender s ∧ step s (.stepRecv 0 0) = some t ∧
    PollReturns (some 1) t 0 (.ok 7) := by
  let s := ((system (α := ℕ) (some 1)).exec (fun _ _ => true) (start (channel (some 1)))
    [.send 0 7, .pollSend 0, .stepSend 0 0, .stepSend 0 0, .stepSend 0 0, .dropSender 0,
    .recv 0, .pollRecv 0, .stepRecv 0 0]).get rfl
  have h : (system (some 1)).Reachable s := System.ReachableBy.reachable (System.exec_get _ _ _ _ rfl)
  have hs : NoSender s := (by decide : true ∉ [false])
  have hstep := (Option.some_get (x := step s (.stepRecv 0 0)) rfl).symm
  exact ⟨s, _, hs, hstep, ((recv_without_sender _).1 s _ 0 0 _ h hs rfl rfl hstep).mpr
    (List.cons_ne_nil 7 [])⟩

theorem recv_without_sender_sleeps :
    (∃ s t : State ℕ, (system (some 1)).Reachable s ∧ step s (.dropSender 0) = some t ∧
      NoSender t ∧ ∃ d ∈ t.recvs, RecvAsleep d) ∧
    (∃ s t : State ℕ, (system (some 1)).Reachable s ∧ NoSender s ∧ s.chan.inner.queue = [] ∧
      step s (.stepRecv 0 0) = some t ∧ ¬ PollReturns (some 1) t 0 (due [])) := by
  constructor
  · let s := ((system (α := ℕ) (some 1)).exec (fun _ _ => true) (start (channel (some 1)))
      [.recv 0, .pollRecv 0, .stepRecv 0 0, .stepRecv 0 0, .stepRecv 0 0, .stepRecv 0 0]).get rfl
    have h : (system (some 1)).Reachable s := System.ReachableBy.reachable (System.exec_get _ _ _ _ rfl)
    refine ⟨s, (step s (.dropSender 0)).get rfl, h, (Option.some_get rfl).symm, ?_, ?_⟩
    · exact (by decide : true ∉ [false])
    · exact ⟨_, List.mem_singleton.mpr rfl, rfl, rfl, rfl⟩
  · let s := ((system (α := ℕ) (some 1)).exec (fun _ _ => true) (start (channel (some 1)))
      [.dropSender 0, .recv 0, .pollRecv 0, .stepRecv 0 0]).get rfl
    have h : (system (some 1)).Reachable s := System.ReachableBy.reachable (System.exec_get _ _ _ _ rfl)
    have hstep := (Option.some_get (x := step s (.stepRecv 0 0)) rfl).symm
    refine ⟨s, _, h, (by decide : true ∉ [false]), rfl, hstep, fun hret => ?_⟩
    exact (pollReturns_due_iff (reaches_inv h).1 rfl rfl hstep).mp hret rfl

end ChannelExecutor.ChannelSystem
