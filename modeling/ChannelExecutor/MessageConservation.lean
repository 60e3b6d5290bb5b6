import ChannelExecutor.MessageAccount

set_option autoImplicit false

namespace ChannelExecutor.ChannelSystem

open Lib Lib.WaitSet

variable {α : Type}

inductive Place
  | held
  | queued (pos : ℕ)
  | returned (r : Receipt)
  | handedBack

def Located (s : State α) (o : Origin) (msg : α) : Place → Prop
  | .held => held s o = some msg
  | .queued pos => s.chan.inner.queue[pos]? = some msg ∧
      s.history.enqueued[s.history.handedOut.length + pos]? = some (o, msg)
  | .returned r => received s r = some msg ∧
      ∃ n : ℕ, s.history.enqueued[n]? = some (o, msg) ∧ s.history.handedOut[n]? = some (r, msg)
  | .handedBack => handedBack s o = some msg

theorem index_unique {κ : Type} [DecidableEq κ] {k : κ} {log : List (κ × α)} {a b : α} {m n : ℕ}
    (h : (msgsOf k log).length ≤ 1) (hm : log[m]? = some (k, a)) (hn : log[n]? = some (k, b)) :
    m = n := by
  have no_lt : ∀ {m n : ℕ} {a b : α}, log[m]? = some (k, a) → log[n]? = some (k, b) → ¬ m < n := by
    intro m n a b hm hn hlt
    have htake : a ∈ msgsOf k (log.take n) :=
      mem_msgsOf.mpr (List.mem_of_getElem? (i := m) (by rwa [List.getElem?_take_of_lt hlt]))
    have hdrop : b ∈ msgsOf k (log.drop n) :=
      mem_msgsOf.mpr (List.mem_of_getElem? (i := 0) (by rwa [List.getElem?_drop]))
    rw [← List.take_append_drop n log, msgsOf_append, List.length_append] at h
    have := List.length_pos_of_mem htake
    have := List.length_pos_of_mem hdrop
    omega
  exact Nat.le_antisymm (Nat.le_of_not_lt (no_lt hn hm)) (Nat.le_of_not_lt (no_lt hm hn))

section Account

variable {s : State α} {o : Origin} {msg : α}

theorem Accounted.enqueued_le_one (hs : Accounted s) (o : Origin) :
    (msgsOf o s.history.enqueued).length ≤ 1 := by
  have hone := hs.once o
  rw [hs.places o] at hone
  have hle : submissions s o ≤ 1 := by
    cases o <;> simp only [submissions] <;> split <;> omega
  simp only [List.length_append] at hone
  omega

theorem Accounted.located (hs : Accounted s) {n : ℕ} (hn : s.history.enqueued[n]? = some (o, msg)) :
    ∃ p, Located s o msg p := by
  have hfifo : (s.history.enqueued.map Prod.snd)[n]? = some msg := by simp [hn]
  rw [hs.fifo, List.getElem?_append] at hfifo
  split at hfifo
  next hlt =>
    simp only [List.getElem?_map] at hfifo
    obtain ⟨⟨r, m⟩, he, rfl⟩ := Option.map_eq_some_iff.mp hfifo
    refine ⟨.returned r, ?_, n, hn, he⟩
    have hmem := mem_msgsOf.mpr (List.mem_of_getElem? he)
    rw [hs.receipts r] at hmem
    exact Option.mem_toList.mp hmem
  next hge =>
    simp only [List.length_map] at hfifo hge
    refine ⟨.queued (n - s.history.handedOut.length), hfifo, ?_⟩
    rwa [Nat.add_sub_cancel' (Nat.le_of_not_lt hge)]

theorem Located.enqueued {p : Place} (h : Located s o msg p) :
    p = .held ∨ p = .handedBack ∨ ∃ n : ℕ, s.history.enqueued[n]? = some (o, msg) ∧
      ((∃ r, p = .returned r ∧ s.history.handedOut[n]? = some (r, msg)) ∨
        ∃ pos, p = .queued pos ∧ n = s.history.handedOut.length + pos) := by
  cases p with
  | held => exact .inl rfl
  | handedBack => exact .inr (.inl rfl)
  | queued pos => exact .inr (.inr ⟨_, h.2, .inr ⟨pos, rfl, rfl⟩⟩)
  | returned r =>
    obtain ⟨-, n, hn, hr⟩ := h
    exact .inr (.inr ⟨n, hn, .inl ⟨r, rfl, hr⟩⟩)

theorem Accounted.located_unique (hs : Accounted s) {p q : Place} (hp : Located s o msg p)
    (hq : Located s o msg q) : p = q := by
  have hone : (msgsOf o s.history.enqueued).length + (held s o).toList.length +
      (handedBack s o).toList.length ≤ 1 := by
    have hle : submissions s o ≤ 1 := by
      cases o <;> simp only [submissions] <;> split <;> omega
    have := hs.once o
    simp only [hs.places o, List.length_append] at this
    omega
  have hpos : ∀ n : ℕ, s.history.enqueued[n]? = some (o, msg) →
      0 < (msgsOf o s.history.enqueued).length := fun n hn =>
    List.length_pos_of_mem (mem_msgsOf.mpr (List.mem_of_getElem? hn))
  have hheld : Located s o msg .held → (held s o).toList.length = 1 := by
    intro h
    simp only [Located] at h
    simp [h]
  have hback : Located s o msg .handedBack → (handedBack s o).toList.length = 1 := by
    intro h
    simp only [Located] at h
    simp [h]
  rcases hp.enqueued with rfl | rfl | ⟨n, hn, hpn⟩ <;>
    rcases hq.enqueued with rfl | rfl | ⟨m, hm, hqm⟩
  · rfl
  · have := hheld hp; have := hback hq; omega
  · have := hheld hp; have := hpos m hm; omega
  · have := hback hp; have := hheld hq; omega
  · rfl
  · have := hback hp; have := hpos m hm; omega
  · have := hheld hq; have := hpos n hn; omega
  · have := hback hq; have := hpos n hn; omega
  · obtain rfl := index_unique (hs.enqueued_le_one o) hn hm
    have hlt : ∀ r, s.history.handedOut[n]? = some (r, msg) → n < s.history.handedOut.length :=
      fun r hr => (List.getElem?_eq_some_iff.mp hr).1
    rcases hpn with ⟨r, rfl, hr⟩ | ⟨pos, rfl, hpe⟩ <;> rcases hqm with ⟨r', rfl, hr'⟩ | ⟨pos', rfl, hqe⟩
    · rw [hr] at hr'
      cases hr'
      rfl
    · have := hlt r hr; omega
    · have := hlt r' hr'; omega
    · rw [show pos = pos' by omega]

theorem Accounted.exists_unique_place (hs : Accounted s) (h : (o, msg) ∈ s.history.submitted) :
    ∃! p, Located s o msg p := by
  have hmem := mem_msgsOf.mpr h
  rw [hs.places o, List.mem_append, List.mem_append, Option.mem_toList, Option.mem_toList] at hmem
  obtain ⟨p, hp⟩ : ∃ p, Located s o msg p := by
    rcases hmem with (hmem | hmem) | hmem
    · obtain ⟨n, hn⟩ := List.getElem?_of_mem (mem_msgsOf.mp hmem)
      exact hs.located hn
    · exact ⟨.held, hmem⟩
    · exact ⟨.handedBack, hmem⟩
  exact ⟨p, hp, fun q hq => hs.located_unique hq hp⟩

theorem Accounted.submitted_of_located (hs : Accounted s) {p : Place} (h : Located s o msg p) :
    (o, msg) ∈ s.history.submitted := by
  rw [← mem_msgsOf, hs.places o, List.mem_append, List.mem_append, Option.mem_toList, Option.mem_toList]
  rcases h.enqueued with rfl | rfl | ⟨n, hn, -⟩
  · exact .inl (.inr h)
  · exact .inr h
  · exact .inl (.inl (mem_msgsOf.mpr (List.mem_of_getElem? hn)))

theorem heldBy_loaded {f : SendFuture α} (h : Loaded f) : (heldBy f).toList.length =
    if f.point.stage = .notifying ∨ f.point.stage = .ready then 0 else 1 := by
  obtain ⟨m, k, point⟩ := f
  cases point <;> cases m <;> simp [Loaded, heldBy, Point.stage] at h ⊢

theorem Accounted.enqueued_once (hs : Accounted s) (hi : Inv s) {i : ℕ} {d : Driven (SendFuture α)}
    (hd : s.sends[i]? = some d) : (msgsOf (.send i) s.history.enqueued).length =
      if d.fut.point.stage = .notifying ∨ d.fut.point.stage = .ready then 1 else 0 := by
  have hone := hs.once (.send i)
  have hlen : i < s.sends.length := (List.getElem?_eq_some_iff.mp hd).1
  have hheld : held s (.send i) = heldBy d.fut := by simp [held, sendFuts, hd]
  rw [hs.places (.send i), hheld] at hone
  simp only [submissions, sendFuts, List.length_map, hlen, if_true, handedBack, List.length_append,
    Option.toList_none, List.length_nil, Nat.add_zero] at hone
  have hmsg := heldBy_loaded (hi.loaded d (List.mem_of_getElem? hd))
  rw [hmsg] at hone
  split <;> simp_all

end Account

section Order

variable {s t : State α}

theorem Does.enqueued_grows {a : Act α} (h : Does s a t) : s.history.enqueued <+: t.history.enqueued := by
  cases h with
  | stepSend hd hl hf => cases hf <;> first | exact List.prefix_append _ _ | exact List.prefix_rfl
  | stepRecv hd hl hf => cases hf <;> exact List.prefix_rfl
  | trySendOk hh hfull hq hcap hc => exact List.prefix_append _ _
  | _ => exact List.prefix_rfl

theorem Reaches.enqueued_grows {cap : Option ℕ} {ok : State α → Act α → Prop} (hi : Inv s)
    (h : (system cap).Reaches ok s t) : s.history.enqueued <+: t.history.enqueued :=
  (h.invariant (I := fun t => Inv t ∧ s.history.enqueued <+: t.history.enqueued)
    ⟨hi, List.prefix_rfl⟩ fun _ _ _ hI _ hstep => ⟨step_inv hI.1 hstep,
      hI.2.trans (step_does hI.1.connected hstep).enqueued_grows⟩).2

theorem sent_in_order {cap : Option ℕ} {ok : State α → Act α → Prop}
    (h : (system cap).Reachable s) (hst : (system cap).Reaches ok s t) {i j : ℕ}
    {d : Driven (SendFuture α)} (hd : s.sends[i]? = some d) (hp : d.fut.point.stage = .ready)
    (hj : s.sends.length ≤ j) {m n : ℕ} {a b : α}
    (hm : t.history.enqueued[m]? = some (.send i, a))
    (hn : t.history.enqueued[n]? = some (.send j, b)) : m < n := by
  obtain ⟨hi, hs⟩ := reaches_accounted h
  have hat := (reaches_accounted (Relation.ReflTransGen.trans h (hst.mono fun _ _ _ => trivial))).2
  obtain ⟨rest, hrest⟩ := Reaches.enqueued_grows hi hst
  have hold : ∀ {k : ℕ} {e : Origin × α}, s.history.enqueued[k]? = some e →
      t.history.enqueued[k]? = some e := fun {k e} hk => by
    rw [← hrest, List.getElem?_append_left (List.getElem?_eq_some_iff.mp hk).1, hk]
  have hml : m < s.history.enqueued.length := by
    have hone := hs.enqueued_once hi hd
    rw [if_pos (.inr hp)] at hone
    obtain ⟨c, hc⟩ := List.exists_mem_of_length_pos (hone ▸ Nat.one_pos)
    obtain ⟨k, hk⟩ := List.getElem?_of_mem (mem_msgsOf.mp hc)
    rw [index_unique (hat.enqueued_le_one (.send i)) hm (hold hk)]
    exact (List.getElem?_eq_some_iff.mp hk).1
  have hnl : s.history.enqueued.length ≤ n := by
    by_contra hlt
    rw [← hrest, List.getElem?_append_left (by omega)] at hn
    have hnone := (hs.unused (o := .send j) (by simp [submissions, sendFuts]; omega)).2.1
    have := mem_msgsOf.mpr (List.mem_of_getElem? hn)
    simp [hnone] at this
  omega

end Order

theorem messages_conserved {cap : Option ℕ} {s : State α} (h : (system cap).Reachable s) :
    (∀ o msg, (o, msg) ∈ s.history.submitted → ∃! p, Located s o msg p) ∧
    (∀ o msg p, Located s o msg p → (o, msg) ∈ s.history.submitted) ∧
    (∀ (i : ℕ) (d : Driven (SendFuture α)), s.sends[i]? = some d →
      (msgsOf (.send i) s.history.enqueued).length =
        if d.fut.point.stage = .notifying ∨ d.fut.point.stage = .ready then 1 else 0) ∧
    s.history.enqueued.map Prod.snd = s.history.handedOut.map Prod.snd ++ s.chan.inner.queue ∧
    (∀ (t : State α) (i j m n : ℕ) (d : Driven (SendFuture α)) (a b : α),
      (system cap).Reaches System.Anything s t → s.sends[i]? = some d →
      d.fut.point.stage = .ready → s.sends.length ≤ j →
      t.history.enqueued[m]? = some (.send i, a) → t.history.enqueued[n]? = some (.send j, b) →
      m < n) ∧
    (∀ c, cap = some c → s.chan.inner.queue.length ≤ c) ∧
    (∀ d ∈ s.sends, d.fut.point ≠ .panicked) := by
  obtain ⟨hi, hs⟩ := reaches_accounted h
  refine ⟨fun o msg hm => hs.exists_unique_place hm, fun o msg p hp => hs.submitted_of_located hp,
    fun i d hd => hs.enqueued_once hi hd, hs.fifo, ?_, ?_, ?_⟩
  · exact fun t i j m n d a b hst hd hp hj hm hn => sent_in_order h hst hd hp hj hm hn
  · rintro c rfl
    exact s.chan.inner.fits c (reaches_inv h).2
  · intro d hd hp
    simpa [Loaded, hp] using hi.loaded d hd

theorem messages_conserved_run : ∃ s : State ℕ,
    s.history.submitted = [(.send 0, 7), (.send 1, 8), (.trySend 0, 9)] ∧
    s.history.handedOut = [(.tryRecv 0, 7)] ∧ s.chan.inner.queue = [8] ∧
    ∀ o msg, (o, msg) ∈ s.history.submitted → ∃! p, Located s o msg p :=
  have h := System.exec_get (system (α := ℕ) (some 1)) (fun _ _ => true) (start (channel (some 1)))
    [.send 0 7, .send 0 8, .pollSend 0, .stepSend 0 0,
    .stepSend 0 0, .stepSend 0 0, .tryRecv 0, .pollSend 1, .stepSend 1 0, .stepSend 1 0,
    .trySend 0 9] rfl
  ⟨_, rfl, rfl, rfl, (messages_conserved (System.ReachableBy.reachable h)).1⟩

end ChannelExecutor.ChannelSystem
