import ChannelExecutor.ForwarderSteps
import ChannelExecutor.SequenceValidation

set_option autoImplicit false

namespace ChannelExecutor.Experiment

open Lib (Call)
open Lib.Net (feed feed_cons feed_append)

variable {κ : Type}

def added (msgs : List (TestMessage κ)) : List (TestMessageSender κ) :=
  msgs.filterMap fun
    | .addSender sender => some sender
    | _ => none

@[simp] theorem added_nil : added ([] : List (TestMessage κ)) = [] := rfl

@[simp] theorem added_append (msgs msgs' : List (TestMessage κ)) :
    added (msgs ++ msgs') = added msgs ++ added msgs' := List.filterMap_append

@[simp] theorem added_addSender (sender : TestMessageSender κ) (msgs : List (TestMessage κ)) :
    added (.addSender sender :: msgs) = sender :: added msgs := rfl

@[simp] theorem added_notify (sender : TestMessageSender κ) (n : ℕ) (msgs : List (TestMessage κ)) :
    added (.notify sender n :: msgs) = added msgs := rfl

@[simp] theorem added_testData (seq : ℕ) (msgs : List (TestMessage κ)) :
    added (.testData seq :: msgs) = added msgs := rfl

theorem ForwarderKind.sends_chan (k : ForwarderKind) (sender : TestMessageSender κ)
    (cmd : TestMessage κ) : ∀ p ∈ (k.send sender cmd).sends, p.1 = sender.chan := by
  cases k with
  | sync => cases sender <;> simp [ForwarderKind.send, sendCmd, TestMessageSender.chan]
  | async => cases sender <;> simp [ForwarderKind.send, sendCmdAsync, TestMessageSender.chan]

namespace Forwarder

section Sent

variable {send : TestMessageSender κ → TestMessage κ → Sending κ Unit}
variable {other : Forwarder κ → TestMessage κ → Sending κ (Forwarder κ)} {f g : Forwarder κ}

/-- What one data message for each of the senders sends, numbered from `n` on. A sender of another
flavour may send nothing, and has its number all the same. -/
def sentFrom (send : TestMessageSender κ → TestMessage κ → Sending κ Unit) :
    List (TestMessageSender κ) → ℕ → List (κ × TestMessage κ)
  | [], _ => []
  | sender :: senders, n => (send sender (.testData n)).sends ++ sentFrom send senders (n + 1)

theorem forward_sends (hf : f.forwardingMultiplier = 1) {sender : TestMessageSender κ}
    (h : (forward send f sender).result = .ok g) : g = { f with sendCount := f.sendCount + 1 } ∧
      (forward send f sender).sends = (send sender (.testData f.sendCount)).sends := by
  have hforward : forward send f sender =
      send sender (.testData f.sendCount) >>= fun _ =>
        .done { f with sendCount := f.sendCount + 1 } := by
    simp [forward, hf, List.range_succ]
  rw [hforward] at h ⊢
  obtain ⟨u, hu, hg⟩ := Call.bind_ok_iff.mp h
  refine ⟨(Except.ok.inj hg).symm, ?_⟩
  rw [Call.sends_bind hu, Call.sends_done, List.append_nil]

theorem foldlM_forward_sends (hf : f.forwardingMultiplier = 1) {senders : List (TestMessageSender κ)}
    (h : (senders.foldlM (forward send) f).result = .ok g) :
    g = { f with sendCount := f.sendCount + senders.length } ∧
      (senders.foldlM (forward send) f).sends = sentFrom send senders f.sendCount := by
  induction senders generalizing f with
  | nil =>
    obtain rfl : f = g := Except.ok.inj h
    exact ⟨rfl, rfl⟩
  | cons sender senders ih =>
    rw [List.foldlM_cons] at h ⊢
    obtain ⟨b, hb, hg⟩ := Call.bind_ok_iff.mp h
    obtain ⟨rfl, hsends⟩ := forward_sends hf hb
    obtain ⟨rfl, hrest⟩ := ih (f := { f with sendCount := f.sendCount + 1 }) hf hg
    refine ⟨?_, ?_⟩
    · simp [Nat.add_assoc, Nat.add_comm 1]
    · rw [Call.sends_bind hb, hsends, hrest]
      rfl

theorem receive_data_sends (hf : f.forwardingMultiplier = 1) {seq : ℕ}
    (h : (receiveBy send other f (.testData seq)).result = .ok g) :
    ∃ nextSeq, f.validateSequence (.testData seq) =
        ({ f with receivedCount := f.receivedCount + 1, nextSeq := nextSeq }, .ok (.testData seq)) ∧
      (handleAction send other { f with
        receivedCount := f.receivedCount + 1, nextSeq := nextSeq } (.testData seq)).sends =
          sentFrom send f.senders f.sendCount ∧
      g = notified (forwarded f nextSeq) := by
  simp only [receiveBy, receive, handleConfig] at h
  rcases validateSequence_cases f seq with ⟨nextSeq, hv⟩ | hv
  · rw [hv] at h
    obtain ⟨b, hb, hg⟩ := Call.bind_ok_iff.mp h
    obtain ⟨rfl, hsends⟩ := foldlM_forward_sends (g := b) (by exact hf) hb
    exact ⟨nextSeq, hv, hsends, handleNotification_ok hg⟩
  · rw [hv] at h
    cases h

end Sent

def actionOf (k : ForwarderKind) (f : Forwarder κ) (msg : TestMessage κ) : List (κ × TestMessage κ) :=
  match f.handleConfig msg with
  | .ok _ => []
  | .error msg =>
    match f.validateSequence msg with
    | (f, .ok msg) => (k.handleAction f msg).sends
    | (_, .error _) => []

def actions (k : ForwarderKind) (f : Forwarder κ) : List (TestMessage κ) → List (κ × TestMessage κ)
  | [] => []
  | msg :: msgs =>
    actionOf k f msg ++
      match (k.receive f msg).result with
      | .ok g => actions k g msgs
      | .error _ => []

def datas (k : ForwarderKind) (f : Forwarder κ) : List (TestMessage κ) → List (Forwarder κ)
  | [] => []
  | msg :: msgs =>
    (if msg.seq?.isSome then [f] else []) ++
      match (k.receive f msg).result with
      | .ok g => datas k g msgs
      | .error _ => []

def valuesTo [DecidableEq κ] (k : ForwarderKind) (c : κ) (f : Forwarder κ)
    (msgs : List (TestMessage κ)) : List ℕ := seqs (sendsTo c (actions k f msgs))

def nextCount (f : Forwarder κ) : ℕ :=
  if f.receivedCount + 1 = f.notifyCount then 0 else f.sendCount + f.senders.length

def Numbered : ℕ → List (Forwarder κ) → Prop
  | _, [] => True
  | n, f :: fs => f.sendCount = n ∧ Numbered f.nextCount fs

section Numbering

variable {n seq : ℕ} {fs : List (Forwarder κ)}

def Consecutive (f : Forwarder κ) : Prop :=
  f.senders.length = 1 ∨ f.receivedCount + 1 = f.notifyCount

theorem nextCount_follows_iff {f : Forwarder κ} (hf : f.senders ≠ []) :
    f.nextCount = f.sendCount + 1 ∨ f.nextCount = 0 ↔ Consecutive f := by
  have hpos := List.length_pos_iff.mpr hf
  unfold nextCount Consecutive
  split
  next h => simp [h]
  next h =>
    constructor
    · omega
    · omega

theorem follows_numbers_iff (seq : ℕ) (hfs : ∀ f ∈ fs, f.senders ≠ []) (hn : Numbered n fs)
    (hs : n = seq ∨ n = 0) :
    Follows seq (fs.map sendCount) ↔ ∀ f ∈ fs.dropLast, Consecutive f := by
  induction fs generalizing n seq with
  | nil => simp [Follows]
  | cons f fs ih =>
    obtain ⟨rfl, hrest⟩ := hn
    have hf := hfs f List.mem_cons_self
    cases fs with
    | nil => simpa [Follows] using hs
    | cons f' fs =>
      have hnext : f'.sendCount = f.nextCount := hrest.1
      have htail := fun h => ih (f.sendCount + 1) (fun g hg => hfs g (List.mem_cons_of_mem _ hg))
        hrest h
      rw [List.dropLast_cons_cons, List.forall_mem_cons, ← nextCount_follows_iff hf]
      constructor
      · intro h
        have hjoin : f.nextCount = f.sendCount + 1 ∨ f.nextCount = 0 := by
          rw [← hnext]
          exact h.2.1
        exact ⟨hjoin, (htail hjoin).mp h.2⟩
      · rintro ⟨hjoin, h⟩
        exact ⟨hs, (htail hjoin).mpr h⟩

theorem not_follows_shifted {i : ℕ} (hi : 0 < i) :
    Follows 0 (fs.map fun f => f.sendCount + i) ↔ fs = [] := by
  cases fs with
  | nil => simp [Follows]
  | cons f fs =>
    simp only [List.map_cons, Follows, reduceCtorEq, iff_false]
    omega

end Numbering

section Runs

variable {k : ForwarderKind} {f g : Forwarder κ} {msg : TestMessage κ} {msgs msgs' : List (TestMessage κ)}

theorem actions_cons (hg : (k.receive f msg).result = .ok g) (msgs : List (TestMessage κ)) :
    actions k f (msg :: msgs) = actionOf k f msg ++ actions k g msgs := by
  simp [actions, hg]

theorem datas_cons (hg : (k.receive f msg).result = .ok g) (msgs : List (TestMessage κ)) :
    datas k f (msg :: msgs) = (if msg.seq?.isSome then [f] else []) ++ datas k g msgs := by
  simp [datas, hg]

theorem feed_cons_ok (h : (feed k.receive f (msg :: msgs)).result = .ok g) :
    ∃ b, (k.receive f msg).result = .ok b ∧ (feed k.receive b msgs).result = .ok g := by
  rw [feed_cons] at h
  exact Call.bind_ok_iff.mp h

theorem actions_append (h : (feed k.receive f msgs).result = .ok g) :
    actions k f (msgs ++ msgs') = actions k f msgs ++ actions k g msgs' := by
  induction msgs generalizing f with
  | nil =>
    obtain rfl : f = g := Except.ok.inj h
    rfl
  | cons msg msgs ih =>
    obtain ⟨b, hb, hg⟩ := feed_cons_ok h
    rw [List.cons_append, actions_cons hb, actions_cons hb, ih hg, List.append_assoc]

theorem actionOf_prefix (k : ForwarderKind) (f : Forwarder κ) (msg : TestMessage κ) :
    actionOf k f msg <+: (k.receive f msg).sends := by
  rw [k.receive_eq, actionOf, k.handleAction_eq]
  cases msg with
  | addSender sender => exact List.nil_prefix
  | notify sender n => exact List.nil_prefix
  | testData seq =>
    simp only [receiveBy, receive, handleConfig]
    rcases validateSequence_cases f seq with ⟨nextSeq, hv⟩ | hv
    · rw [hv]
      exact Call.sends_prefix_bind _ _
    · rw [hv]
      exact List.nil_prefix

theorem step_cases (hf : f.forwardingMultiplier = 1) (hg : (k.receive f msg).result = .ok g) :
    (msg.seq? = none ∧ actionOf k f msg = [] ∧ g.senders = f.senders ++ added [msg] ∧
      g.sendCount = f.sendCount) ∨
    (msg.seq?.isSome ∧ actionOf k f msg = sentFrom k.send f.senders f.sendCount ∧
      added [msg] = [] ∧ g.senders = f.senders ∧ g.sendCount = f.nextCount) := by
  rw [k.receive_eq] at hg
  cases msg with
  | addSender sender =>
    obtain rfl : _ = g := Except.ok.inj hg
    exact .inl ⟨rfl, rfl, rfl, rfl⟩
  | notify sender n =>
    obtain rfl : _ = g := Except.ok.inj hg
    exact .inl ⟨rfl, rfl, by simp, rfl⟩
  | testData seq =>
    right
    obtain ⟨nextSeq, hv, hsends, rfl⟩ := receive_data_sends hf hg
    refine ⟨rfl, ?_, rfl, ?_, ?_⟩
    · rw [actionOf]
      simp only [handleConfig, hv, k.handleAction_eq, hsends]
    · unfold notified
      split <;> rfl
    · unfold notified nextCount forwarded
      split <;> rfl

theorem step_senders (hf : f.forwardingMultiplier = 1) (hg : (k.receive f msg).result = .ok g) :
    g.senders = f.senders ++ added [msg] := by
  rcases step_cases hf hg with ⟨-, -, hsenders, -⟩ | ⟨-, -, hnone, hsenders, -⟩
  · exact hsenders
  · rw [hsenders, hnone, List.append_nil]

theorem step_multiplier (hf : f.forwardingMultiplier = 1) (hg : (k.receive f msg).result = .ok g) :
    g.forwardingMultiplier = 1 := by
  rw [k.receive_eq] at hg
  cases msg with
  | addSender sender =>
    obtain rfl : _ = g := Except.ok.inj hg
    exact hf
  | notify sender n =>
    obtain rfl : _ = g := Except.ok.inj hg
    exact hf
  | testData seq =>
    obtain ⟨nextSeq, -, -, rfl⟩ := receive_data_sends hf hg
    unfold notified
    split
    · exact hf
    · exact hf

theorem added_cons (msg : TestMessage κ) (msgs : List (TestMessage κ)) :
    added (msg :: msgs) = added [msg] ++ added msgs :=
  added_append [msg] msgs

theorem feed_senders (hf : f.forwardingMultiplier = 1)
    (hg : (feed k.receive f msgs).result = .ok g) :
    g.forwardingMultiplier = 1 ∧ g.senders = f.senders ++ added msgs := by
  induction msgs generalizing f with
  | nil =>
    obtain rfl : f = g := Except.ok.inj hg
    exact ⟨hf, by simp⟩
  | cons msg msgs ih =>
    obtain ⟨b, hb, hg⟩ := feed_cons_ok hg
    obtain ⟨hg', hsenders⟩ := ih (step_multiplier hf hb) hg
    refine ⟨hg', ?_⟩
    rw [hsenders, step_senders hf hb, added_cons msg msgs, List.append_assoc]

theorem numbered_datas (hf : f.forwardingMultiplier = 1)
    (hg : (feed k.receive f msgs).result = .ok g) : Numbered f.sendCount (datas k f msgs) := by
  induction msgs generalizing f with
  | nil => trivial
  | cons msg msgs ih =>
    obtain ⟨b, hb, hg⟩ := feed_cons_ok hg
    have hrest := ih (step_multiplier hf hb) hg
    rw [datas_cons hb]
    rcases step_cases hf hb with ⟨hseq, -, -, hcount⟩ | ⟨hseq, -, -, -, hcount⟩
    · rw [hcount] at hrest
      simpa [hseq] using hrest
    · rw [hcount] at hrest
      simpa [hseq, Numbered] using hrest

theorem datas_senders (hf : f.forwardingMultiplier = 1)
    (hg : (feed k.receive f msgs).result = .ok g) (hs : f.senders ≠ []) :
    ∀ b ∈ datas k f msgs, b.senders ≠ [] := by
  induction msgs generalizing f with
  | nil => simp [datas]
  | cons msg msgs ih =>
    obtain ⟨b, hb, hg⟩ := feed_cons_ok hg
    have hsenders : b.senders ≠ [] := by simp [step_senders hf hb, hs]
    have hrest := ih (step_multiplier hf hb) hg hsenders
    rw [datas_cons hb]
    intro b' hb'
    rcases List.mem_append.mp hb' with hmem | hmem
    · split at hmem
      next => exact List.mem_singleton.mp hmem ▸ hs
      next => cases hmem
    · exact hrest b' hmem

theorem feed_unsent (hf : f.forwardingMultiplier = 1)
    (hg : (feed k.receive f msgs).result = .ok g) (hs : f.senders = []) (hc : f.sendCount = 0)
    (hadd : added msgs = []) : g.sendCount = 0 := by
  induction msgs generalizing f with
  | nil =>
    obtain rfl : f = g := Except.ok.inj hg
    exact hc
  | cons msg msgs ih =>
    obtain ⟨b, hb, hg⟩ := feed_cons_ok hg
    rw [added_cons msg msgs] at hadd
    obtain ⟨hnone, hrest⟩ := List.append_eq_nil_iff.mp hadd
    apply ih (step_multiplier hf hb) hg ?_ ?_ hrest
    · rw [step_senders hf hb, hs, hnone, List.append_nil]
    · rcases step_cases hf hb with ⟨-, -, -, hcount⟩ | ⟨-, -, -, -, hcount⟩
      · rw [hcount, hc]
      · rw [hcount, nextCount, hs, hc]
        simp

section Values

variable [DecidableEq κ] {c : κ}

theorem sendsTo_absent (k : ForwarderKind) {senders : List (TestMessageSender κ)}
    (h : c ∉ senders.map TestMessageSender.chan) (n : ℕ) : sendsTo c (sentFrom k.send senders n) = [] := by
  induction senders generalizing n with
  | nil => rfl
  | cons sender senders ih =>
    obtain ⟨hne, hrest⟩ : c ≠ sender.chan ∧ c ∉ senders.map TestMessageSender.chan := by simpa using h
    have hnone : sendsTo c (k.send sender (.testData n)).sends = [] := by
      rw [sendsTo, List.map_eq_nil_iff, List.filter_eq_nil_iff]
      intro p hp hpc
      rw [k.sends_chan sender _ p hp, decide_eq_true_eq] at hpc
      exact hne hpc.symm
    rw [sentFrom, sendsTo_append, hnone, ih hrest, List.append_nil]

theorem sendsTo_once {x : TestMessageSender κ} (hx : Deliverable k.send x)
    {before after : List (TestMessageSender κ)} (hb : x.chan ∉ before.map TestMessageSender.chan)
    (ha : x.chan ∉ after.map TestMessageSender.chan) (n : ℕ) :
    sendsTo x.chan (sentFrom k.send (before ++ x :: after) n) = [.testData (n + before.length)] := by
  induction before generalizing n with
  | nil =>
    rw [List.nil_append, sentFrom, sendsTo_append, sendsTo_absent k ha, hx]
    simp
  | cons s before ih =>
    have hone : x.chan ∉ [s].map TestMessageSender.chan := fun h => hb (by simp at h; simp [h])
    have hfirst : sendsTo x.chan (k.send s (.testData n)).sends = [] := by
      have hnone := sendsTo_absent k hone n
      rwa [sentFrom, sentFrom, List.append_nil] at hnone
    rw [List.cons_append, sentFrom, sendsTo_append, hfirst,
      ih (fun h => hb (List.mem_cons_of_mem _ h))]
    simp [Nat.add_assoc, Nat.add_comm 1]

theorem valuesTo_cons (hg : (k.receive f msg).result = .ok g) (msgs : List (TestMessage κ)) :
    valuesTo k c f (msg :: msgs) = seqs (sendsTo c (actionOf k f msg)) ++ valuesTo k c g msgs := by
  rw [valuesTo, actions_cons hg, sendsTo_append, seqs_append, valuesTo]

theorem valuesTo_append (h : (feed k.receive f msgs).result = .ok g) :
    valuesTo k c f (msgs ++ msgs') = valuesTo k c f msgs ++ valuesTo k c g msgs' := by
  rw [valuesTo, actions_append h, sendsTo_append, seqs_append, valuesTo, valuesTo]

theorem valuesTo_absent (hf : f.forwardingMultiplier = 1)
    (hg : (feed k.receive f msgs).result = .ok g)
    (hs : c ∉ f.senders.map TestMessageSender.chan)
    (hadd : c ∉ (added msgs).map TestMessageSender.chan) : valuesTo k c f msgs = [] := by
  induction msgs generalizing f with
  | nil => rfl
  | cons msg msgs ih =>
    obtain ⟨b, hb, hg⟩ := feed_cons_ok hg
    rw [added_cons msg msgs, List.map_append, List.mem_append, not_or] at hadd
    have hrest : c ∉ b.senders.map TestMessageSender.chan := by
      rw [step_senders hf hb, List.map_append, List.mem_append, not_or]
      exact ⟨hs, hadd.1⟩
    rw [valuesTo_cons hb, ih (step_multiplier hf hb) hg hrest
      hadd.2, List.append_nil]
    rcases step_cases hf hb with ⟨-, haction, -, -⟩ | ⟨-, haction, -, -, -⟩
    · rw [haction]
      rfl
    · rw [haction, sendsTo_absent k hs]
      rfl

theorem valuesTo_once {x : TestMessageSender κ} (hx : Deliverable k.send x)
    {before after : List (TestMessageSender κ)} (hf : f.forwardingMultiplier = 1)
    (hg : (feed k.receive f msgs).result = .ok g) (hs : f.senders = before ++ x :: after)
    (hb : x.chan ∉ before.map TestMessageSender.chan)
    (ha : x.chan ∉ (after ++ added msgs).map TestMessageSender.chan) :
    valuesTo k x.chan f msgs = (datas k f msgs).map fun b => b.sendCount + before.length := by
  induction msgs generalizing f after with
  | nil => rfl
  | cons msg msgs ih =>
    obtain ⟨b, hb', hg⟩ := feed_cons_ok hg
    have hmultiplier := step_multiplier hf hb'
    rw [added_cons msg msgs, ← List.append_assoc] at ha
    rw [valuesTo_cons hb', datas_cons hb', List.map_append]
    rcases step_cases hf hb' with ⟨hseq, haction, hsenders, -⟩ | ⟨hseq, haction, hnone, hsenders, -⟩
    · rw [hs, List.append_assoc, List.cons_append] at hsenders
      rw [haction, ih hmultiplier hg hsenders ha]
      simp [hseq]
    · rw [hnone, List.append_nil] at ha
      have hafter : x.chan ∉ after.map TestMessageSender.chan := fun h => ha (by simp [h])
      rw [haction, ih hmultiplier hg (hsenders.trans hs) ha, hs, sendsTo_once hx hb hafter]
      simp [hseq]

end Values

end Runs

/-- A downstream that was added once accepts what it gets exactly when there is no data after it was
added, or it is the first sender and the numbers stay consecutive up to the last data message. -/
theorem downstream_accepts_iff [DecidableEq κ] (k : ForwarderKind) (id : ℕ)
    (pre post : List (TestMessage κ)) (x : TestMessageSender κ) (b g : Forwarder κ)
    (hx : Deliverable k.send x)
    (hb : (feed k.receive (new id) (pre ++ [.addSender x])).result = .ok b)
    (hg : (feed k.receive b post).result = .ok g)
    (honce : x.chan ∉ (added pre ++ added post).map TestMessageSender.chan)
    (down : Forwarder κ) (hdown : down.senders ≠ []) (hfresh : down.nextSeq = 0) :
    (down.validateAll (valuesTo k x.chan (new id) (pre ++ [.addSender x] ++ post))).2 = .ok () ↔
      datas k b post = [] ∨
      (added pre = [] ∧ ∀ f ∈ (datas k b post).dropLast, Consecutive f) := by
  rw [List.map_append, List.mem_append, not_or] at honce
  obtain ⟨a, ha, hab⟩ : ∃ a, (feed k.receive (new id) pre).result = .ok a ∧
      (feed k.receive a [.addSender x]).result = .ok b := by
    rw [feed_append] at hb
    exact Call.bind_ok_iff.mp hb
  have hkept : b.sendCount = a.sendCount := by
    cases k with
    | sync => exact (congrArg sendCount (Except.ok.inj hab)).symm
    | async => exact (congrArg sendCount (Except.ok.inj hab)).symm
  obtain ⟨hmultiplier, hsenders⟩ := feed_senders (f := new id) rfl hb
  have hlist : b.senders = added pre ++ x :: [] := by simpa [new] using hsenders
  -- nothing goes to the downstream before it was added
  have hvalues : valuesTo k x.chan (new id) (pre ++ [.addSender x] ++ post) =
      (datas k b post).map fun f => f.sendCount + (added pre).length := by
    have habsent := valuesTo_absent (f := new id) rfl ha (by simp [new]) honce.1
    have hadding : valuesTo k x.chan a [.addSender x] = [] := by cases k <;> rfl
    rw [valuesTo_append hb, valuesTo_append ha, habsent, hadding, List.nil_append, List.nil_append]
    exact valuesTo_once hx hmultiplier hg hlist honce.1 (by simpa using honce.2)
  rw [validateAll_ok_iff hdown, hfresh, hvalues]
  by_cases hfirst : added pre = []
  · have hcount : b.sendCount = 0 := by
      rw [hkept]
      exact feed_unsent (f := new id) rfl ha rfl rfl hfirst
    have hnumbers := follows_numbers_iff 0 (datas_senders hmultiplier hg (by simp [hlist]))
      (numbered_datas hmultiplier hg) (.inl hcount)
    simp only [hfirst, List.length_nil, Nat.add_zero, true_and]
    rw [hnumbers]
    constructor
    · exact .inr
    · rintro (hnil | hall)
      · simp [hnil]
      · exact hall
  · have hpos : 0 < (added pre).length := List.length_pos_iff.mpr hfirst
    rw [not_follows_shifted hpos]
    simp [hfirst]

theorem downstream_accepts_iff_cleared :
    ((relay 2 (.tokioSender 3) 0 0 : Forwarder ℕ).validateAll (valuesTo .async 7 (new 1)
      [.notify (.tokioSender 9) 1, .addSender (.tokioSender 7), .addSender (.flumeSender 8),
        .testData 0, .testData 1])).2 = .ok () := by
  refine (downstream_accepts_iff .async 1 [.notify (.tokioSender 9) 1] [.addSender (.flumeSender 8),
    .testData 0, .testData 1] (.tokioSender 7) _ _ ?_ rfl rfl (by decide) _
    (List.cons_ne_nil _ _) rfl).mpr (.inr ⟨rfl, ?_⟩)
  · intro cmd
    rfl
  · intro f hf
    obtain rfl := List.mem_singleton.mp hf
    exact .inr rfl

def fanOut (s : ℕ → TestMessageSender ℕ) : List (TestMessage ℕ) :=
  [.addSender (s 7), .addSender (s 8), .testData 0, .testData 1]

def fresh : Forwarder ℕ := relay 2 (.flumeSender 3) 0 0

theorem two_downstreams_reject :
    (valuesTo .sync 7 (new 1) (fanOut .crossbeamSender) = [0, 2] ∧
      valuesTo .sync 8 (new 1) (fanOut .crossbeamSender) = [1, 3] ∧
      valuesTo .async 7 (new 1) (fanOut .tokioSender) = [0, 2] ∧
      valuesTo .async 8 (new 1) (fanOut .tokioSender) = [1, 3]) ∧
    (∃ f g : Forwarder ℕ,
      (feed SyncForwarder.receive (new 1) (fanOut .crossbeamSender)).result = .ok f ∧
      f.senders = [.crossbeamSender 7, .crossbeamSender 8] ∧
      (feed AsyncForwarder.receive (new 1) (fanOut .tokioSender)).result = .ok g ∧
      g.senders = [.tokioSender 7, .tokioSender 8]) ∧
    (fresh.validateAll [0, 2]).2 ≠ .ok () ∧ (fresh.validateAll [1, 3]).2 ≠ .ok () :=
  ⟨⟨rfl, rfl, rfl, rfl⟩, ⟨_, _, rfl, rfl, rfl, rfl⟩, by decide, by decide⟩

end Forwarder

end ChannelExecutor.Experiment
