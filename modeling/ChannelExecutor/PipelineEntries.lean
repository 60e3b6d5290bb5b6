import ChannelExecutor.PipelineFlow

set_option autoImplicit false

namespace ChannelExecutor.Experiment

open Lib (Call Net)
open State

inductive Entry (k : Params) (K : Chan → Prop) (s t : State) : Prop
  | still (hs : Calm s t) (hput : t.net.put = s.net.put) (hout : t.net.out = s.net.out)
  | post {c : Chan} {msg : Message} (hs : Emits s t c msg)
      (hfirst : ∀ seq, msg = .testData seq → K c → configs (s.net.put c) ≠ [])
      (hput : t.net.put = Function.update s.net.put c (s.net.put c ++ [msg]))
      (hout : t.net.out = s.net.out)
  | pass {c : Chan} {seq : ℕ} (hs : Calm s t) (hc : c ∈ k.channels)
      (hfirst : K (k.next c) → configs (s.net.put (k.next c)) ≠ [])
      (hput : t.net.put = Function.update s.net.put (k.next c)
        (s.net.put (k.next c) ++ [.testData seq]))
      (hout : t.net.out = Function.update s.net.out c
        (s.net.out c ++ [(k.next c, .testData seq)]))

section Entries

variable {d : Driver} {k : Params} {send : Send} {flavour : Chan → Sender}
variable {mode : Sending Chan Unit → Op} {K : Chan → Prop} {s t : State} {a : Act}

theorem Inv.entry_of_next (hi : Inv d k flavour K s)
    (hnext : ∀ c ∈ k.channels, ∀ p ∈ s.sends c, ∃ seq, p = (k.next c, .testData seq))
    (hfirst : ConfigFirst K s a) (h : Turn d k s a t) : Entry k K s t := by
  cases h with
  | quiet hs hnet => exact .still hs (by rw [hnet]) (by rw [hnet])
  | post hs hputs hnet =>
    refine .post hs (fun seq hmsg => ?_) (by rw [hnet]; rfl) (by rw [hnet]; rfl)
    subst hmsg
    exact hfirst _ seq hputs
  | take hs hc hnet =>
    obtain ⟨msg, rest, -, ht⟩ := Net.take_cases hnet
    exact .still hs (by rw [ht]; rfl) (by rw [ht]; rfl)
  | accept hs hc hnet =>
    obtain ⟨msg, rest, -, -, ht⟩ := Net.accept_cases hnet
    exact .still hs (by rw [ht]; rfl) (by rw [ht]; rfl)
  | @advance c hs ha hnet =>
    obtain ⟨dst, msg, rest, hcall, -, ht⟩ | ⟨b, -, ht⟩ := Net.advance_cases hnet
    · have hc : c ∈ k.channels := hi.active c (by simp [hcall])
      have hmem : (dst, msg) ∈ s.sends c := by simp [State.sends, Net.current, hcall]
      obtain ⟨seq, hp⟩ := hnext c hc _ hmem
      obtain ⟨rfl, rfl⟩ := Prod.mk.inj hp
      refine .pass hs hc ?_ (by rw [ht]; rfl) (by rw [ht]; rfl)
      exact hfirst _ seq (by simp [ha, puts, hcall])
    · exact .still hs (by rw [ht]; rfl) (by rw [ht]; rfl)

theorem Inv.entry (hi : Inv d k flavour K s) (hw : d.Wires k send flavour mode)
    (hK : ∀ c ∈ k.channels, k.relays c → K c) (hfirst : ConfigFirst K s a) (h : Turn d k s a t) :
    Entry k K s t :=
  hi.entry_of_next (fun _ hc => (hi.sends_next hw hK hc).1) hfirst h

theorem configs_perm {l l' : List Message} (h : l.Perm l') : (configs l).Perm (configs l') := h.filter _

theorem addressed_perm {l l' : List (Chan × Message)} (c : Chan) (h : l.Perm l') :
    (addressed c l).Perm (addressed c l') := (h.filter _).map _

theorem Entry.told (hi : Inv d k flavour K s) (h : Entry k K s t) (c : Chan) :
    (configs (t.net.put c) ++ configs (addressed c t.pending)).Perm
      (if c ∈ k.channels then [config flavour k c] else []) := by
  refine .trans ?_ (hi.told c)
  cases h with
  | still hs hput hout =>
    rw [hput]
    exact (configs_perm (addressed_perm c hs.pending_perm)).symm.append_left _
  | @post c' msg hs hfirst hput hout =>
    have hp := configs_perm (addressed_perm c hs.pending_perm)
    rw [hput]
    by_cases hc : c = c'
    · subst hc
      rw [addressed_self] at hp
      rw [Function.update_self, configs_append, List.append_assoc, ← configs_append]
      exact hp.symm.append_left _
    · rw [addressed_other (Ne.symm hc)] at hp
      rw [Function.update_of_ne hc]
      exact hp.symm.append_left _
  | @pass c' seq hs hc hfirst hput hout =>
    have hsame : configs (t.net.put c) = configs (s.net.put c) := by
      rw [hput]
      by_cases hc : c = k.next c'
      · subst hc
        simp
      · rw [Function.update_of_ne hc]
    rw [hsame]
    exact (configs_perm (addressed_perm c hs.pending_perm)).symm.append_left _

theorem Inv.pending_cases (hi : Inv d k flavour K s) {c : Chan} {msg : Message}
    (h : (c, msg) ∈ s.pending) :
    (∃ l < k.lanes, c = .lane l 1 ∧ ∃ seq, msg = .testData seq) ∨
      (c ∈ k.channels ∧ msg = config flavour k c) := by
  by_cases hmsg : ∃ seq, msg = .testData seq
  · refine .inl (hi.line_head ?_)
    rw [line_eq]
    exact mem_dataOf.mpr ⟨h, hmsg⟩
  · right
    have hconfig : msg ∈ configs (addressed c s.pending) := by
      refine List.mem_filter.mpr ⟨mem_addressed.mpr h, ?_⟩
      cases msg with
      | testData seq => exact absurd ⟨seq, rfl⟩ hmsg
      | addSender sender => rfl
      | notify sender count => rfl
    have := (hi.told c).mem_iff.mp (List.mem_append_right _ hconfig)
    split at this
    next hc => exact ⟨hc, by simpa using this⟩
    next => cases this

theorem Emits.cases (hi : Inv d k flavour K s) {c : Chan} {msg : Message} (hs : Emits s t c msg) :
    (∃ l < k.lanes, c = .lane l 1 ∧ ∃ seq, msg = .testData seq) ∨
      (c ∈ k.channels ∧ msg = config flavour k c) :=
  hi.pending_cases (hs.pending_perm.mem_iff.mpr List.mem_cons_self)

theorem Entry.sole (hi : Inv d k flavour K s) (h : Entry k K s t) :
    Sole (t.scripts.map dataOf) ∧ t.line <:+ k.data := by
  cases h with
  | still hs hput hout =>
    obtain ⟨hsole, hline⟩ := hs.line hi.sole
    exact ⟨hsole, hline ▸ hi.line_suffix⟩
  | pass hs hc hfirst hput hout =>
    obtain ⟨hsole, hline⟩ := hs.line hi.sole
    exact ⟨hsole, hline ▸ hi.line_suffix⟩
  | post hs hfirst hput hout =>
    rcases hs.cases hi with ⟨l, -, rfl, seq, rfl⟩ | ⟨-, rfl⟩
    · obtain ⟨hsole, hline⟩ := hs.line_data hi.sole
      exact ⟨hsole, ((List.suffix_cons _ _).trans (hline ▸ hi.line_suffix))⟩
    · obtain ⟨hsole, hline⟩ := hs.line_config (config_seq? ..) hi.sole
      exact ⟨hsole, hline ▸ hi.line_suffix⟩

theorem seqs_put_config (c' : Chan) (c : Chan) (put : Chan → List Message) :
    seqs (Function.update put c (put c ++ [config flavour k c]) c') = seqs (put c') := by
  by_cases hc : c' = c
  · subst hc
    rw [Function.update_self, seqs_append, seqs_config (config_seq? ..), seqs_nil, List.append_nil]
  · rw [Function.update_of_ne hc]

theorem Entry.heads (hi : Inv d k flavour K s) (h : Entry k K s t) (l : ℕ) (hl : l < k.lanes) :
    seqs (t.net.put (.lane l 1)) ++ seqs (addressed (.lane l 1) t.line) =
      rounds k.messages (s.runs * k.messages) := by
  rw [← hi.heads l hl]
  cases h with
  | still hs hput hout => rw [hput, (hs.line hi.sole).2]
  | @pass c seq hs hc hfirst hput hout =>
    rw [hput, Function.update_of_ne (k.next_ne_head hc l).symm, (hs.line hi.sole).2]
  | post hs hfirst hput hout =>
    rcases hs.cases hi with ⟨l', -, rfl, seq, rfl⟩ | ⟨-, rfl⟩
    · rw [hput, (hs.line_data hi.sole).2]
      by_cases hll : l = l'
      · subst hll
        simp
      · have hne : Chan.lane l 1 ≠ .lane l' 1 := by simpa using hll
        rw [Function.update_of_ne hne, addressed_other hne.symm]
    · rw [hput, seqs_put_config, (hs.line_config (config_seq? ..) hi.sole).2]

theorem Entry.flow (hi : Inv d k flavour K s) (h : Entry k K s t) (l : ℕ) (hl : l < k.lanes) (i : ℕ)
    (hi0 : 0 < i) (hip : i < k.pipelines) :
    seqs (t.net.put (.lane l (i + 1))) = seqs ((t.net.out (.lane l i)).map Prod.snd) := by
  have hflow := hi.flow l hl i hi0 hip
  cases h with
  | still hs hput hout => rw [hput, hout, hflow]
  | post hs hfirst hput hout =>
    rcases hs.cases hi with ⟨l', -, rfl, seq, rfl⟩ | ⟨-, rfl⟩
    · have hne : Chan.lane l (i + 1) ≠ .lane l' 1 := by
        simp only [ne_eq, Chan.lane.injEq]
        omega
      rw [hput, hout, Function.update_of_ne hne, hflow]
    · rw [hput, hout, seqs_put_config, hflow]
  | @pass c seq hs hc hfirst hput hout =>
    by_cases hcl : c = .lane l i
    · subst hcl
      rw [hput, hout, k.next_relay hip, Function.update_self, Function.update_self]
      simp [hflow]
    · have hne : Chan.lane l (i + 1) ≠ k.next c := by
        obtain ⟨l', i', rfl, -, -, hip'⟩ | ⟨l', -, rfl⟩ | rfl := k.channel_cases hc
        · rw [k.next_relay hip']
          simp only [ne_eq, Chan.lane.injEq] at hcl ⊢
          omega
        · simp
        · simp
      rw [hput, hout, Function.update_of_ne hne, Function.update_of_ne (Ne.symm hcl), hflow]

theorem Entry.merged (hi : Inv d k flavour K s) (h : Entry k K s t) :
    (seqs (t.net.put .concentrator)).length =
      ((List.range k.lanes).map fun l => (t.net.out (.lane l k.pipelines)).length).sum := by
  have hmerged := hi.merged
  cases h with
  | still hs hput hout => rw [hput, hout, hmerged]
  | post hs hfirst hput hout =>
    rcases hs.cases hi with ⟨l', -, rfl, seq, rfl⟩ | ⟨-, rfl⟩
    · rw [hput, hout, Function.update_of_ne (by simp), hmerged]
    · rw [hput, hout, seqs_put_config, hmerged]
  | @pass c seq hs hc hfirst hput hout =>
    have hother : (∀ l, c ≠ .lane l k.pipelines) → k.next c ≠ .concentrator →
        (seqs (t.net.put .concentrator)).length =
          ((List.range k.lanes).map fun l => (t.net.out (.lane l k.pipelines)).length).sum := by
      intro hcl hne
      have hout' : ∀ l, t.net.out (.lane l k.pipelines) = s.net.out (.lane l k.pipelines) := by
        intro l
        rw [hout, Function.update_of_ne (Ne.symm (hcl l))]
      simp only [hout']
      rw [hput, Function.update_of_ne hne.symm, hmerged]
    obtain ⟨l', i', rfl, -, -, hip'⟩ | ⟨l', hl', rfl⟩ | rfl := k.channel_cases hc
    · apply hother
      · intro l h
        have := (Chan.lane.inj h).2
        omega
      · simp [k.next_relay hip']
    · -- the notification of lane `l'` is one more in its sum
      have hoff : ∀ l, l ≠ l' → (t.net.out (.lane l k.pipelines)).length =
          (s.net.out (.lane l k.pipelines)).length := by
        intro l hne
        have : Chan.lane l k.pipelines ≠ .lane l' k.pipelines := by simpa using hne
        rw [hout, Function.update_of_ne this]
      have hsum := Net.sum_map_change hoff List.nodup_range (List.mem_range.mpr hl')
      have hon : (t.net.out (.lane l' k.pipelines)).length =
          (s.net.out (.lane l' k.pipelines)).length + 1 := by
        rw [hout, Function.update_self, List.length_append, List.length_singleton]
      rw [hput, k.next_last, Function.update_self]
      simp only [seqs_append, seqs_testData, seqs_nil, List.length_append, List.length_singleton]
      omega
    · exact hother (by simp) (by simp)

theorem Entry.notified (hi : Inv d k flavour K s) (h : Entry k K s t) :
    t.net.put .notifier = (t.net.out .concentrator).map Prod.snd := by
  have hnotified := hi.notified
  cases h with
  | still hs hput hout => rw [hput, hout, hnotified]
  | @post c msg hs hfirst hput hout =>
    have hne : Chan.notifier ≠ c := by
      rcases hs.cases hi with ⟨l', -, rfl, -⟩ | ⟨hc, -⟩
      · simp
      · exact fun he => k.notifier_not_mem (he ▸ hc)
    rw [hput, hout, Function.update_of_ne hne, hnotified]
  | @pass c seq hs hc hfirst hput hout =>
    rw [hput, hout]
    obtain ⟨l', i', rfl, -, -, hip'⟩ | ⟨l', hl', rfl⟩ | rfl := k.channel_cases hc
    · rw [k.next_relay hip', Function.update_of_ne (by simp), Function.update_of_ne (by simp), hnotified]
    · rw [k.next_last, Function.update_of_ne (by simp), Function.update_of_ne (by simp), hnotified]
    · rw [k.next_concentrator, Function.update_self, Function.update_self, List.map_append, hnotified]
      rfl

theorem Entry.ready (hi : Inv d k flavour K s) (h : Entry k K s t) (c : Chan) (hK : K c) :
    t.net.put c = [] ∨ ∃ msgs, t.net.put c = config flavour k c :: msgs := by
  have hready := hi.ready c hK
  have happend : ∀ msg, configs (s.net.put c) ≠ [] →
      ∃ msgs, s.net.put c ++ [msg] = config flavour k c :: msgs := by
    intro msg hne
    rcases hready with hput | ⟨msgs, hput⟩
    · simp [hput] at hne
    · exact ⟨msgs ++ [msg], by rw [hput, List.cons_append]⟩
  cases h with
  | still hs hput hout => rwa [hput]
  | @post c' msg hs hfirst hput hout =>
    rw [hput]
    by_cases hc : c = c'
    · subst hc
      rw [Function.update_self]
      right
      rcases hs.cases hi with ⟨l', -, rfl, seq, rfl⟩ | ⟨hc, rfl⟩
      · exact happend _ (hfirst seq rfl hK)
      · -- the configuration comes once, so the channel was empty
        have hlen := (hi.told c).length_eq
        have hmem := hs.pending_perm.mem_iff.mpr List.mem_cons_self
        have hpos : 0 < (configs (addressed c s.pending)).length := by
          apply List.length_pos_of_mem (a := config flavour k c)
          exact List.mem_filter.mpr ⟨mem_addressed.mpr hmem, by simp [config_seq?]⟩
        rw [if_pos hc, List.length_append, List.length_singleton] at hlen
        rcases hready with hput | ⟨msgs, hput⟩
        · exact ⟨[], by rw [hput, List.nil_append]⟩
        · rw [hput, configs_config (config_seq? ..), List.length_cons] at hlen
          omega
    · rwa [Function.update_of_ne hc]
  | @pass c' seq hs hc hfirst hput hout =>
    rw [hput]
    by_cases hcn : c = k.next c'
    · subst hcn
      rw [Function.update_self]
      exact .inr (happend _ (hfirst hK))
    · rwa [Function.update_of_ne hcn]

end Entries

end ChannelExecutor.Experiment
