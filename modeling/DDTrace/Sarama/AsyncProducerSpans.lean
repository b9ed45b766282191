import DDTrace.Sarama.AsyncProducer

/-!
# The relay's spans

The invariant reads only the relay's map, the tracer and the span whose message is being handed
to the underlying producer. It says that the map holds exactly the started, unfinished spans
other than that one, each under its own ID, and that no span is finished twice. It needs the IDs
minted so far to be pairwise distinct: two spans under one ID would share one entry of the map.
-/

namespace DDTrace.Sarama.AsyncProducer

/-- The IDs minted for the first `n` spans are pairwise distinct. -/
def Distinct (mint : Nat → UInt64) (n : Nat) : Prop :=
  ∀ i j, i < n → j < n → mint i = mint j → i = j

theorem Distinct.mono {mint : Nat → UInt64} {m n : Nat} (h : Distinct mint n) (hmn : m ≤ n) :
    Distinct mint m :=
  fun i j hi hj => h i j (by omega) (by omega)

structure SpansInv (mint : Nat → UInt64) (returnSuccesses : Bool) (spans : UInt64 → Option Nat)
    (t : Tracer) (pending : Option Nat) : Prop where
  mem_iff : ∀ key k, spans key = some k ↔
    key = mint k ∧ k < t.spans.length ∧ finishCount t k = 0 ∧ pending ≠ some k
  finish_le : ∀ k, finishCount t k ≤ 1
  unstarted : ∀ k, t.spans.length ≤ k → finishCount t k = 0
  pending_last : ∀ k, pending = some k → k + 1 = t.spans.length ∧ finishCount t k = 0
  open_pending : returnSuccesses = false →
    ∀ k < t.spans.length, finishCount t k = 0 → pending = some k

section

variable {mint : Nat → UInt64} {rs : Bool} {spans : UInt64 → Option Nat} {t : Tracer}

theorem spansInv_init : SpansInv mint rs (fun _ => none) Tracer.empty none where
  mem_iff _ _ := by simp
  finish_le _ := by simp
  unstarted k _ := finishCount_empty k
  pending_last _ h := by cases h
  open_pending _ _ hk := by simp at hk

/-- Taking a message from the wrapper's `Input` starts the next span, which becomes pending. -/
theorem SpansInv.start (h : SpansInv mint rs spans t none) (name : String)
    (opts : List StartSpanOption) :
    SpansInv mint rs spans (t.startSpan mint name opts) (some t.spans.length) where
  mem_iff key k := by
    simp only [h.mem_iff, length_spans_startSpan, finishCount_startSpan, ne_eq,
      Option.some.injEq, reduceCtorEq, not_false_eq_true, and_true]
    constructor
    · rintro ⟨rfl, hk, h0⟩
      exact ⟨rfl, by omega, h0, by omega⟩
    · rintro ⟨rfl, hk, h0, hne⟩
      exact ⟨rfl, by omega, h0⟩
  finish_le k := by simpa using h.finish_le k
  unstarted k hk := by simpa using h.unstarted k (by simp at hk; omega)
  pending_last k hk := by cases hk; simpa using h.unstarted _ le_rfl
  open_pending hr k hk h0 := by
    simp only [length_spans_startSpan, finishCount_startSpan, Option.some.injEq] at hk h0 ⊢
    by_contra hne
    exact absurd (h.open_pending hr k (by omega) h0) (by simp)

/-- With `Return.Successes`, the producer's taking the message puts its span in the map. -/
theorem SpansInv.keep {k : Nat} (h : SpansInv mint rs spans t (some k)) (hr : rs = true)
    (hd : Distinct mint t.spans.length) :
    SpansInv mint rs (Function.update spans (mint k) (some k)) t none where
  mem_iff key j := by
    obtain ⟨hk, h0⟩ := h.pending_last k rfl
    by_cases hkey : key = mint k
    · subst hkey
      simp only [Function.update_same, Option.some.injEq, ne_eq, reduceCtorEq,
        not_false_eq_true, and_true]
      constructor
      · rintro rfl
        exact ⟨rfl, by omega, h0⟩
      · rintro ⟨he, hj, -⟩
        exact hd k j (by omega) hj he
    · rw [Function.update_noteq hkey, h.mem_iff]
      constructor
      · rintro ⟨h1, h2, h3, -⟩
        exact ⟨h1, h2, h3, by simp⟩
      · rintro ⟨h1, h2, h3, -⟩
        refine ⟨h1, h2, h3, ?_⟩
        rintro ⟨⟩
        exact hkey h1
  finish_le := h.finish_le
  unstarted := h.unstarted
  pending_last _ hj := by cases hj
  open_pending hr' := absurd (hr.symm.trans hr') (by simp)

/-- Without `Return.Successes`, the producer's taking the message finishes its span. -/
theorem SpansInv.finishNow {k : Nat} (h : SpansInv mint rs spans t (some k)) :
    SpansInv mint rs spans (t.finish k none) none where
  mem_iff key j := by
    rw [h.mem_iff]
    by_cases hkj : k = j <;> simp [hkj]
  finish_le j := by
    by_cases hkj : k = j
    · subst hkj; simp [(h.pending_last k rfl).2]
    · simpa [hkj] using h.finish_le j
  unstarted j hj := by
    have := (h.pending_last k rfl).1
    simp only [spans_finish] at hj
    simp [h.unstarted j hj, show k ≠ j by omega]
  pending_last _ hj := by cases hj
  open_pending hr j hj h0 := by
    simp only [spans_finish, finishCount_finish, Nat.add_eq_zero, ite_eq_right_iff] at hj h0
    have := h.open_pending hr j hj h0.1
    simp only [Option.some.injEq] at this
    exact absurd (h0.2 this) (by simp)

/-- An acknowledgement carrying the ID of a span in the map finishes that span once. -/
theorem SpansInv.settle {key : UInt64} {k : Nat} (h : SpansInv mint rs spans t none)
    (hd : Distinct mint t.spans.length) (hk : spans key = some k) (t' : Tracer)
    (hlen : t'.spans = t.spans)
    (hfc : ∀ j, finishCount t' j = finishCount t j + if k = j then 1 else 0) :
    SpansInv mint rs (Function.update spans key none) t' none := by
  obtain ⟨rfl, hkn, h0, -⟩ := (h.mem_iff key k).1 hk
  refine ⟨fun key' j => ?_, fun j => ?_, fun j hj => ?_, fun _ hj => (by cases hj),
    fun hr j hj h0' => ?_⟩
  · by_cases hkey : key' = mint k
    · subst hkey
      simp only [Function.update_same, reduceCtorEq, false_iff, not_and, hlen, hfc]
      intro he hj
      obtain rfl := hd k j hkn hj he
      simp
    · rw [Function.update_noteq hkey, h.mem_iff, hlen, hfc]
      by_cases hkj : k = j
      · subst hkj; simp [hkey]
      · simp [hkj]
  · rw [hfc]
    by_cases hkj : k = j
    · subst hkj; simp [h0]
    · simpa [hkj] using h.finish_le j
  · rw [hlen] at hj
    rw [hfc, h.unstarted j hj, if_neg (by omega)]
  · exact absurd (h.open_pending hr k hkn h0) (by simp)

end

section

variable {mint : Nat → UInt64} {cfg : Config} {sc : SaramaConfig} {s s' : State} {a : Action}

/-- The span invariant of a relay state. -/
def Inv (mint : Nat → UInt64) (sc : SaramaConfig) (s : State) : Prop :=
  SpansInv mint sc.returnSuccesses s.spans s.tracer s.pc.pendingSpan

theorem inv_settle (s : State) (h : SpansInv mint sc.returnSuccesses s.spans s.tracer none)
    (hd : Distinct mint s.tracer.spans.length) (msg : ProducerMessage) (fin : Tracer → Nat → Tracer)
    (hlen : ∀ k, (fin s.tracer k).spans = s.tracer.spans)
    (hfc : ∀ k j, finishCount (fin s.tracer k) j = finishCount s.tracer j + if k = j then 1 else 0) :
    SpansInv mint sc.returnSuccesses (settle s msg fin).spans (settle s msg fin).tracer none := by
  rcases settle_cases s msg fin with hs | ⟨ctx, k, -, hk, hs⟩ <;> rw [hs]
  · exact h
  · exact h.settle hd hk _ (hlen k) (hfc k)

theorem length_le_of_step (h : step mint cfg sc s a = some s') :
    s.tracer.spans.length ≤ s'.tracer.spans.length := by
  by_cases ha : a.isEnv
  · rw [(step_env h ha).2.2.1]
  cases a <;> simp [Action.isEnv] at ha
  · obtain ⟨-, rfl⟩ := step_send h
    simp [onInput, startProducerSpan]
  · obtain ⟨p, k, -, rfl⟩ := step_accept h
    unfold onAccepted; split <;> simp
  · obtain ⟨-, ⟨p, c, -, rfl⟩ | ⟨c, -, rfl⟩⟩ := step_recvSuccess h <;> simp
  · obtain ⟨-, ⟨e, c, -, rfl⟩ | ⟨c, -, rfl⟩⟩ := step_recvError h <;> simp
  · obtain ⟨p, -, rfl⟩ := step_takeSuccess h
    exact le_rfl
  · obtain ⟨e, -, rfl⟩ := step_takeError h
    exact le_rfl

/-- One step keeps the span invariant, given distinct IDs for the spans started after it. -/
theorem inv_step (h : Inv mint sc s) (hd : Distinct mint s'.tracer.spans.length)
    (hs : step mint cfg sc s a = some s') : Inv mint sc s' := by
  have hd₀ := hd.mono (length_le_of_step hs)
  by_cases ha : a.isEnv
  · obtain ⟨hpc, hsp, htr, -⟩ := step_env hs ha
    unfold Inv; rw [hpc, hsp, htr]; exact h
  cases a <;> simp [Action.isEnv] at ha
  · obtain ⟨hpc, rfl⟩ := step_send hs
    unfold Inv at h; rw [hpc] at h
    exact h.start _ _
  · obtain ⟨p, k, hpc, rfl⟩ := step_accept hs
    unfold Inv at h; rw [hpc] at h
    unfold Inv onAccepted
    split
    · exact h.keep ‹_› hd₀
    · exact h.finishNow
  · obtain ⟨hpc, ⟨p, c, -, rfl⟩ | ⟨c, -, rfl⟩⟩ := step_recvSuccess hs
    · unfold Inv at h; rw [hpc] at h
      exact inv_settle { s with pSuccesses := c } h hd₀ _ _ (by simp [finishProducerSpan])
        (finishCount_finishProducerSpan _ · _ _ _)
    · unfold Inv at h ⊢; rw [hpc] at h; exact h
  · obtain ⟨hpc, ⟨e, c, -, rfl⟩ | ⟨c, -, rfl⟩⟩ := step_recvError hs
    · unfold Inv at h; rw [hpc] at h
      exact inv_settle { s with pErrors := c } h hd₀ _ _ (by simp) (by simp)
    · unfold Inv at h ⊢; rw [hpc] at h; exact h
  · obtain ⟨p, hpc, rfl⟩ := step_takeSuccess hs
    unfold Inv at h ⊢; rw [hpc] at h; exact h
  · obtain ⟨e, hpc, rfl⟩ := step_takeError hs
    unfold Inv at h ⊢; rw [hpc] at h; exact h

theorem inv_of_reachable (hs : Reachable mint cfg sc s) (hd : Distinct mint s.tracer.spans.length) :
    Inv mint sc s := by
  induction hs with
  | init heap => exact spansInv_init
  | step a _ hstep ih => exact inv_step (ih (hd.mono (length_le_of_step hstep))) hd hstep

end

/-- How a step may finish span `k`: reading a success (with partition and offset) or an error
whose message carries the span's ID; or, without `Return.Successes`, handing over its message. -/
def Finishes (mint : Nat → UInt64) (sc : SaramaConfig) (s : State) (a : Action) (k : Nat)
    (s' : State) : Prop :=
  (a = .recvSuccess ∧ ∃ p ctx, s.pSuccesses.peek = some p ∧ (s.heap p).headers = some ctx ∧
      ctx.spanID = mint k ∧
      s'.tracer = finishProducerSpan s.tracer k (s.heap p).partition (s.heap p).offset none) ∨
  (a = .recvError ∧ ∃ e ctx, s.pErrors.peek = some e ∧ (s.heap e.msg).headers = some ctx ∧
      ctx.spanID = mint k ∧ s'.tracer = s.tracer.finish k (some (e.error s.heap))) ∨
  (a = .accept ∧ sc.returnSuccesses = false ∧ s.pc.pendingSpan = some k ∧
      s'.tracer = s.tracer.finish k none)

section

variable {mint : Nat → UInt64} {cfg : Config} {sc : SaramaConfig} {s s' : State} {a : Action}

/-- The lookup of an acknowledgement changes a span's finish count only when the message carries
the ID of that span in the map, and then by the finisher's call. -/
private theorem settle_finishes (s : State) (h : Inv mint sc s) (msg : ProducerMessage)
    (fin : Tracer → Nat → Tracer)
    (hfc : ∀ k j, finishCount (fin s.tracer k) j = finishCount s.tracer j + if k = j then 1 else 0)
    {k : Nat} (hk : finishCount (settle s msg fin).tracer k ≠ finishCount s.tracer k) :
    ∃ ctx, msg.headers = some ctx ∧ ctx.spanID = mint k ∧ (settle s msg fin).tracer = fin s.tracer k := by
  rcases settle_cases s msg fin with hs | ⟨ctx, j, hh, hj, hs⟩ <;> rw [hs] at hk ⊢
  · exact absurd rfl hk
  · rw [hfc] at hk
    obtain rfl : j = k := by by_contra hne; simp [hne] at hk
    exact ⟨ctx, hh, ((h.mem_iff _ j).1 hj).1, rfl⟩

theorem finishes_of_step (h : Inv mint sc s) (hs : step mint cfg sc s a = some s') {k : Nat}
    (hk : finishCount s'.tracer k ≠ finishCount s.tracer k) : Finishes mint sc s a k s' := by
  by_cases ha : a.isEnv
  · exact absurd (by rw [(step_env hs ha).2.2.1]) hk
  cases a <;> simp [Action.isEnv] at ha
  · obtain ⟨-, rfl⟩ := step_send hs
    simp [onInput, startProducerSpan] at hk
  · obtain ⟨p, j, hpc, rfl⟩ := step_accept hs
    unfold onAccepted at hk ⊢
    by_cases hr : sc.returnSuccesses
    · simp [hr] at hk
    · rw [if_neg hr] at hk ⊢
      obtain rfl : j = k := by by_contra hne; simp [hne] at hk
      exact .inr (.inr ⟨rfl, by simpa using hr, by simp [hpc, Pc.pendingSpan], rfl⟩)
  · obtain ⟨hpc, ⟨p, c, hc, rfl⟩ | ⟨c, -, rfl⟩⟩ := step_recvSuccess hs
    · obtain ⟨ctx, hh, hid, ht⟩ := settle_finishes { s with pSuccesses := c } h _ _
        (finishCount_finishProducerSpan _ · _ _ _) hk
      exact .inl ⟨rfl, p, ctx, (Chan.recv_eq_some_some hc).1, hh, hid, ht⟩
    · exact absurd rfl hk
  · obtain ⟨hpc, ⟨e, c, hc, rfl⟩ | ⟨c, -, rfl⟩⟩ := step_recvError hs
    · obtain ⟨ctx, hh, hid, ht⟩ := settle_finishes { s with pErrors := c } h _ _
        (by simp) hk
      exact .inr (.inl ⟨rfl, e, ctx, (Chan.recv_eq_some_some hc).1, hh, hid, ht⟩)
    · exact absurd rfl hk
  · obtain ⟨p, -, rfl⟩ := step_takeSuccess hs
    exact absurd rfl hk
  · obtain ⟨e, -, rfl⟩ := step_takeError hs
    exact absurd rfl hk

/-- The hand-over of the pending span's message: the producer takes it and the relay is back at
its `select`, having finished the span, or, with `Return.Successes`, stored it under its ID. -/
theorem accept_spec (h : Inv mint sc s) (hs : step mint cfg sc s .accept = some s') :
    ∃ p k, s.pc = .input p k ∧ s'.pc = .select ∧ s'.pInput = s.pInput ++ [p] ∧
      finishCount s.tracer k = 0 ∧
      (sc.returnSuccesses = true → s'.spans (mint k) = some k ∧ finishCount s'.tracer k = 0) ∧
      (sc.returnSuccesses = false → s'.spans = s.spans ∧ finishCount s'.tracer k = 1) := by
  obtain ⟨p, k, hpc, rfl⟩ := step_accept hs
  have h0 : finishCount s.tracer k = 0 := (h.pending_last k (by simp [hpc, Pc.pendingSpan])).2
  refine ⟨p, k, hpc, ?_, ?_, h0, fun hr => ?_, fun hr => ?_⟩ <;> unfold onAccepted
  · split <;> rfl
  · split <;> rfl
  · simp [hr, h0]
  · simp [hr, h0]

/-- Under every interleaving, with distinct span IDs: no span is finished twice; the map holds
exactly the unfinished spans but the pending one (with `Return.Successes`) or stays empty; the
hand-over finishes or stores the pending span; and only `Finishes` finishes a span. -/
theorem produce_spans_correlated (hs : Reachable mint cfg sc s)
    (hd : Distinct mint s.tracer.spans.length) :
    (∀ k, finishCount s.tracer k ≤ 1) ∧
    (sc.returnSuccesses = true → ∀ key k, s.spans key = some k ↔ key = mint k ∧
      k < s.tracer.spans.length ∧ finishCount s.tracer k = 0 ∧ s.pc.pendingSpan ≠ some k) ∧
    (sc.returnSuccesses = false → (∀ key, s.spans key = none) ∧
      ∀ k < s.tracer.spans.length, finishCount s.tracer k = 1 ∨ s.pc.pendingSpan = some k) ∧
    (∀ s', step mint cfg sc s .accept = some s' → ∃ p k, s.pc = .input p k ∧ s'.pc = .select ∧
      s'.pInput = s.pInput ++ [p] ∧ finishCount s.tracer k = 0 ∧
      (sc.returnSuccesses = true → s'.spans (mint k) = some k ∧ finishCount s'.tracer k = 0) ∧
      (sc.returnSuccesses = false → (∀ key, s'.spans key = none) ∧ finishCount s'.tracer k = 1)) ∧
    (∀ a s', step mint cfg sc s a = some s' → ∀ k,
      finishCount s'.tracer k ≠ finishCount s.tracer k → Finishes mint sc s a k s') := by
  have h := inv_of_reachable hs hd
  have hempty : sc.returnSuccesses = false → ∀ key, s.spans key = none := fun hr key => by
    rcases hkey : s.spans key with _ | k
    · rfl
    · obtain ⟨-, hk, h0, hp⟩ := (h.mem_iff key k).1 hkey
      exact absurd (h.open_pending hr k hk h0) hp
  refine ⟨h.finish_le, fun _ => h.mem_iff, fun hr => ⟨hempty hr, fun k hk => ?_⟩,
    fun s' hs' => ?_, fun a s' hs' k => finishes_of_step h hs'⟩
  · by_cases h0 : finishCount s.tracer k = 0
    · exact .inr (h.open_pending hr k hk h0)
    · exact .inl (by have := h.finish_le k; omega)
  · obtain ⟨p, k, hpc, hsel, hpi, h0, hon, hoff⟩ := accept_spec h hs'
    exact ⟨p, k, hpc, hsel, hpi, h0, hon,
      fun hr => ⟨fun key => (hoff hr).1 ▸ hempty hr key, (hoff hr).2⟩⟩

end

/-- One message sent, handed over, acknowledged and its success taken by the application. -/
def acked : State :=
  (run sampleMint sampleConfig keepSuccesses (init sampleHeap)
    [.send 0, .accept, .ackSuccess 0, .recvSuccess, .takeSuccess]).getD (init sampleHeap)

theorem produce_spans_correlated_acked :
    Reachable sampleMint sampleConfig keepSuccesses acked ∧
      Distinct sampleMint acked.tracer.spans.length ∧
      ((∀ k, finishCount acked.tracer k ≤ 1) ∧
      (keepSuccesses.returnSuccesses = true → ∀ key k, acked.spans key = some k ↔
        key = sampleMint k ∧ k < acked.tracer.spans.length ∧ finishCount acked.tracer k = 0 ∧
        acked.pc.pendingSpan ≠ some k) ∧
      (keepSuccesses.returnSuccesses = false → (∀ key, acked.spans key = none) ∧
        ∀ k < acked.tracer.spans.length, finishCount acked.tracer k = 1 ∨
          acked.pc.pendingSpan = some k) ∧
      (∀ s', step sampleMint sampleConfig keepSuccesses acked .accept = some s' →
        ∃ p k, acked.pc = .input p k ∧ s'.pc = .select ∧ s'.pInput = acked.pInput ++ [p] ∧
          finishCount acked.tracer k = 0 ∧
          (keepSuccesses.returnSuccesses = true → s'.spans (sampleMint k) = some k ∧
            finishCount s'.tracer k = 0) ∧
          (keepSuccesses.returnSuccesses = false → (∀ key, s'.spans key = none) ∧
            finishCount s'.tracer k = 1)) ∧
      (∀ a s', step sampleMint sampleConfig keepSuccesses acked a = some s' → ∀ k,
        finishCount s'.tracer k ≠ finishCount acked.tracer k →
          Finishes sampleMint keepSuccesses acked a k s')) :=
  have hr : Reachable sampleMint sampleConfig keepSuccesses acked :=
    Machine.Reachable.run [.send 0, .accept, .ackSuccess 0, .recvSuccess, .takeSuccess]
      (.init sampleHeap) rfl
  have hd : Distinct sampleMint acked.tracer.spans.length := fun i j hi hj _ => by
    have : acked.tracer.spans.length = 1 := rfl
    omega
  ⟨hr, hd, produce_spans_correlated hr hd⟩

section

variable {mint : Nat → UInt64} {cfg : Config} {sc : SaramaConfig} {s : State}

/-- Reading an acknowledgement whose message carries the ID of a span in the map finishes that
span, for the first time. -/
private theorem settle_finishes_open (s : State) (h : Inv mint sc s) {msg : ProducerMessage} {ctx : SpanContext}
    {k : Nat} (hh : msg.headers = some ctx) (hid : ctx.spanID = mint k)
    (hk : s.spans (mint k) = some k) (fin : Tracer → Nat → Tracer)
    (hfc : ∀ j, finishCount (fin s.tracer k) j = finishCount s.tracer j + if k = j then 1 else 0) :
    finishCount (settle s msg fin).tracer k = 1 := by
  rw [settle_of_mem hh (hid ▸ hk), hfc, ((h.mem_iff _ k).1 hk).2.2.1]
  simp

/-- With distinct span IDs, a started span (but the one being handed over) is unfinished exactly
while the map holds it; reading an acknowledgement carrying its ID finishes it; and the relay
injects the span's context into the headers only from `V0_11_0_0` on. -/
theorem produce_span_finished_by_its_ack (hs : Reachable mint cfg sc s)
    (hd : Distinct mint s.tracer.spans.length) :
    (∀ k < s.tracer.spans.length, s.pc.pendingSpan ≠ some k →
      (finishCount s.tracer k = 0 ↔ s.spans (mint k) = some k)) ∧
    (∀ k p ctx, s.pc = .select → s.pSuccesses.peek = some p → (s.heap p).headers = some ctx →
      ctx.spanID = mint k → s.spans (mint k) = some k →
      ∃ s', step mint cfg sc s .recvSuccess = some s' ∧ finishCount s'.tracer k = 1) ∧
    (∀ k e ctx, s.pc = .select → s.pErrors.peek = some e → (s.heap e.msg).headers = some ctx →
      ctx.spanID = mint k → s.spans (mint k) = some k →
      ∃ s', step mint cfg sc s .recvError = some s' ∧ finishCount s'.tracer k = 1) ∧
    (∀ p s', step mint cfg sc s (.send p) = some s' → (s'.heap p).headers =
      if sc.version.isAtLeast V0_11_0_0 then
        some (contextOf (mint s.tracer.spans.length) (producerSpanOptions cfg (s.heap p)))
      else (s.heap p).headers) := by
  have h := inv_of_reachable hs hd
  refine ⟨fun k hk hp => ?_, fun k p ctx hpc hp hh hid hk => ?_,
    fun k e ctx hpc he hh hid hk => ?_, fun p s' h' => ?_⟩
  · rw [h.mem_iff]
    simp [hk, hp]
  · obtain ⟨c, hc⟩ := Chan.recv_eq_some_of_peek hp
    refine ⟨onSuccess { s with pSuccesses := c } p, by simp [step, hpc, hc], ?_⟩
    exact settle_finishes_open { s with pSuccesses := c } h hh hid hk _
      (finishCount_finishProducerSpan _ _ _ _ _)
  · obtain ⟨c, hc⟩ := Chan.recv_eq_some_of_peek he
    refine ⟨onError { s with pErrors := c } e, by simp [step, hpc, hc], ?_⟩
    exact settle_finishes_open { s with pErrors := c } h hh hid hk _ (by simp)
  · obtain ⟨-, rfl⟩ := step_send h'
    simp only [onInput, startProducerSpan, Function.update_same]
    split <;> rfl

end

/-- One message sent, handed over and acknowledged; the relay has not read the success yet. -/
def awaiting : State :=
  (run sampleMint sampleConfig keepSuccesses (init sampleHeap)
    [.send 0, .accept, .ackSuccess 0]).getD (init sampleHeap)

theorem produce_span_finished_by_its_ack_awaiting :
    Reachable sampleMint sampleConfig keepSuccesses awaiting ∧
      Distinct sampleMint awaiting.tracer.spans.length ∧
      ((∀ k < awaiting.tracer.spans.length, awaiting.pc.pendingSpan ≠ some k →
        (finishCount awaiting.tracer k = 0 ↔ awaiting.spans (sampleMint k) = some k)) ∧
      (∀ k p ctx, awaiting.pc = .select → awaiting.pSuccesses.peek = some p →
        (awaiting.heap p).headers = some ctx → ctx.spanID = sampleMint k →
        awaiting.spans (sampleMint k) = some k →
        ∃ s', step sampleMint sampleConfig keepSuccesses awaiting .recvSuccess = some s' ∧
          finishCount s'.tracer k = 1) ∧
      (∀ k e ctx, awaiting.pc = .select → awaiting.pErrors.peek = some e →
        (awaiting.heap e.msg).headers = some ctx → ctx.spanID = sampleMint k →
        awaiting.spans (sampleMint k) = some k →
        ∃ s', step sampleMint sampleConfig keepSuccesses awaiting .recvError = some s' ∧
          finishCount s'.tracer k = 1) ∧
      (∀ p s', step sampleMint sampleConfig keepSuccesses awaiting (.send p) = some s' →
        (s'.heap p).headers =
          if keepSuccesses.version.isAtLeast V0_11_0_0 then
            some (contextOf (sampleMint awaiting.tracer.spans.length)
              (producerSpanOptions sampleConfig (awaiting.heap p)))
          else (awaiting.heap p).headers)) :=
  have hr : Reachable sampleMint sampleConfig keepSuccesses awaiting :=
    Machine.Reachable.run [.send 0, .accept, .ackSuccess 0] (.init sampleHeap) rfl
  have hd : Distinct sampleMint awaiting.tracer.spans.length := fun i j hi hj _ => by
    have : awaiting.tracer.spans.length = 1 := rfl
    omega
  ⟨hr, hd, produce_span_finished_by_its_ack hr hd⟩

/-- One message sent and handed over; then the underlying `Successes` closes and the relay's
`select` takes the close. -/
def stranded : State :=
  (run sampleMint sampleConfig keepSuccesses (init sampleHeap)
    [.send 0, .accept, .closeSuccesses, .recvSuccess]).getD (init sampleHeap)

/-- The relay returns on the closed `Successes` with the span of a message the producer took but
never acknowledged still in its map, and no later step finishes it. -/
theorem produce_span_unfinished_at_exit :
    Reachable sampleMint sampleConfig keepSuccesses stranded ∧ stranded.pc = .done ∧
      stranded.spans (sampleMint 0) = some 0 ∧ finishCount stranded.tracer 0 = 0 ∧
      ∀ as s', run sampleMint sampleConfig keepSuccesses stranded as = some s' →
        s'.spans (sampleMint 0) = some 0 ∧ finishCount s'.tracer 0 = 0 :=
  ⟨Machine.Reachable.run [.send 0, .accept, .closeSuccesses, .recvSuccess] (.init sampleHeap) rfl,
    rfl, rfl, rfl, fun _ _ hr => by
      obtain ⟨-, hsp, htr, -⟩ := run_of_done rfl hr
      exact ⟨hsp ▸ rfl, htr ▸ rfl⟩⟩

end DDTrace.Sarama.AsyncProducer
