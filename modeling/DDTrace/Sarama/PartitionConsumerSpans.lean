import DDTrace.Sarama.PartitionConsumer

/-!
# What the consumer relay delivers, and its spans

The relay hands the application exactly the messages it took, in order; it has started one span
per message taken, and span `k` is finished, once, exactly when message `k + 1` has been taken
by the application or the relay has closed its channel. So only the two newest spans can be
open. Once the underlying channel is closed, the relay and a reading application always reach
the close, and then everything sent has been delivered.
-/

namespace DDTrace.Sarama.PartitionConsumer

structure Inv (s : State) : Prop where
  delivered : s.delivered ++ s.pc.delivering = s.messages.received
  spans : s.tracer.spans.length = s.messages.taken
  finished : ∀ k, finishCount s.tracer k =
    if k < s.tracer.spans.length ∧ (k + 1 < s.delivered.length ∨ s.pc = .done) then 1 else 0
  prev : ∀ k, s.prev = some k ↔ k + 1 = s.delivered.length
  done : s.pc = .done → s.messages.closed = true ∧ s.messages.pending = []
  next : ∀ p k, s.pc = .deliver p k → k + 1 = s.tracer.spans.length

section

variable {mint : Nat → UInt64} {cfg : Config} {s s' : State} {a : Action}

/-- One span for each message delivered or being delivered. -/
theorem Inv.length_delivered (h : Inv s) :
    s.delivered.length + s.pc.delivering.length = s.tracer.spans.length := by
  have := congrArg List.length h.delivered
  simp only [List.length_append, Chan.length_received] at this
  rw [h.spans, ← this]

theorem inv_init (heap : Ptr → ConsumerMessage) : Inv (init heap) where
  delivered := rfl
  spans := rfl
  finished k := by simp [init]
  prev k := by simp [init]
  done h := by cases h
  next _ _ h := by cases h

theorem inv_step (h : Inv s) (hs : step mint cfg s a = some s') : Inv s' := by
  have hlen := h.length_delivered
  by_cases ha : a ≠ .recv ∧ a ≠ .take
  · obtain ⟨hpc, hprev, htr, hdel, hrec, htk, hcl⟩ := step_env hs ha
    refine ⟨?_, ?_, ?_, ?_, fun hd => ?_, ?_⟩
    · rw [hdel, hpc, hrec]; exact h.delivered
    · rw [htr, htk]; exact h.spans
    · rw [htr, hdel, hpc]; exact h.finished
    · rw [hprev, hdel]; exact h.prev
    · obtain ⟨hc, hp⟩ := h.done (hpc ▸ hd)
      obtain ⟨hc', hp'⟩ := hcl hc
      exact ⟨hc', hp'.trans hp⟩
    · rw [hpc, htr]; exact h.next
  cases a <;> simp at ha
  · obtain ⟨hpc, ⟨p, c, hc, rfl⟩ | ⟨c, hc, rfl⟩⟩ := step_recv hs
    · obtain ⟨-, -, htk, hcl⟩ := Chan.recv_eq_some_some hc
      simp only [hpc, Pc.delivering, List.length_nil, Nat.add_zero] at hlen
      refine ⟨?_, ?_, fun k => ?_, h.prev, fun hd => (by cases hd), fun _ _ hd => ?_⟩
      · simp [onMessage, Pc.delivering, Chan.received_of_recv hc, ← h.delivered, hpc]
      · simp [onMessage, htk, h.spans]
      · have := h.finished k
        simp only [hpc, reduceCtorEq, or_false] at this
        simp only [onMessage, finishCount_startSpan, length_spans_startSpan, reduceCtorEq,
          or_false, this]
        split_ifs <;> omega
      · simp only [onMessage, Pc.deliver.injEq] at hd
        simp [onMessage, hd.2]
    · obtain ⟨rfl, hcl, hp⟩ := Chan.recv_eq_some_none hc
      simp only [hpc, Pc.delivering, List.length_nil, Nat.add_zero] at hlen
      refine ⟨by simpa [hpc, Pc.delivering] using h.delivered, by simpa using h.spans, fun k => ?_,
        h.prev, fun _ => ⟨hcl, hp⟩, fun _ _ hd => (by cases hd)⟩
      have := h.finished k
      simp only [hpc, reduceCtorEq, or_false] at this
      simp only [finishCount_finishPrev, spans_finishPrev, this, h.prev, or_true, and_true]
      split_ifs <;> omega
  · obtain ⟨p, k, hpc, rfl⟩ := step_take hs
    have hk := h.next p k hpc
    simp only [hpc, Pc.delivering, List.length_singleton] at hlen
    refine ⟨by simpa [hpc, Pc.delivering] using h.delivered, by simpa using h.spans, fun j => ?_,
      fun j => ?_, fun hd => (by cases hd), fun _ _ hd => (by cases hd)⟩
    · have := h.finished j
      simp only [hpc, reduceCtorEq, or_false] at this
      simp only [finishCount_finishPrev, spans_finishPrev, this, h.prev, or_false,
        List.length_append, List.length_singleton, reduceCtorEq]
      split_ifs <;> omega
    · simp only [List.length_append, List.length_singleton, Option.some.injEq]
      omega

theorem inv_of_reachable (hs : Reachable mint cfg s) : Inv s :=
  Machine.reachable_induction inv_init (fun _ _ _ => inv_step) hs

/-- Once the relay has closed its channel it has delivered everything sent. -/
theorem delivered_of_done (h : Inv s) (hd : s.pc = .done) : s.delivered = s.messages.sent := by
  have := h.delivered
  simp only [hd, Pc.delivering, List.append_nil] at this
  rw [this, ← Chan.received_append_pending s.messages, (h.done hd).2, List.append_nil]

/-- The relay's and the application's steps that empty a closed channel holding `n` messages. -/
def drain : Nat → List Action
  | 0 => [.recv]
  | n + 1 => .recv :: .take :: drain n

theorem mem_drain (n : Nat) : ∀ a ∈ drain n, a = .recv ∨ a = .take := by
  induction n with
  | zero => simp [drain]
  | succ n ih => simpa [drain] using ih

/-- The application's take after the relay took `p`: the state the loop head is back at. -/
private def afterTake (s : State) (p : Ptr) : State :=
  { s with pc := .range, delivered := s.delivered ++ [p], tracer := finishPrev s.tracer s.prev,
           prev := some (s.tracer.spans.length - 1) }

theorem run_drain (mint : Nat → UInt64) (cfg : Config) (n : Nat) : ∀ s, s.pc = .range → s.messages.closed = true →
    s.messages.pending.length = n → ∃ s', run mint cfg s (drain n) = some s' ∧ s'.pc = .done := by
  induction n with
  | zero =>
    intro s hpc hc hp
    have hr := Chan.recv_of_pending_nil hc (List.length_eq_zero.1 hp)
    exact ⟨{ s with pc := .done, tracer := finishPrev s.tracer s.prev },
      by simp [drain, run, step, hpc, hr], rfl⟩
  | succ n ih =>
    intro s hpc hc hp
    obtain ⟨p, rest, hpr⟩ : ∃ p rest, s.messages.pending = p :: rest := by
      cases h : s.messages.pending with
      | nil => simp [h] at hp
      | cons p rest => exact ⟨p, rest, rfl⟩
    obtain ⟨c, hrc, hcp, hcc⟩ := Chan.recv_of_pending_cons hpr
    let s₁ := onMessage mint cfg { s with messages := c } p
    have h₁ : step mint cfg s .recv = some s₁ := by simp [s₁, step, hpc, hrc]
    have h₂ : step mint cfg s₁ .take = some (afterTake s₁ p) := by
      simp [s₁, afterTake, step, onMessage]
    obtain ⟨s', hr, hd⟩ := ih (afterTake s₁ p) rfl (by simp [afterTake, s₁, onMessage, hcc, hc])
      (by simpa [afterTake, s₁, onMessage, hcp, hpr] using hp)
    exact ⟨s', by simpa [drain, run, h₁, h₂] using hr, hd⟩

/-- Once the underlying channel is closed, the relay and an application that keeps reading
reach the close of the wrapper's channel from wherever they are. -/
theorem exists_run_done (hc : s.messages.closed = true) :
    ∃ as s', (∀ a ∈ as, a = .recv ∨ a = .take) ∧ run mint cfg s as = some s' ∧ s'.pc = .done := by
  match hpc : s.pc with
  | .done => exact ⟨[], s, by simp, rfl, hpc⟩
  | .range =>
    obtain ⟨s', hr, hd⟩ := run_drain mint cfg _ s hpc hc rfl
    exact ⟨_, s', mem_drain _, hr, hd⟩
  | .deliver p k =>
    let s₁ : State := { s with
      pc := .range, delivered := s.delivered ++ [p], tracer := finishPrev s.tracer s.prev
      prev := some k }
    have h₁ : step mint cfg s .take = some s₁ := by simp [s₁, step, hpc]
    obtain ⟨s', hr, hd⟩ := run_drain mint cfg _ s₁ rfl hc rfl
    exact ⟨.take :: drain s₁.messages.pending.length, s',
      by simpa using mem_drain s₁.messages.pending.length, by simpa [run, h₁] using hr, hd⟩

/-- The relay's and the application's steps leave what was sent alone. -/
theorem sent_of_step (ha : a = .recv ∨ a = .take) (h : step mint cfg s a = some s') :
    s'.messages.sent = s.messages.sent := by
  rcases ha with rfl | rfl
  · obtain ⟨-, ⟨p, c, hc, rfl⟩ | ⟨c, -, rfl⟩⟩ := step_recv h
    · exact (Chan.recv_eq_some_some hc).2.1
    · rfl
  · obtain ⟨p, k, -, rfl⟩ := step_take h
    rfl

theorem run_produce (mint : Nat → UInt64) (cfg : Config) (ps : List Ptr) :
    ∀ s : State, s.messages.closed = false → ∃ c : Chan Ptr,
      run mint cfg s (ps.map .produce) = some { s with messages := c } ∧
      c.sent = s.messages.sent ++ ps ∧ c.closed = false := by
  induction ps with
  | nil => exact fun s hc => ⟨s.messages, rfl, by simp, hc⟩
  | cons p ps ih =>
    intro s hc
    obtain ⟨c₁, hc₁⟩ : ∃ c₁, s.messages.send p = some c₁ := ⟨_, if_neg (by simp [hc])⟩
    obtain ⟨-, hsent, -, hcl⟩ := Chan.send_eq_some hc₁
    obtain ⟨c, hr, hs, hcl'⟩ := ih { s with messages := c₁ } hcl
    exact ⟨c, by simpa [run, step, hc₁] using hr, by simp [hs, hsent], hcl'⟩

/-- Every list of messages, sent and followed by the close, is delivered in order, and the relay
then closes its channel. -/
theorem run_delivers_all (heap : Ptr → ConsumerMessage) (ps : List Ptr) :
    ∃ as s', (∀ a ∈ as, a = .recv ∨ a = .take) ∧
      run mint cfg (init heap) (ps.map .produce ++ .close :: as) = some s' ∧ s'.pc = .done ∧
      s'.delivered = ps := by
  obtain ⟨c, hr, hsent, hcl⟩ := run_produce mint cfg ps (init heap) rfl
  obtain ⟨c', hc'⟩ : ∃ c', c.close = some c' := ⟨_, if_neg (by simp [hcl])⟩
  obtain ⟨-, hsent', -, hcl'⟩ := Chan.close_eq_some hc'
  have h₁ : run mint cfg (init heap) (ps.map .produce ++ [.close]) =
      some { init heap with messages := c' } :=
    Machine.run_append_of hr (by simp [step, hc'])
  obtain ⟨as, s', has, h₂, hd⟩ := @exists_run_done mint cfg { init heap with messages := c' } hcl'
  have hreach : Reachable mint cfg s' :=
    Machine.Reachable.run _ (.init heap) (Machine.run_append_of h₁ h₂)
  have hsent₂ : s'.messages.sent = c'.sent :=
    Machine.run_closed_mem (P := fun t => t.messages.sent = c'.sent)
      (fun _ a _ ha ht h => (sent_of_step (has a ha) h).trans ht) rfl h₂
  refine ⟨as, s', has, by rw [List.append_cons]; exact Machine.run_append_of h₁ h₂, hd, ?_⟩
  rw [delivered_of_done (inv_of_reachable hreach) hd, hsent₂, hsent', hsent]
  rfl

/-- At most two indices below `n` satisfy a predicate that only the last two can satisfy. -/
theorem countP_range_le_two {n : Nat} {p : Nat → Bool} (h : ∀ k < n, p k = true → n ≤ k + 2) :
    (List.range n).countP p ≤ 2 := by
  rcases Nat.lt_or_ge n 2 with hn | hn
  · exact (List.countP_le_length _).trans (by simp; omega)
  · obtain ⟨m, rfl⟩ : ∃ m, n = m + 2 := ⟨n - 2, by omega⟩
    have h₀ : (List.range m).countP p = 0 := List.countP_eq_zero.2 fun k hk hp => by
      have := h k (by simp at hk; omega) hp
      simp at hk; omega
    simp only [List.range_succ, List.countP_append, h₀, List.countP_cons, List.countP_nil]
    split_ifs <;> omega

/-- Under every interleaving: the application takes the relay's messages in order, one span per
message, span `k` finished once exactly when message `k + 1` is taken or the channel closes, at
most two open; and every list of messages sent and closed is delivered, then the close. -/
theorem consumer_delivers_in_order (hs : Reachable mint cfg s) :
    s.delivered ++ s.pc.delivering = s.messages.received ∧
    s.tracer.spans.length = s.messages.received.length ∧
    (∀ k, finishCount s.tracer k =
      if k < s.tracer.spans.length ∧ (k + 1 < s.delivered.length ∨ s.pc = .done) then 1 else 0) ∧
    (List.range s.tracer.spans.length).countP (fun k => finishCount s.tracer k = 0) ≤ 2 ∧
    (s.pc = .done → s.messages.closed = true ∧ s.delivered = s.messages.sent) ∧
    (s.messages.closed = true → ∃ as s', (∀ a ∈ as, a = .recv ∨ a = .take) ∧
      run mint cfg s as = some s' ∧ s'.pc = .done) ∧
    (∀ (heap : Ptr → ConsumerMessage) (ps : List Ptr), ∃ as s', (∀ a ∈ as, a = .recv ∨ a = .take) ∧
      run mint cfg (init heap) (ps.map .produce ++ .close :: as) = some s' ∧ s'.pc = .done ∧
      s'.delivered = ps) := by
  have h := inv_of_reachable hs
  refine ⟨h.delivered, by simp [h.spans], h.finished, countP_range_le_two fun k hk h0 => ?_,
    fun hd => ⟨(h.done hd).1, delivered_of_done h hd⟩, exists_run_done, run_delivers_all⟩
  have hlen := h.length_delivered
  have hle : s.pc.delivering.length ≤ 1 := by cases s.pc <;> simp [Pc.delivering]
  rw [h.finished k] at h0
  split_ifs at h0 with hc
  · simp at h0
  · omega

end

/-- Messages to topic `orders`, for the sample run. -/
def sampleHeap (_ : Ptr) : ConsumerMessage := ⟨"orders", 0, 0, none⟩

/-- Two messages sent and the channel closed; the application has taken both, and the relay has
taken the close. -/
def twoMessages : State :=
  (run sampleMint sampleConfig (init sampleHeap)
    [.produce 0, .produce 1, .close, .recv, .take, .recv, .take, .recv]).getD (init sampleHeap)

theorem consumer_delivers_in_order_twoMessages :
    Reachable sampleMint sampleConfig twoMessages ∧ twoMessages.delivered = [0, 1] ∧
    twoMessages.pc = .done ∧
    (twoMessages.delivered ++ twoMessages.pc.delivering = twoMessages.messages.received ∧
    twoMessages.tracer.spans.length = twoMessages.messages.received.length ∧
    (∀ k, finishCount twoMessages.tracer k =
      if k < twoMessages.tracer.spans.length ∧
        (k + 1 < twoMessages.delivered.length ∨ twoMessages.pc = .done) then 1 else 0) ∧
    (List.range twoMessages.tracer.spans.length).countP
      (fun k => finishCount twoMessages.tracer k = 0) ≤ 2 ∧
    (twoMessages.pc = .done → twoMessages.messages.closed = true ∧
      twoMessages.delivered = twoMessages.messages.sent) ∧
    (twoMessages.messages.closed = true → ∃ as s', (∀ a ∈ as, a = .recv ∨ a = .take) ∧
      run sampleMint sampleConfig twoMessages as = some s' ∧ s'.pc = .done) ∧
    (∀ (heap : Ptr → ConsumerMessage) (ps : List Ptr), ∃ as s',
      (∀ a ∈ as, a = .recv ∨ a = .take) ∧
      run sampleMint sampleConfig (init heap) (ps.map .produce ++ .close :: as) = some s' ∧
      s'.pc = .done ∧ s'.delivered = ps)) :=
  have h : Reachable sampleMint sampleConfig twoMessages :=
    Machine.Reachable.run [.produce 0, .produce 1, .close, .recv, .take, .recv, .take, .recv]
      (.init sampleHeap) rfl
  ⟨h, rfl, rfl, consumer_delivers_in_order h⟩

end DDTrace.Sarama.PartitionConsumer
