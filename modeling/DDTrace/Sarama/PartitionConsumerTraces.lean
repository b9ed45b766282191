import DDTrace.Sarama.PartitionConsumerSpans
import Mathlib.Data.List.Nodup

/-!
# The traces the consumer relay continues

For each message, the relay extracts a span context from the message's headers and starts the
`kafka.consume` span as its child, then injects the new span's context into the same headers
before handing the message on. So a consume span joins the trace the message arrived with, and
the application that reads the message finds the consume span's context in it.

This holds over whole runs when no one else writes the messages and no message object is taken
twice: the `k`-th consume span is the child of the context the `k`-th message taken carried when
it was sent, in that context's trace (or in a new trace under its own span ID when the headers
carried none), and that message now carries the consume span's context
(`consume_spans_continue_message_traces`).
-/

namespace DDTrace.Sarama.PartitionConsumer

/-- No option of the consume span but the `ChildOf` of the headers names a parent. -/
theorem parentOf_consumerSpanOptions (cfg : Config) (m : ConsumerMessage) :
    parentOf (consumerSpanOptions cfg m) = m.headers := by
  cases h : m.headers with
  | some c => simp only [consumerSpanOptions, h, childOfHeaders, parentOf_append_childOf]
  | none =>
    simp only [consumerSpanOptions, h, childOfHeaders, analyticsTag, eventSampleRateTag,
      List.append_nil]
    split <;> rfl

section

variable (mint : Nat → UInt64) (cfg : Config)

/-- The consume span started for a message `m`, as span `k`. -/
def consumeSpan (k : Nat) (m : ConsumerMessage) : Span :=
  ⟨"kafka.consume", consumerSpanOptions cfg m, contextOf (mint k) (consumerSpanOptions cfg m)⟩

/-- The messages not yet taken are as they were sent, and the `k`-th message taken has the `k`-th
span, started from its headers as sent, and carries that span's context. -/
structure TracesInv (heap₀ : Ptr → ConsumerMessage) (s : State) : Prop where
  untaken : ∀ p, p ∉ s.messages.received → s.heap p = heap₀ p
  spans : ∀ k p, s.messages.received[k]? = some p →
    s.tracer.spans[k]? = some (consumeSpan mint cfg k (heap₀ p)) ∧
      (s.heap p).headers = some (consumeSpan mint cfg k (heap₀ p)).context

end

section

variable {mint : Nat → UInt64} {cfg : Config} {heap₀ : Ptr → ConsumerMessage} {s s' : State}
  {a : Action}

theorem received_of_step (h : step mint cfg s a = some s') :
    s'.messages.received = s.messages.received ∨
      ∃ p, s'.messages.received = s.messages.received ++ [p] := by
  cases a with
  | write p m => cases h; exact .inl rfl
  | produce p =>
    obtain ⟨c, hc, rfl⟩ := Option.map_eq_some'.1 h
    exact .inl (Chan.received_of_send hc)
  | close =>
    obtain ⟨c, hc, rfl⟩ := Option.map_eq_some'.1 h
    exact .inl (Chan.received_of_close hc)
  | recv =>
    obtain ⟨-, ⟨p, c, hc, rfl⟩ | ⟨c, hc, rfl⟩⟩ := step_recv h
    · exact .inr ⟨p, Chan.received_of_recv hc⟩
    · exact .inl rfl
  | take =>
    obtain ⟨p, k, -, rfl⟩ := step_take h
    exact .inl rfl

/-- What a run has taken extends what it started from. -/
theorem received_prefix_run {as : List Action} (h : run mint cfg s as = some s') :
    s.messages.received <+: s'.messages.received :=
  Machine.run_closed (P := fun t => s.messages.received <+: t.messages.received)
    (fun _ _ _ ht h₁ => ht.trans (by
      rcases received_of_step h₁ with h₂ | ⟨p, h₂⟩
      · exact h₂ ▸ List.prefix_refl _
      · exact h₂ ▸ List.prefix_append _ _))
    (List.prefix_refl _) h

/-- The relay's take of message `p`, as span `s.tracer.spans.length`, keeps the invariant when `p`
was not taken before. -/
theorem tracesInv_onMessage {c : Chan Ptr} {p : Ptr} (hi : TracesInv mint cfg heap₀ s)
    (hlen : s.tracer.spans.length = s.messages.received.length)
    (hc : c.received = s.messages.received ++ [p]) (hp : p ∉ s.messages.received) :
    TracesInv mint cfg heap₀ (onMessage mint cfg { s with messages := c } p) := by
  have hp₀ := hi.untaken p hp
  refine ⟨fun q hq => ?_, fun k q hq => ?_⟩
  · simp only [onMessage, hc, List.mem_append, List.mem_singleton, not_or] at hq ⊢
    rw [Function.update_noteq hq.2]
    exact hi.untaken q hq.1
  · simp only [onMessage, hc] at hq ⊢
    rcases Nat.lt_or_ge k s.messages.received.length with hk | hk
    · rw [List.getElem?_append_left hk] at hq
      have hq' : q ≠ p := fun he => hp (he ▸ List.getElem?_mem hq)
      obtain ⟨h₁, h₂⟩ := hi.spans k q hq
      rw [Function.update_noteq hq']
      refine ⟨?_, h₂⟩
      rw [Tracer.startSpan, List.getElem?_append_left (by rw [hlen]; exact hk)]
      exact h₁
    · rw [List.getElem?_append_right hk] at hq
      obtain ⟨hk', rfl⟩ : k = s.messages.received.length ∧ q = p := by
        have := (List.getElem?_eq_some_iff.1 hq).1
        simp only [List.length_singleton] at this
        refine ⟨by omega, ?_⟩
        rw [show k - s.messages.received.length = 0 by omega] at hq
        exact (Option.some.inj hq).symm
      subst hk'
      rw [Function.update_same, hp₀, Tracer.startSpan,
        List.getElem?_append_right (by rw [hlen]), hlen, Nat.sub_self]
      exact ⟨rfl, rfl⟩

theorem tracesInv_step (hi : TracesInv mint cfg heap₀ s) (hI : Inv s)
    (hw : ∀ p m, a ≠ .write p m) (hn : s'.messages.received.Nodup)
    (h : step mint cfg s a = some s') : TracesInv mint cfg heap₀ s' := by
  have hlen : s.tracer.spans.length = s.messages.received.length := by simp [hI.spans]
  cases a with
  | write p m => exact absurd rfl (hw p m)
  | produce p =>
    obtain ⟨c, hc, rfl⟩ := Option.map_eq_some'.1 h
    exact ⟨fun q hq => hi.untaken q (by rwa [Chan.received_of_send hc] at hq),
      fun k q hq => hi.spans k q (by rwa [Chan.received_of_send hc] at hq)⟩
  | close =>
    obtain ⟨c, hc, rfl⟩ := Option.map_eq_some'.1 h
    exact ⟨fun q hq => hi.untaken q (by rwa [Chan.received_of_close hc] at hq),
      fun k q hq => hi.spans k q (by rwa [Chan.received_of_close hc] at hq)⟩
  | recv =>
    obtain ⟨-, ⟨p, c, hc, rfl⟩ | ⟨c, hc, rfl⟩⟩ := step_recv h
    · have hrc := Chan.received_of_recv hc
      have hp : p ∉ s.messages.received := by
        have hn' : (s.messages.received ++ [p]).Nodup := by
          simpa [onMessage, hrc] using hn
        exact fun hmem => (List.nodup_append.1 hn').2.2 hmem (List.mem_singleton_self p)
      exact tracesInv_onMessage hi hlen hrc hp
    · exact ⟨hi.untaken, fun k q hq => by simpa using hi.spans k q hq⟩
  | take =>
    obtain ⟨p, k, -, rfl⟩ := step_take h
    exact ⟨hi.untaken, fun k q hq => by simpa using hi.spans k q hq⟩

theorem tracesInv_run {as : List Action} (hi : TracesInv mint cfg heap₀ s)
    (hr : Reachable mint cfg s) (hw : ∀ a ∈ as, ∀ p m, a ≠ .write p m)
    (h : run mint cfg s as = some s') (hn : s'.messages.received.Nodup) :
    TracesInv mint cfg heap₀ s' := by
  induction as generalizing s with
  | nil => cases h; exact hi
  | cons a as ih =>
    obtain ⟨s₁, h₁, h⟩ := Option.bind_eq_some.1 h
    have hn₁ := hn.sublist (received_prefix_run h).sublist
    exact ih (tracesInv_step hi (inv_of_reachable hr) (hw a (List.mem_cons_self _ _)) hn₁ h₁)
      (.step a hr h₁) (fun b hb => hw b (List.mem_cons_of_mem _ hb)) h

end

/-- In every run where no one else writes the messages and none is taken twice, the `k`-th span is
a `kafka.consume` child of the context the `k`-th message taken carried when sent (or a new trace),
and that message now carries the span's context. -/
theorem consume_spans_continue_message_traces (mint : Nat → UInt64) (cfg : Config)
    (heap₀ : Ptr → ConsumerMessage) (as : List Action) (s : State)
    (h : run mint cfg (init heap₀) as = some s) (hw : ∀ a ∈ as, ∀ p m, a ≠ .write p m)
    (hn : s.messages.received.Nodup) :
    s.tracer.spans.length = s.messages.received.length ∧
    ∀ k p, s.messages.received[k]? = some p → ∃ sp : Span, s.tracer.spans[k]? = some sp ∧
      sp.operationName = "kafka.consume" ∧ parentOf sp.opts = (heap₀ p).headers ∧
      sp.context = ⟨(heap₀ p).headers.elim (mint k) SpanContext.traceID, mint k⟩ ∧
      (s.heap p).headers = some sp.context := by
  have hr := Machine.Reachable.run as (.init heap₀) h
  have hi : TracesInv mint cfg heap₀ s :=
    tracesInv_run ⟨fun _ _ => rfl, fun k p hp => by simp [init] at hp⟩ (.init heap₀) hw h hn
  refine ⟨by simp [(inv_of_reachable hr).spans], fun k p hp => ?_⟩
  obtain ⟨h₁, h₂⟩ := hi.spans k p hp
  exact ⟨_, h₁, rfl, parentOf_consumerSpanOptions cfg _,
    by simp [consumeSpan, contextOf, parentOf_consumerSpanOptions], h₂⟩

/-- Messages on topic `orders` at their own offsets; message 1 arrives with a span context. -/
def tracedHeap (p : Ptr) : ConsumerMessage :=
  ⟨"orders", 0, p, if p = 1 then some ⟨7, 9⟩ else none⟩

/-- Messages 0 and 1 sent and the channel closed; the relay and the application take both, and the
relay takes the close. -/
def tracedRun : List Action :=
  [.produce 0, .produce 1, .close, .recv, .take, .recv, .take, .recv]

def tracedState : State := (run sampleMint sampleConfig (init tracedHeap) tracedRun).getD
  (init tracedHeap)

theorem consume_spans_continue_message_traces_tracedRun :
    run sampleMint sampleConfig (init tracedHeap) tracedRun = some tracedState ∧
    (∀ a ∈ tracedRun, ∀ p m, a ≠ .write p m) ∧ tracedState.messages.received.Nodup ∧
    tracedState.tracer.spans.length = tracedState.messages.received.length ∧
    ∀ k p, tracedState.messages.received[k]? = some p →
      ∃ sp : Span, tracedState.tracer.spans[k]? = some sp ∧
      sp.operationName = "kafka.consume" ∧ parentOf sp.opts = (tracedHeap p).headers ∧
      sp.context = ⟨(tracedHeap p).headers.elim (sampleMint k) SpanContext.traceID, sampleMint k⟩ ∧
      (tracedState.heap p).headers = some sp.context :=
  have h : run sampleMint sampleConfig (init tracedHeap) tracedRun = some tracedState := rfl
  have hw : ∀ a ∈ tracedRun, ∀ p m, a ≠ .write p m := by simp [tracedRun]
  have hn : tracedState.messages.received.Nodup :=
    (show tracedState.messages.received = [0, 1] from rfl) ▸ by decide
  ⟨h, hw, hn, consume_spans_continue_message_traces sampleMint sampleConfig tracedHeap tracedRun
    tracedState h hw hn⟩

end DDTrace.Sarama.PartitionConsumer
