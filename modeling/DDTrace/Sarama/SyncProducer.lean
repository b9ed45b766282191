import DDTrace.Sarama.ProducerSpan
import Mathlib.Logic.Function.Basic

/-!
# The `WrapSyncProducer` producer

`SendMessage` starts the message's span, calls the underlying `SendMessage`, and finishes the span
with the partition, offset and error that call returned. `SendMessages` starts one span per
message, in order, makes one call to the underlying `SendMessages`, and then finishes every span
with its message's partition and offset, read after the call, and the call's one error.

The underlying producer is not under src/: what its calls return, and the messages as it leaves
them (sarama writes the partition and offset into each), are parameters (`Producer`).
-/

namespace DDTrace.Sarama.SyncProducer

/-- The underlying `sarama.SyncProducer`, over the heap of messages. -/
structure Producer where
  sendMessage : (Ptr → ProducerMessage) → Ptr → (Int × Int × Option String) × (Ptr → ProducerMessage)
  sendMessages : (Ptr → ProducerMessage) → List Ptr → Option String × (Ptr → ProducerMessage)

structure State where
  tracer : Tracer
  heap : Ptr → ProducerMessage

section

variable (mint : Nat → UInt64) (cfg : Config) (version : KafkaVersion) (producer : Producer)

/-- `startProducerSpan(p.cfg, p.version, msg)` on the message at `p`: the span, and the state with
the span started and the headers written. -/
def startSpan (s : State) (p : Ptr) : Nat × State :=
  let r := startProducerSpan mint cfg version (s.heap p) s.tracer
  (s.tracer.spans.length, ⟨r.1, Function.update s.heap p r.2⟩)

/-- `for i, msg := range msgs { spans[i] = startProducerSpan(p.cfg, p.version, msg) }`. -/
def startSpans : State → List Ptr → List Nat × State
  | s, [] => ([], s)
  | s, p :: ps =>
    let r := startSpan mint cfg version s p
    let rs := startSpans r.2 ps
    (r.1 :: rs.1, rs.2)

/-- `for i, span := range spans { finishProducerSpan(span, msgs[i].Partition, msgs[i].Offset,
err) }`. -/
def finishSpans (heap : Ptr → ProducerMessage) (err : Option String) :
    Tracer → List (Nat × Ptr) → Tracer
  | t, [] => t
  | t, (k, p) :: rest =>
    finishSpans heap err (finishProducerSpan t k (heap p).partition (heap p).offset err) rest

/-- `(*syncProducer).SendMessage`. -/
def sendMessage (s : State) (p : Ptr) : (Int × Int × Option String) × State :=
  let r := startSpan mint cfg version s p
  let res := producer.sendMessage r.2.heap p
  (res.1, ⟨finishProducerSpan r.2.tracer r.1 res.1.1 res.1.2.1 res.1.2.2, res.2⟩)

/-- `(*syncProducer).SendMessages`. -/
def sendMessages (s : State) (msgs : List Ptr) : Option String × State :=
  let r := startSpans mint cfg version s msgs
  let res := producer.sendMessages r.2.heap msgs
  (res.1, ⟨finishSpans res.2 res.1 r.2.tracer (r.1.zip msgs), res.2⟩)

end

section

variable {mint : Nat → UInt64} {cfg : Config} {version : KafkaVersion}

/-- The calls `finishProducerSpan` makes for span `k` of the message at `p`. -/
def finishCalls (heap : Ptr → ProducerMessage) (err : Option String) (k : Nat) (p : Ptr) :
    List SpanCall :=
  [.setTag k (.name "partition") (.int (heap p).partition),
    .setTag k (.name "offset") (.int (heap p).offset), .finish k err]

/-- The spans `startSpans` starts are the next ones, in order, and no span is tagged or finished. -/
theorem startSpans_spans (s : State) (msgs : List Ptr) :
    (startSpans mint cfg version s msgs).1 = List.range' s.tracer.spans.length msgs.length ∧
      (startSpans mint cfg version s msgs).2.tracer.spans.length =
        s.tracer.spans.length + msgs.length ∧
      (startSpans mint cfg version s msgs).2.tracer.calls = s.tracer.calls := by
  induction msgs generalizing s with
  | nil => simp [startSpans]
  | cons p ps ih =>
    obtain ⟨h₁, h₂, h₃⟩ := ih (startSpan mint cfg version s p).2
    simp only [startSpans, startSpan, length_spans_startProducerSpan, calls_startProducerSpan]
      at h₁ h₂ h₃ ⊢
    refine ⟨?_, by rw [h₂, List.length_cons]; omega, h₃⟩
    rw [h₁, List.length_cons, List.range'_succ]

@[simp] theorem spans_finishSpans (heap : Ptr → ProducerMessage) (err : Option String)
    (t : Tracer) (ks : List (Nat × Ptr)) : (finishSpans heap err t ks).spans = t.spans := by
  induction ks generalizing t with
  | nil => rfl
  | cons kp ks ih => exact (ih _).trans (spans_finishProducerSpan _ _ _ _ _)

theorem calls_finishSpans (heap : Ptr → ProducerMessage) (err : Option String) (t : Tracer)
    (ks : List (Nat × Ptr)) :
    (finishSpans heap err t ks).calls = t.calls ++ ks.flatMap fun kp => finishCalls heap err kp.1 kp.2 := by
  induction ks generalizing t with
  | nil => simp [finishSpans]
  | cons kp ks ih =>
    obtain ⟨k, p⟩ := kp
    simp [finishSpans, ih, calls_finishProducerSpan, finishCalls]

theorem countP_finishCalls (heap : Ptr → ProducerMessage) (err : Option String) (k : Nat)
    (p : Ptr) (j : Nat) :
    (finishCalls heap err k p).countP (SpanCall.finishes j) = if k = j then 1 else 0 := by
  by_cases h : k = j <;> simp [finishCalls, SpanCall.finishes, h]

/-- Span `j` is finished once among the calls for spans `n`, `n + 1`, ... of the messages. -/
theorem countP_finishCalls_zip (heap : Ptr → ProducerMessage) (err : Option String)
    (msgs : List Ptr) (n j : Nat) :
    (((List.range' n msgs.length).zip msgs).flatMap fun kp => finishCalls heap err kp.1 kp.2).countP
      (SpanCall.finishes j) = if n ≤ j ∧ j < n + msgs.length then 1 else 0 := by
  induction msgs generalizing n with
  | nil => simp only [List.length_nil, Nat.add_zero]; rw [if_neg (by omega)]; rfl
  | cons p ps ih =>
    simp only [List.length_cons, List.range'_succ, List.zip_cons_cons, List.flatMap_cons,
      List.countP_append, countP_finishCalls, ih]
    split_ifs <;> omega

/-- `SendMessages` starts one span per message, the next ones in order, returns the underlying
call's error, and then tags and finishes each span once, in order, with its message's partition
and offset as the call left them and with that error. -/
theorem sendMessages_finishes_each_span (producer : Producer) (s : State) (msgs : List Ptr) :
    let r := sendMessages mint cfg version producer s msgs
    let n := s.tracer.spans.length
    r.1 = (producer.sendMessages (startSpans mint cfg version s msgs).2.heap msgs).1 ∧
    r.2.tracer.spans.length = n + msgs.length ∧
    r.2.tracer.calls = s.tracer.calls ++
      ((List.range' n msgs.length).zip msgs).flatMap (fun kp => finishCalls r.2.heap r.1 kp.1 kp.2) ∧
    ∀ j, finishCount r.2.tracer j =
      finishCount s.tracer j + if n ≤ j ∧ j < n + msgs.length then 1 else 0 := by
  obtain ⟨h₁, h₂, h₃⟩ := @startSpans_spans mint cfg version s msgs
  simp [sendMessages, calls_finishSpans, h₁, h₂, h₃, finishCount, countP_finishCalls_zip]

/-- When the underlying `SendMessages` is called, each message of the batch (each pointer once)
carries, from `V0_11_0_0` on, the context of its own span in its headers, and nothing else of the
heap has changed. -/
theorem sendMessages_injects_headers (s : State) (msgs : List Ptr) (hd : msgs.Nodup) (p : Ptr) :
    (startSpans mint cfg version s msgs).2.heap p =
      if p ∈ msgs ∧ version.isAtLeast V0_11_0_0 then
        { s.heap p with headers := some (contextOf (mint (s.tracer.spans.length + msgs.indexOf p))
            (producerSpanOptions cfg (s.heap p))) }
      else s.heap p := by
  induction msgs generalizing s with
  | nil => simp [startSpans]
  | cons q qs ih =>
    obtain ⟨hq, hqs⟩ := List.nodup_cons.mp hd
    rw [startSpans, ih _ hqs]
    by_cases hpq : p = q
    · subst hpq
      by_cases hv : version.isAtLeast V0_11_0_0 <;>
        simp [startSpan, startProducerSpan, hq, hv]
    · simp [startSpan, startProducerSpan, hpq, List.indexOf_cons_ne _ (Ne.symm hpq), Nat.add_assoc,
        Nat.add_comm 1]

/-- No span yet, and every message an unsent one on topic `orders`. -/
def sampleState : State := ⟨Tracer.empty, fun _ => ⟨"orders", 0, 0, none⟩⟩

/-- A batch of two messages at `V0_11_0_0`: the second carries the context of the second span. -/
theorem sendMessages_injects_headers_batch :
    [3, 5].Nodup ∧
      (startSpans sampleMint sampleConfig V0_11_0_0 sampleState [3, 5]).2.heap 5 = ⟨"orders", 0, 0,
          some (contextOf (sampleMint 1) (producerSpanOptions sampleConfig ⟨"orders", 0, 0, none⟩))⟩ :=
  ⟨by decide, (@sendMessages_injects_headers sampleMint sampleConfig V0_11_0_0 _ [3, 5] (by decide)
    5).trans (if_pos (by decide))⟩

end

end DDTrace.Sarama.SyncProducer
