import DDTrace.Sarama.Message

/-!
# The span of a produced message

`startProducerSpan` starts a `kafka.produce` span for a message, as the child of the context the
message's headers carry, and from `V0_11_0_0` on writes the new span's context into the headers.
`finishProducerSpan` tags the span with the partition and offset and finishes it with the error.
Both producer wrappers use them.
-/

namespace DDTrace.Sarama

def producerSpanOptions (cfg : Config) (msg : ProducerMessage) : List StartSpanOption :=
  [.serviceName cfg.producerServiceName, .resourceName ("Produce Topic " ++ msg.topic),
    .spanType .spanTypeMessageProducer, .tag (.ext .component) (.str "Shopify/sarama"),
    .tag (.ext .spanKind) (.ext .spanKindProducer)] ++ analyticsTag cfg ++ childOfHeaders msg.headers

/-- `startProducerSpan`: starts span number `t.spans.length`, and from `V0_11_0_0` on writes its
context into the message's headers. -/
def startProducerSpan (mint : Nat → UInt64) (cfg : Config) (version : KafkaVersion)
    (msg : ProducerMessage) (t : Tracer) : Tracer × ProducerMessage :=
  let opts := producerSpanOptions cfg msg
  (t.startSpan mint "kafka.produce" opts,
    if version.isAtLeast V0_11_0_0 then { msg with headers := some (contextOf (mint t.spans.length) opts) }
    else msg)

def finishProducerSpan (t : Tracer) (span : Nat) (partition offset : Int) (err : Option String) :
    Tracer :=
  ((t.setTag span (.name "partition") (.int partition)).setTag span (.name "offset")
    (.int offset)).finish span err

@[simp] theorem spans_finishProducerSpan (t : Tracer) (k : Nat) (partition offset : Int)
    (err : Option String) : (finishProducerSpan t k partition offset err).spans = t.spans := rfl

theorem calls_finishProducerSpan (t : Tracer) (k : Nat) (partition offset : Int)
    (err : Option String) : (finishProducerSpan t k partition offset err).calls =
      t.calls ++ [.setTag k (.name "partition") (.int partition),
        .setTag k (.name "offset") (.int offset), .finish k err] := by
  simp [finishProducerSpan, Tracer.setTag, Tracer.finish]

theorem finishCount_finishProducerSpan (t : Tracer) (k : Nat) (partition offset : Int)
    (err : Option String) (j : Nat) :
    finishCount (finishProducerSpan t k partition offset err) j =
      finishCount t j + if k = j then 1 else 0 := by
  simp [finishProducerSpan]

@[simp] theorem length_spans_startProducerSpan (mint : Nat → UInt64) (cfg : Config)
    (version : KafkaVersion) (msg : ProducerMessage) (t : Tracer) :
    (startProducerSpan mint cfg version msg t).1.spans.length = t.spans.length + 1 := by
  simp [startProducerSpan]

@[simp] theorem calls_startProducerSpan (mint : Nat → UInt64) (cfg : Config)
    (version : KafkaVersion) (msg : ProducerMessage) (t : Tracer) :
    (startProducerSpan mint cfg version msg t).1.calls = t.calls := rfl

end DDTrace.Sarama
