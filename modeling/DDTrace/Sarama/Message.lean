import DDTrace.Tracer.Span

/-!
# Kafka messages, versions and the wrapper's configuration

The fields of the sarama types that the wrappers read. A message's headers are kept as the span
context `tracer.Extract` finds in them: `tracer.Inject` writes a context there and `Extract`
reads it back, which is all the wrappers ask of the propagation format.
-/

namespace DDTrace.Sarama

/-- A `sarama.KafkaVersion`: four numbers, compared lexicographically by `IsAtLeast`. -/
structure KafkaVersion where
  major : Nat
  minor : Nat
  veryMinor : Nat
  patch : Nat
  deriving DecidableEq, Repr

/-- The loop of `KafkaVersion.IsAtLeast` over the version numbers. -/
def isAtLeastLoop : List Nat → List Nat → Bool
  | a :: as, b :: bs => if a > b then true else if a < b then false else isAtLeastLoop as bs
  | _, _ => true

def KafkaVersion.isAtLeast (v other : KafkaVersion) : Bool :=
  isAtLeastLoop [v.major, v.minor, v.veryMinor, v.patch]
    [other.major, other.minor, other.veryMinor, other.patch]

def V0_11_0_0 : KafkaVersion := ⟨0, 11, 0, 0⟩

/-- A message is a pointer: the relays hand the same object around and write its headers. -/
abbrev Ptr := Nat

/-- The fields of a `sarama.ProducerMessage` the relay reads. -/
structure ProducerMessage where
  topic : String
  partition : Int
  offset : Int
  headers : Option SpanContext
  deriving DecidableEq, Repr

/-- A `sarama.ProducerError`: the failed message and the cause. -/
structure ProducerError where
  msg : Ptr
  err : String
  deriving DecidableEq, Repr

/-- `ProducerError.Error`, reading the message's topic from the heap. -/
def ProducerError.error (heap : Ptr → ProducerMessage) (pe : ProducerError) : String :=
  "kafka: Failed to produce message to topic " ++ (heap pe.msg).topic ++ ": " ++ pe.err

/-- The fields of a `sarama.ConsumerMessage` the relay reads. -/
structure ConsumerMessage where
  topic : String
  partition : Int
  offset : Int
  headers : Option SpanContext
  deriving DecidableEq, Repr

/-- The options of the contrib package (`config`), after `defaults` and the caller's options. -/
structure Config where
  consumerServiceName : String
  producerServiceName : String
  analyticsRate : Float

/-- The fields of `sarama.Config` the async producer wrapper reads. -/
structure SaramaConfig where
  version : KafkaVersion
  returnSuccesses : Bool
  deriving DecidableEq, Repr

/-- `WrapAsyncProducer` replaces a nil config by `sarama.NewConfig()`, whose
`Producer.Return.Successes` is false, at version `V0_11_0_0`. -/
def asyncProducerConfig : Option SaramaConfig → SaramaConfig
  | none => ⟨V0_11_0_0, false⟩
  | some c => c

/-- The analytics tag the wrappers add unless the rate is NaN. -/
def analyticsTag (cfg : Config) : List StartSpanOption :=
  eventSampleRateTag cfg.analyticsRate

/-- `ChildOf` the context found in a message's headers, if there is one. -/
def childOfHeaders : Option SpanContext → List StartSpanOption
  | some ctx => [.childOf ctx]
  | none => []

/-- Sample data for the runs of the relays: span IDs counted from one. -/
def sampleMint (k : Nat) : UInt64 := UInt64.ofNat (k + 1)

def sampleConfig : Config := ⟨"kafka", "kafka", 0.5⟩

end DDTrace.Sarama
