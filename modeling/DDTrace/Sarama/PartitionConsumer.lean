import DDTrace.Sarama.Message
import DDTrace.Chan
import DDTrace.Machine
import Mathlib.Logic.Function.Basic

/-!
# The `WrapPartitionConsumer` relay

The wrapper's `Messages()` channel is fed by one relay goroutine that ranges over the underlying
`Messages()`. For each message it starts a `kafka.consume` span `next`, writes that span's
context into the message's headers, hands the message to the application, and only then
finishes the span of the previous message. When the underlying channel is closed and drained it
finishes the last span and closes the wrapper's channel.

The system is a step function over the relay's program point, `prev`, the tracer, the heap of
messages and the two channels. The underlying partition consumer may send and close at any time
and the application reads at its own pace, so every run of enabled steps is an interleaving.
-/

namespace DDTrace.Sarama.PartitionConsumer

/-- Where the relay goroutine is: at `for msg := range msgs`, blocked in
`wrapped.messages <- msg` with the span `next` it started for `msg`, or past
`close(wrapped.messages)`. -/
inductive Pc
  | range
  | deliver (msg : Ptr) (next : Nat)
  | done
  deriving DecidableEq, Repr

/-- The message the relay is handing to the application. -/
def Pc.delivering : Pc → List Ptr
  | .deliver p _ => [p]
  | _ => []

/-- The relay's state, the underlying `pc.Messages()` channel, and the messages the application has
taken from the wrapper's `Messages()`. -/
structure State where
  pc : Pc
  prev : Option Nat
  tracer : Tracer
  heap : Ptr → ConsumerMessage
  messages : Chan Ptr
  delivered : List Ptr

/-- A message object is written; the partition consumer sends on or closes its `Messages()`; the
relay's `range` takes from it; or the application takes from the wrapper's `Messages()`. -/
inductive Action
  | write (p : Ptr) (m : ConsumerMessage)
  | produce (p : Ptr)
  | close
  | recv
  | take

def consumerSpanOptions (cfg : Config) (msg : ConsumerMessage) : List StartSpanOption :=
  [.serviceName cfg.consumerServiceName, .resourceName ("Consume Topic " ++ msg.topic),
    .spanType .spanTypeMessageConsumer, .tag (.name "partition") (.int msg.partition),
    .tag (.name "offset") (.int msg.offset), .tag (.ext .component) (.str "Shopify/sarama"),
    .tag (.ext .spanKind) (.ext .spanKindConsumer), .measured] ++ analyticsTag cfg ++
    childOfHeaders msg.headers

/-- `if prev != nil { prev.Finish() }`. -/
def finishPrev (t : Tracer) : Option Nat → Tracer
  | some k => t.finish k none
  | none => t

section

variable (mint : Nat → UInt64) (cfg : Config)

/-- The loop body up to `wrapped.messages <- msg`: start `next` and re-inject its context. -/
def onMessage (s : State) (p : Ptr) : State :=
  let opts := consumerSpanOptions cfg (s.heap p)
  { s with
    pc := .deliver p s.tracer.spans.length
    tracer := s.tracer.startSpan mint "kafka.consume" opts
    heap := Function.update s.heap p
      { s.heap p with headers := some (contextOf (mint s.tracer.spans.length) opts) } }

def step (s : State) : Action → Option State
  | .write p m => some { s with heap := Function.update s.heap p m }
  | .produce p => (s.messages.send p).map fun c => { s with messages := c }
  | .close => s.messages.close.map fun c => { s with messages := c }
  | .recv => match s.pc, s.messages.recv with
    | .range, some (some p, c) => some (onMessage mint cfg { s with messages := c } p)
    | .range, some (none, _) => some { s with pc := .done, tracer := finishPrev s.tracer s.prev }
    | _, _ => none
  | .take => match s.pc with
    | .deliver p k => some { s with
        pc := .range, delivered := s.delivered ++ [p], tracer := finishPrev s.tracer s.prev
        prev := some k }
    | _ => none

/-- The relay as `WrapPartitionConsumer` starts it, over any heap of messages. -/
def init (heap : Ptr → ConsumerMessage) : State :=
  ⟨.range, none, Tracer.empty, heap, Chan.empty, []⟩

abbrev Reachable : State → Prop := Machine.Reachable (step mint cfg) init

abbrev run : State → List Action → Option State := Machine.run (step mint cfg)

end

section

variable {mint : Nat → UInt64} {cfg : Config} {s s' : State} {a : Action}

@[simp] theorem spans_finishPrev (t : Tracer) (prev : Option Nat) :
    (finishPrev t prev).spans = t.spans := by
  cases prev <;> rfl

theorem finishCount_finishPrev (t : Tracer) (prev : Option Nat) (k : Nat) :
    finishCount (finishPrev t prev) k = finishCount t k + if prev = some k then 1 else 0 := by
  cases prev <;> simp [finishPrev]

/-- The partition consumer's and the application's writes move nothing the relay owns, and a
send or a close on the underlying channel does not change what the relay has taken from it. -/
theorem step_env (h : step mint cfg s a = some s') (ha : a ≠ .recv ∧ a ≠ .take) :
    s'.pc = s.pc ∧ s'.prev = s.prev ∧ s'.tracer = s.tracer ∧ s'.delivered = s.delivered ∧
      s'.messages.received = s.messages.received ∧ s'.messages.taken = s.messages.taken ∧
      (s.messages.closed = true → s'.messages.closed = true ∧ s'.messages.pending = s.messages.pending) := by
  cases a
  · cases h; simp
  · obtain ⟨c, hc, rfl⟩ := Option.map_eq_some'.1 h
    simp [Chan.received_of_send hc, (Chan.send_eq_some hc).2.2.1, (Chan.send_eq_some hc).1]
  · obtain ⟨c, hc, rfl⟩ := Option.map_eq_some'.1 h
    simp [Chan.received_of_close hc, (Chan.close_eq_some hc).2.2.1, (Chan.close_eq_some hc).1]
  · exact absurd rfl ha.1
  · exact absurd rfl ha.2

theorem step_recv (h : step mint cfg s .recv = some s') :
    s.pc = .range ∧ ((∃ p c, s.messages.recv = some (some p, c) ∧
      s' = onMessage mint cfg { s with messages := c } p) ∨
      (∃ c, s.messages.recv = some (none, c) ∧
        s' = { s with pc := .done, tracer := finishPrev s.tracer s.prev })) := by
  simp only [step] at h
  split at h
  · exact ⟨‹_›, .inl ⟨_, _, ‹_›, (Option.some.inj h).symm⟩⟩
  · exact ⟨‹_›, .inr ⟨_, ‹_›, (Option.some.inj h).symm⟩⟩
  · cases h

theorem step_take (h : step mint cfg s .take = some s') :
    ∃ p k, s.pc = .deliver p k ∧ s' = { s with
      pc := .range, delivered := s.delivered ++ [p], tracer := finishPrev s.tracer s.prev
      prev := some k } := by
  simp only [step] at h
  split at h
  · exact ⟨_, _, ‹_›, (Option.some.inj h).symm⟩
  · cases h

end

end DDTrace.Sarama.PartitionConsumer
