import DDTrace.Sarama.ProducerSpan
import DDTrace.Chan
import DDTrace.Machine
import Mathlib.Logic.Function.Basic

/-!
# The `WrapAsyncProducer` relay

`WrapAsyncProducer` returns a producer whose `Input`, `Successes` and `Errors` are fed by one
relay goroutine. For every message taken from the wrapper's `Input` the relay starts a
`kafka.produce` span and hands the message to the underlying producer; with
`Producer.Return.Successes` it then keeps the span in the map `spans` under its span ID until a
success or an error carrying that ID comes back, and otherwise it finishes the span at once.
When an underlying `Successes` or `Errors` stream is closed the relay returns, and its deferred
calls close the wrapper's three channels.

The system is one step function over the relay's program point, its map, the tracer, the heap of
messages and the channels. The application and the underlying producer are arbitrary: they may
write any message, send any acknowledgement and close either stream at any time. A run is any
sequence of enabled steps, which covers every scheduling and every choice of `select`.
-/

namespace DDTrace.Sarama.AsyncProducer

/-- Where the relay goroutine is: at its `select`, blocked in `p.Input() <- msg` with the span it
just started, in `wrapped.successes <- msg` or in `wrapped.errors <- err`, or returned. -/
inductive Pc
  | select
  | input (msg : Ptr) (span : Nat)
  | success (msg : Ptr)
  | error (err : ProducerError)
  | done
  deriving DecidableEq, Repr

/-- The span whose message is being handed to the underlying `Input`. -/
def Pc.pendingSpan : Pc → Option Nat
  | .input _ k => some k
  | _ => none

/-- The relay's state with its map `spans` from span ID to span, the messages taken from the
wrapper's `Input` and by the underlying producer from its own, the underlying acknowledgement
channels, and what the application took from the wrapper's `Successes` and `Errors`. -/
structure State where
  pc : Pc
  spans : UInt64 → Option Nat
  tracer : Tracer
  heap : Ptr → ProducerMessage
  input : List Ptr
  pInput : List Ptr
  pSuccesses : Chan Ptr
  pErrors : Chan ProducerError
  successes : List Ptr
  errors : List ProducerError

/-- A message object is written; the application sends on the wrapper's `Input` and the relay takes
it; the underlying producer takes the relay's message, acknowledges or closes a stream; the relay's
`select` takes an acknowledgement; or the application takes one from the wrapper. -/
inductive Action
  | write (p : Ptr) (m : ProducerMessage)
  | send (p : Ptr)
  | accept
  | ackSuccess (p : Ptr)
  | ackError (e : ProducerError)
  | closeSuccesses
  | closeErrors
  | recvSuccess
  | recvError
  | takeSuccess
  | takeError

section

variable (mint : Nat → UInt64) (cfg : Config) (sc : SaramaConfig)

/-- `case msg := <-wrapped.input`, up to the send on the producer's `Input`. -/
def onInput (s : State) (p : Ptr) : State :=
  let r := startProducerSpan mint cfg sc.version (s.heap p) s.tracer
  { s with
    pc := .input p s.tracer.spans.length, tracer := r.1
    heap := Function.update s.heap p r.2, input := s.input ++ [p] }

/-- The rest of that case, once the producer took the message. -/
def onAccepted (s : State) (p : Ptr) (k : Nat) : State :=
  if sc.returnSuccesses then
    { s with pc := .select, pInput := s.pInput ++ [p], spans := Function.update s.spans (mint k) (some k) }
  else { s with pc := .select, pInput := s.pInput ++ [p], tracer := s.tracer.finish k none }

end

/-- The lookup both acknowledgement cases share: the span whose ID the message's headers carry
leaves the map and is finished by `fin`. -/
def settle (s : State) (msg : ProducerMessage) (fin : Tracer → Nat → Tracer) : State :=
  match msg.headers with
  | some ctx =>
    match s.spans ctx.spanID with
    | some k => { s with spans := Function.update s.spans ctx.spanID none, tracer := fin s.tracer k }
    | none => s
  | none => s

/-- `case msg, ok := <-p.Successes()` with `ok`. -/
def onSuccess (s : State) (p : Ptr) : State :=
  { (settle s (s.heap p) fun t k =>
      finishProducerSpan t k (s.heap p).partition (s.heap p).offset none) with pc := .success p }

/-- `case err, ok := <-p.Errors()` with `ok`: the span is finished `WithError(err)`. -/
def onError (s : State) (e : ProducerError) : State :=
  { (settle s (s.heap e.msg) fun t k => t.finish k (some (e.error s.heap))) with pc := .error e }

section

variable (mint : Nat → UInt64) (cfg : Config) (sc : SaramaConfig)

def step (s : State) : Action → Option State
  | .write p m => some { s with heap := Function.update s.heap p m }
  | .send p => match s.pc with
    | .select => some (onInput mint cfg sc s p)
    | _ => none
  | .accept => match s.pc with
    | .input p k => some (onAccepted mint sc s p k)
    | _ => none
  | .ackSuccess p => (s.pSuccesses.send p).map fun c => { s with pSuccesses := c }
  | .ackError e => (s.pErrors.send e).map fun c => { s with pErrors := c }
  | .closeSuccesses => s.pSuccesses.close.map fun c => { s with pSuccesses := c }
  | .closeErrors => s.pErrors.close.map fun c => { s with pErrors := c }
  | .recvSuccess => match s.pc, s.pSuccesses.recv with
    | .select, some (some p, c) => some (onSuccess { s with pSuccesses := c } p)
    | .select, some (none, _) => some { s with pc := .done }
    | _, _ => none
  | .recvError => match s.pc, s.pErrors.recv with
    | .select, some (some e, c) => some (onError { s with pErrors := c } e)
    | .select, some (none, _) => some { s with pc := .done }
    | _, _ => none
  | .takeSuccess => match s.pc with
    | .success p => some { s with pc := .select, successes := s.successes ++ [p] }
    | _ => none
  | .takeError => match s.pc with
    | .error e => some { s with pc := .select, errors := s.errors ++ [e] }
    | _ => none

/-- The relay as `WrapAsyncProducer` starts it, over any heap of messages. -/
def init (heap : Ptr → ProducerMessage) : State :=
  ⟨.select, fun _ => none, Tracer.empty, heap, [], [], Chan.empty, Chan.empty, [], []⟩

abbrev Reachable : State → Prop := Machine.Reachable (step mint cfg sc) init

abbrev run : State → List Action → Option State := Machine.run (step mint cfg sc)

end

end DDTrace.Sarama.AsyncProducer

namespace DDTrace.Sarama.AsyncProducer

/-- The steps taken by the application or the underlying producer alone. -/
def Action.isEnv : Action → Bool
  | .write .. | .ackSuccess _ | .ackError _ | .closeSuccesses | .closeErrors => true
  | _ => false

variable {mint : Nat → UInt64} {cfg : Config} {sc : SaramaConfig} {s s' : State}

theorem settle_of_mem {msg : ProducerMessage} {ctx : SpanContext} {k : Nat}
    (hh : msg.headers = some ctx) (hk : s.spans ctx.spanID = some k) (fin : Tracer → Nat → Tracer) :
    settle s msg fin =
      { s with spans := Function.update s.spans ctx.spanID none, tracer := fin s.tracer k } := by
  simp [settle, hh, hk]

theorem settle_cases (s : State) (msg : ProducerMessage) (fin : Tracer → Nat → Tracer) :
    settle s msg fin = s ∨ ∃ ctx k, msg.headers = some ctx ∧ s.spans ctx.spanID = some k ∧
      settle s msg fin =
        { s with spans := Function.update s.spans ctx.spanID none, tracer := fin s.tracer k } := by
  unfold settle
  split
  · rename_i ctx hctx
    split
    · exact .inr ⟨ctx, _, hctx, ‹_›, rfl⟩
    · exact .inl rfl
  · exact .inl rfl

/-- The lookup of an acknowledgement changes only the map and the tracer. -/
theorem settle_eq (s : State) (msg : ProducerMessage) (fin : Tracer → Nat → Tracer) :
    ∃ spans t, settle s msg fin = { s with spans := spans, tracer := t } := by
  rcases settle_cases s msg fin with hs | ⟨ctx, k, -, -, hs⟩ <;> rw [hs]
  · exact ⟨s.spans, s.tracer, rfl⟩
  · exact ⟨_, _, rfl⟩

theorem tracer_spans_settle (s : State) (msg : ProducerMessage) (fin : Tracer → Nat → Tracer)
    (hfin : ∀ k, (fin s.tracer k).spans = s.tracer.spans) :
    (settle s msg fin).tracer.spans = s.tracer.spans := by
  rcases settle_cases s msg fin with hs | ⟨ctx, k, -, -, hs⟩ <;> rw [hs]
  exact hfin k

@[simp] theorem tracer_spans_onSuccess (s : State) (p : Ptr) :
    (onSuccess s p).tracer.spans = s.tracer.spans :=
  tracer_spans_settle _ _ _ fun _ => rfl

@[simp] theorem tracer_spans_onError (s : State) (e : ProducerError) :
    (onError s e).tracer.spans = s.tracer.spans :=
  tracer_spans_settle _ _ _ fun _ => rfl

/-- The application and the underlying producer move nothing the relay owns, and a send or a
close on an underlying stream does not change what the relay has taken from it. -/
theorem step_env (h : step mint cfg sc s a = some s') (ha : a.isEnv) :
    s'.pc = s.pc ∧ s'.spans = s.spans ∧ s'.tracer = s.tracer ∧ s'.input = s.input ∧
      s'.pInput = s.pInput ∧ s'.successes = s.successes ∧ s'.errors = s.errors ∧
      s'.pSuccesses.received = s.pSuccesses.received ∧ s'.pErrors.received = s.pErrors.received := by
  cases a <;> simp [Action.isEnv] at ha <;> simp only [step] at h
  · cases h; simp
  all_goals
    obtain ⟨c, hc, rfl⟩ := Option.map_eq_some'.1 h
    first
    | simp [Chan.received_of_send hc]
    | simp [Chan.received_of_close hc]

theorem step_send {p : Ptr} (h : step mint cfg sc s (.send p) = some s') :
    s.pc = .select ∧ s' = onInput mint cfg sc s p := by
  simp only [step] at h
  split at h
  · exact ⟨‹_›, (Option.some.inj h).symm⟩
  · cases h

theorem step_accept (h : step mint cfg sc s .accept = some s') :
    ∃ p k, s.pc = .input p k ∧ s' = onAccepted mint sc s p k := by
  simp only [step] at h
  split at h
  · exact ⟨_, _, ‹_›, (Option.some.inj h).symm⟩
  · cases h

theorem step_recvSuccess (h : step mint cfg sc s .recvSuccess = some s') :
    s.pc = .select ∧ ((∃ p c, s.pSuccesses.recv = some (some p, c) ∧
      s' = onSuccess { s with pSuccesses := c } p) ∨
      (∃ c, s.pSuccesses.recv = some (none, c) ∧ s' = { s with pc := .done })) := by
  simp only [step] at h
  split at h
  · exact ⟨‹_›, .inl ⟨_, _, ‹_›, (Option.some.inj h).symm⟩⟩
  · exact ⟨‹_›, .inr ⟨_, ‹_›, (Option.some.inj h).symm⟩⟩
  · cases h

theorem step_recvError (h : step mint cfg sc s .recvError = some s') :
    s.pc = .select ∧ ((∃ e c, s.pErrors.recv = some (some e, c) ∧
      s' = onError { s with pErrors := c } e) ∨
      (∃ c, s.pErrors.recv = some (none, c) ∧ s' = { s with pc := .done })) := by
  simp only [step] at h
  split at h
  · exact ⟨‹_›, .inl ⟨_, _, ‹_›, (Option.some.inj h).symm⟩⟩
  · exact ⟨‹_›, .inr ⟨_, ‹_›, (Option.some.inj h).symm⟩⟩
  · cases h

theorem step_takeSuccess (h : step mint cfg sc s .takeSuccess = some s') :
    ∃ p, s.pc = .success p ∧ s' = { s with pc := .select, successes := s.successes ++ [p] } := by
  simp only [step] at h
  split at h
  · exact ⟨_, ‹_›, (Option.some.inj h).symm⟩
  · cases h

theorem step_takeError (h : step mint cfg sc s .takeError = some s') :
    ∃ e, s.pc = .error e ∧ s' = { s with pc := .select, errors := s.errors ++ [e] } := by
  simp only [step] at h
  split at h
  · exact ⟨_, ‹_›, (Option.some.inj h).symm⟩
  · cases h

/-- Once the relay has returned, the environment's steps are the only ones left, and they leave
the relay's map, its spans and what it forwarded alone. -/
theorem step_of_done (hd : s.pc = .done) (hs : step mint cfg sc s a = some s') :
    s'.pc = .done ∧ s'.spans = s.spans ∧ s'.tracer = s.tracer ∧ s'.pInput = s.pInput ∧
      s'.successes = s.successes ∧ s'.errors = s.errors := by
  by_cases ha : a.isEnv
  · obtain ⟨hpc, hsp, htr, -, hpi, hsu, her, -⟩ := step_env hs ha
    exact ⟨hpc.trans hd, hsp, htr, hpi, hsu, her⟩
  cases a <;> simp [Action.isEnv] at ha
  · simp [(step_send hs).1] at hd
  · obtain ⟨p, k, hpc, -⟩ := step_accept hs; simp [hpc] at hd
  · simp [(step_recvSuccess hs).1] at hd
  · simp [(step_recvError hs).1] at hd
  · obtain ⟨p, hpc, -⟩ := step_takeSuccess hs; simp [hpc] at hd
  · obtain ⟨e, hpc, -⟩ := step_takeError hs; simp [hpc] at hd

theorem run_of_done {as : List Action} (hd : s.pc = .done) (hr : run mint cfg sc s as = some s') :
    s'.pc = .done ∧ s'.spans = s.spans ∧ s'.tracer = s.tracer ∧ s'.pInput = s.pInput ∧
      s'.successes = s.successes ∧ s'.errors = s.errors :=
  Machine.run_closed (P := fun t => t.pc = .done ∧ t.spans = s.spans ∧ t.tracer = s.tracer ∧
      t.pInput = s.pInput ∧ t.successes = s.successes ∧ t.errors = s.errors)
    (fun _ _ _ ⟨hd₁, hsp, htr, hpi, hsu, her⟩ h₁ =>
      let ⟨hd₂, hsp₂, htr₂, hpi₂, hsu₂, her₂⟩ := step_of_done hd₁ h₁
      ⟨hd₂, hsp₂.trans hsp, htr₂.trans htr, hpi₂.trans hpi, hsu₂.trans hsu, her₂.trans her⟩)
    ⟨hd, rfl, rfl, rfl, rfl, rfl⟩ hr

/-- Messages to topic `orders`, for the sample runs. -/
def sampleHeap (_ : Ptr) : ProducerMessage := ⟨"orders", 0, 0, none⟩

/-- `Producer.Return.Successes` enabled at `V0_11_0_0`. -/
def keepSuccesses : SaramaConfig := ⟨V0_11_0_0, true⟩

end DDTrace.Sarama.AsyncProducer
