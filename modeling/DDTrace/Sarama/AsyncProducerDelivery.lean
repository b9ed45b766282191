import DDTrace.Sarama.AsyncProducer

/-!
# What the relay forwards

Every message the relay takes from the wrapper's `Input` reaches the underlying `Input`, and
every acknowledgement it takes from the underlying streams reaches the wrapper's streams, once
and in order. But the relay returns as soon as one underlying stream is closed and drained, and
from then on nothing is forwarded: acknowledgements still buffered in the other stream are lost.
-/

namespace DDTrace.Sarama.AsyncProducer

/-- The message the relay holds on its way to the underlying `Input`. -/
def Pc.handing : Pc → List Ptr
  | .input p _ => [p]
  | _ => []

/-- The success the relay holds on its way to the wrapper's `Successes`. -/
def Pc.forwardingSuccess : Pc → List Ptr
  | .success p => [p]
  | _ => []

/-- The error the relay holds on its way to the wrapper's `Errors`. -/
def Pc.forwardingError : Pc → List ProducerError
  | .error e => [e]
  | _ => []

/-- Nothing is lost or duplicated between what the relay took and what it passed on. -/
structure Forwarded (s : State) : Prop where
  input : s.pInput ++ s.pc.handing = s.input
  successes : s.successes ++ s.pc.forwardingSuccess = s.pSuccesses.received
  errors : s.errors ++ s.pc.forwardingError = s.pErrors.received

section

variable {mint : Nat → UInt64} {cfg : Config} {sc : SaramaConfig} {s s' : State} {a : Action}

theorem forwarded_step (h : Forwarded s) (hs : step mint cfg sc s a = some s') : Forwarded s' := by
  obtain ⟨hi, hsu, her⟩ := h
  by_cases ha : a.isEnv
  · obtain ⟨hpc, -, -, hi', hpi, hsu', her', hrs, hre⟩ := step_env hs ha
    exact ⟨by rw [hpc, hi', hpi, hi], by rw [hpc, hsu', hrs, hsu], by rw [hpc, her', hre, her]⟩
  cases a <;> simp [Action.isEnv] at ha
  · obtain ⟨hpc, rfl⟩ := step_send hs
    rw [hpc] at hi hsu her
    exact ⟨by simpa [onInput, Pc.handing] using hi, by simpa [onInput] using hsu,
      by simpa [onInput] using her⟩
  · obtain ⟨p, k, hpc, rfl⟩ := step_accept hs
    rw [hpc] at hi hsu her
    unfold onAccepted
    split <;> exact ⟨by simpa [Pc.handing] using hi, by simpa [Pc.forwardingSuccess] using hsu,
      by simpa [Pc.forwardingError] using her⟩
  · obtain ⟨hpc, ⟨p, c, hc, rfl⟩ | ⟨c, -, rfl⟩⟩ := step_recvSuccess hs <;> rw [hpc] at hi hsu her
    · obtain ⟨sp, t, hst⟩ := settle_eq { s with pSuccesses := c } (s.heap p)
        fun t k => finishProducerSpan t k (s.heap p).partition (s.heap p).offset none
      refine ⟨?_, ?_, ?_⟩ <;> simp only [onSuccess, hst] <;>
        simp_all [Pc.handing, Pc.forwardingSuccess, Pc.forwardingError, Chan.received_of_recv hc]
    · exact ⟨hi, hsu, her⟩
  · obtain ⟨hpc, ⟨e, c, hc, rfl⟩ | ⟨c, -, rfl⟩⟩ := step_recvError hs <;> rw [hpc] at hi hsu her
    · obtain ⟨sp, t, hst⟩ := settle_eq { s with pErrors := c } (s.heap e.msg)
        fun t k => t.finish k (some (e.error s.heap))
      refine ⟨?_, ?_, ?_⟩ <;> simp only [onError, hst] <;>
        simp_all [Pc.handing, Pc.forwardingSuccess, Pc.forwardingError, Chan.received_of_recv hc]
    · exact ⟨hi, hsu, her⟩
  · obtain ⟨p, hpc, rfl⟩ := step_takeSuccess hs
    rw [hpc] at hi hsu her
    exact ⟨hi, by simpa using hsu, her⟩
  · obtain ⟨e, hpc, rfl⟩ := step_takeError hs
    rw [hpc] at hi hsu her
    exact ⟨hi, hsu, by simpa using her⟩

theorem forwarded_of_reachable (hs : Reachable mint cfg sc s) : Forwarded s :=
  Machine.reachable_induction (fun _ => ⟨rfl, rfl, rfl⟩) (fun _ _ _ => forwarded_step) hs

/-- Under every interleaving, the relay passes on once and in order every message and every
acknowledgement it takes; once it has returned, it has passed on exactly what it took. -/
theorem relay_forwards_what_it_takes (hs : Reachable mint cfg sc s) :
    Forwarded s ∧ (s.pc = .done → s.pInput = s.input ∧ s.successes = s.pSuccesses.received ∧
      s.errors = s.pErrors.received) := by
  have h := forwarded_of_reachable hs
  refine ⟨h, fun hd => ?_⟩
  have hi := h.input
  have hsu := h.successes
  have her := h.errors
  simp only [hd, Pc.handing, Pc.forwardingSuccess, Pc.forwardingError, List.append_nil] at hi hsu her
  exact ⟨hi, hsu, her⟩

end

/-- A failure for message `0`. -/
def sampleError : ProducerError := ⟨0, "kafka server: Request timed out"⟩

/-- The underlying producer reports an error, then closes `Successes`; the relay's `select`
takes the close. -/
def errorLost : State :=
  (run sampleMint sampleConfig keepSuccesses (init sampleHeap)
    [.ackError sampleError, .closeSuccesses, .recvSuccess]).getD (init sampleHeap)

theorem relay_forwards_what_it_takes_errorLost :
    Reachable sampleMint sampleConfig keepSuccesses errorLost ∧
      (Forwarded errorLost ∧ (errorLost.pc = .done → errorLost.pInput = errorLost.input ∧
        errorLost.successes = errorLost.pSuccesses.received ∧
        errorLost.errors = errorLost.pErrors.received)) :=
  have h : Reachable sampleMint sampleConfig keepSuccesses errorLost :=
    Machine.Reachable.run [.ackError sampleError, .closeSuccesses, .recvSuccess] (.init sampleHeap) rfl
  ⟨h, relay_forwards_what_it_takes h⟩

/-- An error delivered on the underlying `Errors` is never forwarded when `Successes` closes
first: the relay has returned with the error still buffered, and no later step forwards it. -/
theorem error_dropped_when_successes_close :
    Reachable sampleMint sampleConfig keepSuccesses errorLost ∧ errorLost.pc = .done ∧
      errorLost.pErrors.pending = [sampleError] ∧
      ∀ as s', run sampleMint sampleConfig keepSuccesses errorLost as = some s' → s'.errors = [] :=
  ⟨Machine.Reachable.run [.ackError sampleError, .closeSuccesses, .recvSuccess] (.init sampleHeap)
      rfl, rfl, by decide, fun _ _ hr => (run_of_done rfl hr).2.2.2.2.2⟩

end DDTrace.Sarama.AsyncProducer
