import DDTrace.Sarama.AsyncProducer

/-!
# The relay returns once the producer closes a stream

The relay of `WrapAsyncProducer` returns when it reads a closed underlying `Successes` or `Errors`;
its deferred calls then close the wrapper's channels. Once the producer has closed one of the two,
the relay always gets there, from any state. It needs the producer to take the message it is
handing over, if any, and the application to read what it forwards; nobody has to send, write or
acknowledge anything. Before it returns, it forwards every value still buffered on the closed
stream (`relay_returns_once_closed`).

The two streams are read the same way, so the drain is proved once over a `Stream`: the
`select`'s receive on it, and the application's read of what the relay forwards from it.
-/

namespace DDTrace.Sarama.AsyncProducer

variable {mint : Nat → UInt64} {cfg : Config} {sc : SaramaConfig}

@[simp] theorem pc_onSuccess (s : State) (p : Ptr) : (onSuccess s p).pc = .success p := rfl

@[simp] theorem pc_onError (s : State) (e : ProducerError) : (onError s e).pc = .error e := rfl

@[simp] theorem pSuccesses_onSuccess (s : State) (p : Ptr) :
    (onSuccess s p).pSuccesses = s.pSuccesses := by
  obtain ⟨_, _, h⟩ := settle_eq s (s.heap p) fun t k =>
    finishProducerSpan t k (s.heap p).partition (s.heap p).offset none
  simp [onSuccess, h]

@[simp] theorem pErrors_onError (s : State) (e : ProducerError) :
    (onError s e).pErrors = s.pErrors := by
  obtain ⟨_, _, h⟩ := settle_eq s (s.heap e.msg) fun t k => t.finish k (some (e.error s.heap))
  simp [onError, h]

/-- The relay's receives from a closed stream holding `n` values, each followed by the
application's read of what the relay forwards, and the receive that sees the close. -/
def drain (recv take : Action) : Nat → List Action
  | 0 => [recv]
  | n + 1 => recv :: take :: drain recv take n

/-- A stream of the underlying producer as the relay reads it: at the `select`, a value received
from it is forwarded and read, which leaves the relay back at the `select` with the rest of the
stream; a closed, drained stream ends the relay. -/
structure Stream (mint : Nat → UInt64) (cfg : Config) (sc : SaramaConfig) {α : Type}
    (ch : State → Chan α) (recv take : Action) : Prop where
  forward : ∀ s a c, s.pc = .select → (ch s).recv = some (some a, c) →
    ∃ s₁ s₂, step mint cfg sc s recv = some s₁ ∧ step mint cfg sc s₁ take = some s₂ ∧
      s₂.pc = .select ∧ ch s₂ = c
  close : ∀ s, s.pc = .select → (ch s).recv = some (none, ch s) →
    ∃ s', step mint cfg sc s recv = some s' ∧ s'.pc = .done ∧ ch s' = ch s

theorem stream_successes : Stream mint cfg sc State.pSuccesses .recvSuccess .takeSuccess where
  forward s p c hpc hr :=
    let s₁ := onSuccess { s with pSuccesses := c } p
    ⟨s₁, { s₁ with pc := .select, successes := s₁.successes ++ [p] }, by simp [s₁, step, hpc, hr],
      by simp [s₁, step], rfl, by simp [s₁]⟩
  close s hpc hr := ⟨{ s with pc := .done }, by simp [step, hpc, hr], rfl, rfl⟩

theorem stream_errors : Stream mint cfg sc State.pErrors .recvError .takeError where
  forward s e c hpc hr :=
    let s₁ := onError { s with pErrors := c } e
    ⟨s₁, { s₁ with pc := .select, errors := s₁.errors ++ [e] }, by simp [s₁, step, hpc, hr],
      by simp [s₁, step], rfl, by simp [s₁]⟩
  close s hpc hr := ⟨{ s with pc := .done }, by simp [step, hpc, hr], rfl, rfl⟩

theorem mem_drain {recv take : Action} (n : Nat) : ∀ a ∈ drain recv take n, a = recv ∨ a = take := by
  induction n with
  | zero => simp [drain]
  | succ n ih => simpa [drain] using ih

theorem Stream.run_drain {α : Type} {ch : State → Chan α} {recv take : Action}
    (hst : Stream mint cfg sc ch recv take) (n : Nat) (s : State) (hpc : s.pc = .select)
    (hc : (ch s).closed = true) (hn : (ch s).pending.length = n) :
    ∃ s', run mint cfg sc s (drain recv take n) = some s' ∧ s'.pc = .done ∧ (ch s').pending = [] := by
  induction n generalizing s with
  | zero =>
    have hp := List.length_eq_zero.1 hn
    obtain ⟨s', h, hd, hch⟩ := hst.close s hpc (Chan.recv_of_pending_nil hc hp)
    exact ⟨s', by simp [drain, run, h], hd, hch ▸ hp⟩
  | succ n ih =>
    obtain ⟨a, rest, hpr⟩ : ∃ a rest, (ch s).pending = a :: rest := by
      cases h : (ch s).pending with
      | nil => simp [h] at hn
      | cons a rest => exact ⟨a, rest, rfl⟩
    obtain ⟨c, hrc, hcp, hcc⟩ := Chan.recv_of_pending_cons hpr
    obtain ⟨s₁, s₂, h₁, h₂, hpc₂, hch₂⟩ := hst.forward s a c hpc hrc
    obtain ⟨s', hr, hd, hp⟩ := ih s₂ hpc₂ (by rw [hch₂, hcc, hc])
      (by rw [hch₂, hcp]; simpa [hpr] using hn)
    exact ⟨s', by simpa [drain, run, h₁, h₂] using hr, hd, hp⟩

/-- A relay that has not returned gets back to its `select` with the producer taking what it
hands over and the application reading what it forwards; neither underlying stream moves. -/
theorem exists_select (s : State) (hd : s.pc ≠ .done) :
    ∃ pre s₁, (∀ a ∈ pre, a = .accept ∨ a = .takeSuccess ∨ a = .takeError) ∧
      run mint cfg sc s pre = some s₁ ∧ s₁.pc = .select ∧ s₁.pSuccesses = s.pSuccesses ∧
      s₁.pErrors = s.pErrors := by
  match hpc : s.pc with
  | .select => exact ⟨[], s, by simp, rfl, hpc, rfl, rfl⟩
  | .input p k =>
    refine ⟨[.accept], onAccepted mint sc s p k, by simp, by simp [run, step, hpc], ?_, ?_, ?_⟩ <;>
      unfold onAccepted <;> split <;> rfl
  | .success p =>
    exact ⟨[.takeSuccess], { s with pc := .select, successes := s.successes ++ [p] }, by simp,
      by simp [run, step, hpc], rfl, rfl, rfl⟩
  | .error e =>
    exact ⟨[.takeError], { s with pc := .select, errors := s.errors ++ [e] }, by simp,
      by simp [run, step, hpc], rfl, rfl, rfl⟩
  | .done => exact absurd hpc hd

/-- The relay returns from any state once `ch` is closed, forwarding what `ch` still holds, with
actions of the relay and the application only. -/
theorem Stream.exists_run_done {α : Type} {ch : State → Chan α} {recv take : Action}
    (hst : Stream mint cfg sc ch recv take)
    (hch : ∀ s₁ s : State, s₁.pSuccesses = s.pSuccesses → s₁.pErrors = s.pErrors → ch s₁ = ch s)
    (hquiet : ∀ a, a = recv ∨ a = take → a.isEnv = false ∧ ∀ p, a ≠ .send p)
    (s : State) (hc : (ch s).closed = true) :
    ∃ as s', (∀ a ∈ as, a.isEnv = false ∧ ∀ p, a ≠ .send p) ∧
      run mint cfg sc s as = some s' ∧ s'.pc = .done ∧ (s.pc ≠ .done → (ch s').pending = []) := by
  by_cases hd : s.pc = .done
  · exact ⟨[], s, by simp, rfl, hd, fun h => absurd hd h⟩
  obtain ⟨pre, s₁, hpre, h₁, hsel, hsu, her⟩ := exists_select s hd
  have hc₁ : ch s₁ = ch s := hch s₁ s hsu her
  obtain ⟨s', h, hd', hp⟩ := hst.run_drain _ s₁ hsel (hc₁ ▸ hc) rfl
  refine ⟨pre ++ drain recv take _, s', fun a ha => ?_, Machine.run_append_of h₁ h,
    hd', fun _ => hp⟩
  rcases List.mem_append.1 ha with ha | ha
  · rcases hpre a ha with rfl | rfl | rfl <;> simp [Action.isEnv]
  · exact hquiet a (mem_drain _ a ha)

/-- From any state, once the underlying producer has closed `Successes` (or `Errors`), the relay
forwards what is still buffered on that stream and returns, closing the wrapper's channels, when
the producer takes its hand-over, the application reads, and nothing else is sent. -/
theorem relay_returns_once_closed (s : State) :
    (s.pSuccesses.closed = true → ∃ as s', (∀ a ∈ as, a.isEnv = false ∧ ∀ p, a ≠ .send p) ∧
      run mint cfg sc s as = some s' ∧ s'.pc = .done ∧
      (s.pc ≠ .done → s'.pSuccesses.pending = [])) ∧
    (s.pErrors.closed = true → ∃ as s', (∀ a ∈ as, a.isEnv = false ∧ ∀ p, a ≠ .send p) ∧
      run mint cfg sc s as = some s' ∧ s'.pc = .done ∧
      (s.pc ≠ .done → s'.pErrors.pending = [])) :=
  ⟨stream_successes.exists_run_done (fun _ _ h _ => h)
      (by rintro a (rfl | rfl) <;> simp [Action.isEnv]) s,
    stream_errors.exists_run_done (fun _ _ _ h => h)
      (by rintro a (rfl | rfl) <;> simp [Action.isEnv]) s⟩

end DDTrace.Sarama.AsyncProducer
