import DDTrace.Appsec.GRPCListener
import DDTrace.Appsec.Monitoring

/-!
# The gRPC WAF listener's handler operation

When a gRPC handler operation finishes, the `OnHandlerOperationFinish` callback of
`newGRPCWAFEventListener` adds the WAF monitoring tags, with the runtimes and timeouts the receive
callbacks accumulated, adds the rules monitoring tags through the listener's `monitorRulesOnce`,
and, when `events` is not empty and the limiter allows, adds all of `events` to the operation as
its security events.

The receive callbacks are those of `GRPCListener`, cut at the same steps; a callback whose run got a
WAF context also adds what the context measured to the three accumulators, which wrap around as
`waf.AtomicU64` does. Every run of the handler projects to a run of the callbacks
(`reachable_callbacks`). So the operation is given one event per message when the callbacks
interleave (`handler_reports_every_event`), and at most `maxWAFEventsPerRequest` events when each
callback returns before the next message's starts (`sequential_handler_events_le_cap`).
-/

namespace DDTrace.Appsec.GRPCHandler

open GRPCListener (RunError runWAF maxWAFEventsPerRequest)

/-- What the listener calls outside src/: the WAF on a message (`none` when `waf.NewContext` gives
nil) and what that context measured, the ruleset information, the WAF version, the JSON encoding of
the ruleset errors, and the limiter's `Allow`. -/
structure Env (Msg L : Type) where
  wafRun : Msg → Option (List UInt8 × Option RunError)
  measure : Msg → Measurement
  rInfo : RulesetInfo
  wafVersion : String
  marshal : Option (List (String × List String)) → Option String
  allow : L → Bool × L

/-- The handler operation's tags and security events once `OnHandlerOperationFinish` has run. -/
structure Finished where
  tags : List (TagKey × TagValue)
  events : List (List UInt8)

/-- The receive callbacks and what they share, the three accumulators, the listener's
`monitorRulesOnce` and limiter, and the operation once finished. -/
structure State (Msg L : Type) where
  callbacks : GRPCListener.State Msg
  overallRuntimeNs : UInt64
  internalRuntimeNs : UInt64
  nbTimeouts : UInt64
  rulesMonitored : Bool
  limiter : L
  finished : Option Finished

/-- A step of the receive callbacks, or the handler operation's finish. -/
inductive Action (Msg : Type)
  | callback (a : GRPCListener.Action Msg)
  | finish

section

variable {Msg L : Type} (env : Env Msg L)

/-- The three `Add`s of a callback whose run got a WAF context, made with its step from `run`. -/
def accumulate (s : State Msg L) : GRPCListener.Action Msg → State Msg L
  | .step i =>
    match s.callbacks.callbacks[i]? with
    | some (msg, .run) =>
      if (env.wafRun msg).isSome then
        { s with
          overallRuntimeNs := s.overallRuntimeNs + UInt64.ofNat (env.measure msg).overallRuntimeNs
          internalRuntimeNs := s.internalRuntimeNs + UInt64.ofNat (env.measure msg).internalRuntimeNs
          nbTimeouts := s.nbTimeouts + UInt64.ofNat (env.measure msg).timeouts }
      else s
    | _ => s
  | .receive _ => s

/-- The `OnHandlerOperationFinish` callback. `limiter.Allow()` is called only when there are
events. -/
def onHandlerOperationFinish (s : State Msg L) : State Msg L :=
  let tags := wafMonitoringTags env.rInfo.version s.overallRuntimeNs.toNat
    s.internalRuntimeNs.toNat s.nbTimeouts.toNat
  let tags := if s.rulesMonitored then tags
    else tags ++ rulesOnceTags env.marshal env.wafVersion env.rInfo
  let events := s.callbacks.shared.events
  if events.length > 0 then
    let r := env.allow s.limiter
    { s with rulesMonitored := true, limiter := r.2,
             finished := some ⟨tags, if r.1 then events else []⟩ }
  else { s with rulesMonitored := true, finished := some ⟨tags, []⟩ }

def step (s : State Msg L) : Action Msg → Option (State Msg L)
  | .callback a =>
    (GRPCListener.step env.wafRun s.callbacks a).map fun c => { accumulate env s a with callbacks := c }
  | .finish => if s.finished.isSome then none else some (onHandlerOperationFinish env s)

abbrev run : State Msg L → List (Action Msg) → Option (State Msg L) := Machine.run (step env)

/-- A handler operation starts, with the limiter in state `l`, after `monitorRulesOnce` has run or
not. -/
def init (l : L) (rulesMonitored : Bool) : State Msg L :=
  ⟨GRPCListener.init, 0, 0, 0, rulesMonitored, l, none⟩

abbrev Reachable : State Msg L → Prop :=
  Machine.Reachable (step env) fun p : L × Bool => init p.1 p.2

/-- The runs where a message's callback starts only once the earlier ones have returned. -/
inductive SeqReachable : State Msg L → Prop
  | init (l : L) (rulesMonitored : Bool) : SeqReachable (init l rulesMonitored)
  | callback {s s' : State Msg L} (a : GRPCListener.Action Msg) : SeqReachable s →
      GRPCListener.Sequential s.callbacks a → step env s (.callback a) = some s' → SeqReachable s'
  | finish {s s' : State Msg L} : SeqReachable s → step env s .finish = some s' → SeqReachable s'

end

section

variable {Msg L : Type} {env : Env Msg L} {s s' : State Msg L}

@[simp] theorem callbacks_accumulate (a : GRPCListener.Action Msg) :
    (accumulate env s a).callbacks = s.callbacks := by
  unfold accumulate; split <;> (try split) <;> (try split) <;> rfl

@[simp] theorem rulesMonitored_accumulate (a : GRPCListener.Action Msg) :
    (accumulate env s a).rulesMonitored = s.rulesMonitored := by
  unfold accumulate; split <;> (try split) <;> (try split) <;> rfl

@[simp] theorem limiter_accumulate (a : GRPCListener.Action Msg) :
    (accumulate env s a).limiter = s.limiter := by
  unfold accumulate; split <;> (try split) <;> (try split) <;> rfl

@[simp] theorem finished_accumulate (a : GRPCListener.Action Msg) :
    (accumulate env s a).finished = s.finished := by
  unfold accumulate; split <;> (try split) <;> (try split) <;> rfl

@[simp] theorem callbacks_onHandlerOperationFinish :
    (onHandlerOperationFinish env s).callbacks = s.callbacks := by
  unfold onHandlerOperationFinish; dsimp only; split_ifs <;> rfl

theorem step_callback {a : GRPCListener.Action Msg} (h : step env s (.callback a) = some s') :
    ∃ c, GRPCListener.step env.wafRun s.callbacks a = some c ∧
      s' = { accumulate env s a with callbacks := c } :=
  let ⟨c, hc, hs⟩ := Option.map_eq_some'.mp h
  ⟨c, hc, hs.symm⟩

theorem step_finish (h : step env s .finish = some s') :
    s.finished = none ∧ s' = onHandlerOperationFinish env s := by
  simp only [step] at h
  split at h
  · cases h
  · cases h; exact ⟨Option.not_isSome_iff_eq_none.mp ‹_›, rfl⟩

/-- Every run of the handler projects to a run of the receive callbacks. -/
theorem reachable_callbacks (h : Reachable env s) : GRPCListener.Reachable env.wafRun s.callbacks := by
  induction h with
  | init => exact .init ()
  | step a _ hs ih =>
    cases a with
    | callback a =>
      obtain ⟨c, hc, rfl⟩ := step_callback hs
      exact .step a ih hc
    | finish =>
      obtain ⟨-, rfl⟩ := step_finish hs
      simpa using ih

/-- A run of the callbacks is a run of the handler, which leaves the listener's state alone. -/
theorem run_callbacks {as : List (GRPCListener.Action Msg)} {c' : GRPCListener.State Msg}
    (s : State Msg L) (h : GRPCListener.run env.wafRun s.callbacks as = some c') :
    ∃ s', run env s (as.map .callback) = some s' ∧ s'.callbacks = c' ∧
      s'.rulesMonitored = s.rulesMonitored ∧ s'.limiter = s.limiter ∧ s'.finished = s.finished := by
  induction as generalizing s with
  | nil => cases h; exact ⟨s, rfl, rfl, rfl, rfl, rfl⟩
  | cons a as ih =>
    obtain ⟨c₁, h₁, h₂⟩ := Option.bind_eq_some.1 h
    obtain ⟨s', hs', hc, hrm, hl, hf⟩ := ih { accumulate env s a with callbacks := c₁ } h₂
    refine ⟨s', ?_, hc, by simpa using hrm, by simpa using hl, by simpa using hf⟩
    simp only [List.map_cons, run, Machine.run_cons, step, h₁, Option.map_some', Option.some_bind]
    exact hs'

/-- What `OnHandlerOperationFinish` reports: no event when `events` is empty, and otherwise all of
`events` when the limiter allows. -/
theorem events_onHandlerOperationFinish :
    (onHandlerOperationFinish env s).finished.map Finished.events =
      some (if s.callbacks.shared.events ≠ [] ∧ (env.allow s.limiter).1 then s.callbacks.shared.events
        else []) := by
  unfold onHandlerOperationFinish
  dsimp only
  by_cases he : s.callbacks.shared.events = []
  · simp [he]
  · have : s.callbacks.shared.events.length > 0 := List.length_pos.mpr he
    cases (env.allow s.limiter).1 <;> simp [he, this]

end

section

variable {Msg L : Type} {env : Env Msg L} {s : State Msg L}

open GRPCListener (arrive record run_arrive run_record) in
/-- However many messages are received, if the WAF reports an event for the message and the
limiter allows once, some interleaving of the receive callbacks has the handler operation given one
security event per message: `maxWAFEventsPerRequest` does not bound what it reports. -/
theorem handler_reports_every_event {msg : Msg} {event : List UInt8} {l : L}
    (hw : ∃ r, env.wafRun msg = some r ∧ runWAF r = event) (he : event ≠ [])
    (hallow : (env.allow l).1 = true) (rulesMonitored : Bool) (N : Nat) :
    ∃ s f, Reachable env s ∧ s.finished = some f ∧ f.events = List.replicate N event := by
  obtain ⟨n, hn⟩ := run_record env.wafRun msg event N N le_rfl
  have hinner : GRPCListener.run env.wafRun GRPCListener.init (arrive msg N ++ record N) =
      some ⟨⟨n, List.replicate N event, false⟩,
        List.replicate N (msg, .done) ++ List.replicate (N - N) (msg, .add event)⟩ :=
    Machine.run_append_of (run_arrive hw he N) hn
  obtain ⟨s', hs', hc, -, hl, hf⟩ := run_callbacks (init l rulesMonitored : State Msg L) hinner
  have hreach : Reachable env s' := Machine.Reachable.run _ (.init (l, rulesMonitored)) hs'
  obtain ⟨f, hf', hfe⟩ := Option.map_eq_some'.mp (@events_onHandlerOperationFinish Msg L env s')
  refine ⟨_, f, .step .finish hreach (by simp [step, hf, init]), hf', ?_⟩
  rw [hfe, hc, hl]
  cases N with
  | zero => rfl
  | succ N => simp [init, hallow, he]

/-- When each message's callback starts only once the earlier ones have returned, the handler
operation is given at most `maxWAFEventsPerRequest` security events. -/
theorem sequential_handler_events_le_cap (h : SeqReachable env s) :
    GRPCListener.SeqReachable env.wafRun s.callbacks ∧
    ∀ f, s.finished = some f → f.events.length ≤ maxWAFEventsPerRequest.toNat := by
  induction h with
  | init => exact ⟨.init, fun _ h => by cases h⟩
  | callback a _ ha hs ih =>
    obtain ⟨c, hc, rfl⟩ := step_callback hs
    exact ⟨.step a ih.1 ha hc, fun f hf => ih.2 f (by simpa using hf)⟩
  | finish _ hs ih =>
    rename_i s₀ _ _
    obtain ⟨-, rfl⟩ := step_finish hs
    refine ⟨by simpa using ih.1, fun f hf => ?_⟩
    obtain ⟨-, hcount, hcap⟩ := GRPCListener.seqInv_of_seqReachable ih.1
    have hev := @events_onHandlerOperationFinish Msg L env s₀
    rw [hf, Option.map_some', Option.some.injEq] at hev
    rw [hev]
    rw [GRPCListener.toNat_maxWAFEventsPerRequest] at hcap ⊢
    split
    · omega
    · simp

end

/-- A WAF that finds an attack in every message, a millisecond per run, and one token. -/
def sampleEnv : Env Unit Nat where
  wafRun _ := some ([1], none)
  measure _ := ⟨1000000, 800000, 0⟩
  rInfo := ⟨"1.0.0", 2, 0, []⟩
  wafVersion := "1.3.0"
  marshal _ := some "null"
  allow n := (decide (0 < n), n - 1)

theorem handler_reports_every_event_eleven :
    ((∃ r, sampleEnv.wafRun () = some r ∧ runWAF r = [1]) ∧ [1] ≠ ([] : List UInt8) ∧
      (sampleEnv.allow 1).1 = true) ∧
    ∃ s f, Reachable sampleEnv s ∧ s.finished = some f ∧ f.events = List.replicate 11 [1] :=
  ⟨⟨⟨_, rfl, rfl⟩, by decide, rfl⟩,
    @handler_reports_every_event Unit Nat sampleEnv () [1] 1 ⟨_, rfl, rfl⟩ (by decide) rfl false 11⟩

/-- One message whose callback runs to its end before the handler operation finishes. -/
theorem sequential_handler_events_le_cap_oneMessage :
    ∃ s, SeqReachable sampleEnv s ∧ s.finished.isSome ∧
      (GRPCListener.SeqReachable sampleEnv.wafRun s.callbacks ∧
        ∀ f, s.finished = some f → f.events.length ≤ maxWAFEventsPerRequest.toNat) :=
  have h : SeqReachable sampleEnv _ :=
    .finish (.callback (.step 0) (.callback (.step 0) (.callback (.step 0) (.callback (.step 0)
      (.callback (.receive ()) (.init 1 false) (fun _ hc => by cases hc) rfl) trivial rfl)
      trivial rfl) trivial rfl) trivial rfl) rfl
  ⟨_, h, rfl, sequential_handler_events_le_cap h⟩

/-- Two messages whose callbacks run one after the other: the operation gets both events, the
accumulated runtimes of both runs, and the one token. -/
example : (run sampleEnv (init 1 false) ([.receive (), .step 0, .step 0, .step 0, .step 0,
      .receive (), .step 1, .step 1, .step 1, .step 1].map .callback ++ [.finish])).map
      (fun s => (s.finished.map (·.events), s.overallRuntimeNs.toNat, s.limiter)) =
    some (some [[1], [1]], 2000000, 0) := by
  decide

end DDTrace.Appsec.GRPCHandler
