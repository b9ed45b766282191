import DDTrace.NetHttp.Handlers
import DDTrace.Machine

/-!
# `WrapHandler` under concurrent requests

The function `WrapHandler` returns serves every request with the same captured `cfg` and
`resource`, and net/http calls it concurrently. Each call is cut at its steps on them: the resource
namer's name written to `resource`, each of the two `cfg.spanOpts = append(cfg.spanOpts, ...)` as a
read and a write, and the `ServeConfig` built from `resource`, `cfg.finishOpts` and
`cfg.spanOpts`.

When the calls run one after the other, they pass on exactly the `ServeConfig`s of the sequential
model, `serveAll (wrapHandlerServe service)` (`sequential_calls_refine_serveAll`).
-/

namespace DDTrace.NetHttp.ConcurrentHandler

/-- `tracer.Tag(ext.SpanKind, ext.SpanKindServer)`. -/
def spanKindTag : StartSpanOption := .tag (.ext .spanKind) (.ext .spanKindServer)

/-- `tracer.Tag(ext.Component, "net/http")`. -/
def componentTag : StartSpanOption := .tag (.ext .component) (.str "net/http")

theorem serverTags_eq : serverTags = [spanKindTag, componentTag] := rfl

/-- Where a call is: before its first step; before reading `cfg.spanOpts` for each append, and
before writing back what it read with the tag; before building the `ServeConfig`; done. -/
inductive Pc
  | start
  | readKind
  | writeKind (opts : List StartSpanOption)
  | readComponent
  | writeComponent (opts : List StartSpanOption)
  | serve
  | done

variable {FinishOption : Type}

/-- A call of the handler function: its request, where it is, and the `ServeConfig` it passed to
`TraceAndServe` (none when it has not, or served the request untraced). -/
structure Call (FinishOption : Type) where
  req : Request
  pc : Pc
  out : Option (ServeConfig FinishOption)

/-- The captured variables, shared by all calls, and the calls. -/
structure State (FinishOption : Type) where
  shared : WrapState FinishOption
  calls : List (Call FinishOption)

/-- A request arrives and a call starts, or call `i` takes its next step. -/
inductive Action
  | spawn (req : Request)
  | step (i : Nat)

section

variable (service : String)

/-- One step of a call on the captured variables. -/
def callStep (sh : WrapState FinishOption) (c : Call FinishOption) :
    Option (WrapState FinishOption × Call FinishOption) :=
  match c.pc with
  | .start =>
    if sh.cfg.ignoreRequest c.req then some (sh, { c with pc := .done })
    else some (if sh.cfg.resourceNamer c.req ≠ "" then
        { sh with resource := sh.cfg.resourceNamer c.req } else sh, { c with pc := .readKind })
  | .readKind => some (sh, { c with pc := .writeKind sh.cfg.spanOpts })
  | .writeKind opts =>
    some ({ sh with cfg := { sh.cfg with spanOpts := opts ++ [spanKindTag] } },
      { c with pc := .readComponent })
  | .readComponent => some (sh, { c with pc := .writeComponent sh.cfg.spanOpts })
  | .writeComponent opts =>
    some ({ sh with cfg := { sh.cfg with spanOpts := opts ++ [componentTag] } },
      { c with pc := .serve })
  | .serve =>
    some (sh, { c with
      pc := .done
      out := some ⟨service, sh.resource, sh.cfg.finishOpts, sh.cfg.spanOpts, ""⟩ })
  | .done => none

def step (s : State FinishOption) : Action → Option (State FinishOption)
  | .spawn req => some { s with calls := s.calls ++ [⟨req, .start, none⟩] }
  | .step i =>
    match s.calls[i]? with
    | some c => (callStep service s.shared c).map fun r => ⟨r.1, s.calls.set i r.2⟩
    | none => none

abbrev run : State FinishOption → List Action → Option (State FinishOption) :=
  Machine.run (step service)

/-- The states reachable from the function `WrapHandler` returns, which captured `sh`. -/
def Reachable (sh : WrapState FinishOption) (s : State FinishOption) : Prop :=
  ∃ as, run service ⟨sh, []⟩ as = some s

end

/-- The steps of call `k` for `req`, run to its end. -/
def callSchedule (ignoreRequest : Request → Bool) (req : Request) (k : Nat) : List Action :=
  if ignoreRequest req then [.step k] else List.replicate 6 (.step k)

/-- Requests served one after the other, from call `k` on: each call starts and runs to its end
before the next request arrives. -/
def sequentialSchedule (ignoreRequest : Request → Bool) : Nat → List Request → List Action
  | _, [] => []
  | k, req :: reqs =>
    .spawn req :: callSchedule ignoreRequest req k ++ sequentialSchedule ignoreRequest (k + 1) reqs

section

variable {service : String}

/-- A step of the latest call touches only that call. -/
theorem step_last (sh : WrapState FinishOption) (pre : List (Call FinishOption))
    (c : Call FinishOption) :
    step service ⟨sh, pre ++ [c]⟩ (.step pre.length) =
      (callStep service sh c).map fun r => ⟨r.1, pre ++ [r.2]⟩ := by
  simp [step, List.set_append_right]

theorem ignoreRequest_wrapHandlerServe (sh : WrapState FinishOption) (r : Request) :
    (wrapHandlerServe service sh r).2.cfg.ignoreRequest = sh.cfg.ignoreRequest := by
  unfold wrapHandlerServe; split <;> rfl

/-- A call that runs alone from its start to its end is one `wrapHandlerServe`. -/
theorem run_call (sh : WrapState FinishOption) (pre : List (Call FinishOption)) (r : Request) :
    run service ⟨sh, pre ++ [⟨r, .start, none⟩]⟩ (callSchedule sh.cfg.ignoreRequest r pre.length) =
      some ⟨(wrapHandlerServe service sh r).2, pre ++ [⟨r, .done, (wrapHandlerServe service sh r).1⟩]⟩ := by
  unfold callSchedule wrapHandlerServe
  cases hi : sh.cfg.ignoreRequest r
  · by_cases hn : sh.cfg.resourceNamer r = "" <;>
      simp [List.replicate, run, step_last, callStep, hi, hn, appendServerTags, serverTags_eq]
  · simp [run, step_last, callStep, hi]

/-- Calls served one after the other, after the calls `pre`, are the sequential model's serves. -/
theorem run_sequentialSchedule (sh : WrapState FinishOption) (pre : List (Call FinishOption))
    (reqs : List Request) :
    run service ⟨sh, pre⟩ (sequentialSchedule sh.cfg.ignoreRequest pre.length reqs) =
      some ⟨(serveAll (wrapHandlerServe service) sh reqs).2,
        pre ++ List.zipWith (fun r o => ⟨r, .done, o⟩) reqs
          (serveAll (wrapHandlerServe service) sh reqs).1⟩ := by
  induction reqs generalizing sh pre with
  | nil => simp [sequentialSchedule, run, serveAll]
  | cons r rs ih =>
    have hih := ih (wrapHandlerServe service sh r).2
      (pre ++ [⟨r, .done, (wrapHandlerServe service sh r).1⟩])
    rw [ignoreRequest_wrapHandlerServe, List.length_append, List.length_singleton] at hih
    have hcall : run service ⟨sh, pre⟩ (.spawn r :: callSchedule sh.cfg.ignoreRequest r pre.length) =
        some ⟨(wrapHandlerServe service sh r).2, pre ++ [⟨r, .done, (wrapHandlerServe service sh r).1⟩]⟩ :=
      run_call sh pre r
    rw [sequentialSchedule]
    refine (Machine.run_append_of hcall hih).trans ?_
    simp [serveAll]

/-- Requests served one after the other by the concurrent calls pass on the `ServeConfig`s of the
sequential model, each call done with the `ServeConfig` `serveAll` gives its request, and leave the
captured state `serveAll` leaves: the sequential model is the calls' behaviour on such schedules. -/
theorem sequential_calls_refine_serveAll (sh : WrapState FinishOption) (reqs : List Request) :
    run service ⟨sh, []⟩ (sequentialSchedule sh.cfg.ignoreRequest 0 reqs) =
      some ⟨(serveAll (wrapHandlerServe service) sh reqs).2,
        List.zipWith (fun r o => ⟨r, .done, o⟩) reqs (serveAll (wrapHandlerServe service) sh reqs).1⟩ := by
  simpa using run_sequentialSchedule sh [] reqs

end

end DDTrace.NetHttp.ConcurrentHandler
