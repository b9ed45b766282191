import DDTrace.NetHttp.ConcurrentServeConfigs

/-!
# `(*ServeMux).ServeHTTP` under concurrent requests

net/http calls a `ServeMux`'s `ServeHTTP` concurrently, and every call appends the two server
tags to the shared `mux.cfg.spanOpts`, each append a read and a write. Unlike the function
`WrapHandler` returns, `ServeHTTP` keeps the route and the resource name in its own local
variables. A call is cut as in `ConcurrentHandler`: its first step checks `ignoreRequest` and
computes the route and resource; then the two appends, each a read and a write; then the
`ServeConfig`.

Run one after the other, the calls pass on exactly the `ServeConfig`s of the sequential model,
`serveAll (serveMuxServe route)`. Under every interleaving, each traced request gets its own
route and resource name, the mux's service name and no finish options, while its span options are
the mux's options followed by at least one server tag and nothing else
(`serveMux_requests_keep_own_resource`).
-/

namespace DDTrace.NetHttp.ConcurrentServeMux

open ConcurrentHandler (Action spanKindTag componentTag serverTags_eq Tagged callSchedule
  sequentialSchedule)

/-- Where a call is, with its local `resource` and `route` once computed: before its first step;
before reading `mux.cfg.spanOpts` for each append, and before writing back what it read with the
tag; before building the `ServeConfig`; done. -/
inductive Pc
  | start
  | readKind (resource route : String)
  | writeKind (resource route : String) (opts : List StartSpanOption)
  | readComponent (resource route : String)
  | writeComponent (resource route : String) (opts : List StartSpanOption)
  | serve (resource route : String)
  | done

variable {FinishOption : Type}

/-- A call of `ServeHTTP`: its request, where it is, and the `ServeConfig` it passed to
`TraceAndServe` (none when it has not, or served the request untraced). -/
structure Call (FinishOption : Type) where
  req : Request
  pc : Pc
  out : Option (ServeConfig FinishOption)

/-- The mux's `cfg`, shared by all calls, and the calls. -/
structure State (FinishOption : Type) where
  cfg : Config FinishOption
  calls : List (Call FinishOption)

/-- The resource `ServeHTTP` computes for a request: the namer's name, or the method and the
route when the namer gives none. -/
def muxResource (route : Request → String) (cfg : Config FinishOption) (r : Request) : String :=
  if cfg.resourceNamer r = "" then r.method ++ " " ++ route r else cfg.resourceNamer r

section

variable (route : Request → String)

/-- One step of a call on the mux's `cfg`. -/
def callStep (cfg : Config FinishOption) (c : Call FinishOption) :
    Option (Config FinishOption × Call FinishOption) :=
  match c.pc with
  | .start =>
    if cfg.ignoreRequest c.req then some (cfg, { c with pc := .done })
    else some (cfg, { c with pc := .readKind (muxResource route cfg c.req) (route c.req) })
  | .readKind res rt => some (cfg, { c with pc := .writeKind res rt cfg.spanOpts })
  | .writeKind res rt opts =>
    some ({ cfg with spanOpts := opts ++ [spanKindTag] }, { c with pc := .readComponent res rt })
  | .readComponent res rt => some (cfg, { c with pc := .writeComponent res rt cfg.spanOpts })
  | .writeComponent res rt opts =>
    some ({ cfg with spanOpts := opts ++ [componentTag] }, { c with pc := .serve res rt })
  | .serve res rt =>
    some (cfg, { c with pc := .done, out := some ⟨cfg.serviceName, res, [], cfg.spanOpts, rt⟩ })
  | .done => none

def step (s : State FinishOption) : Action → Option (State FinishOption)
  | .spawn req => some { s with calls := s.calls ++ [⟨req, .start, none⟩] }
  | .step i =>
    match s.calls[i]? with
    | some c => (callStep route s.cfg c).map fun r => ⟨r.1, s.calls.set i r.2⟩
    | none => none

abbrev run : State FinishOption → List Action → Option (State FinishOption) :=
  Machine.run (step route)

/-- The states reachable from a mux with configuration `cfg`. -/
def Reachable (cfg : Config FinishOption) (s : State FinishOption) : Prop :=
  ∃ as, run route ⟨cfg, []⟩ as = some s

end

section

variable {route : Request → String}

/-- A step of the latest call touches only that call. -/
theorem step_last (cfg : Config FinishOption) (pre : List (Call FinishOption))
    (c : Call FinishOption) :
    step route ⟨cfg, pre ++ [c]⟩ (.step pre.length) =
      (callStep route cfg c).map fun r => ⟨r.1, pre ++ [r.2]⟩ := by
  simp [step, List.set_append_right]

theorem ignoreRequest_serveMuxServe (cfg : Config FinishOption) (r : Request) :
    (serveMuxServe route cfg r).2.ignoreRequest = cfg.ignoreRequest := by
  unfold serveMuxServe; split <;> rfl

/-- A call that runs alone from its start to its end is one `serveMuxServe`. -/
theorem run_call (cfg : Config FinishOption) (pre : List (Call FinishOption)) (r : Request) :
    run route ⟨cfg, pre ++ [⟨r, .start, none⟩]⟩ (callSchedule cfg.ignoreRequest r pre.length) =
      some ⟨(serveMuxServe route cfg r).2, pre ++ [⟨r, .done, (serveMuxServe route cfg r).1⟩]⟩ := by
  unfold callSchedule serveMuxServe
  cases hi : cfg.ignoreRequest r
  · simp [List.replicate, run, step_last, callStep, hi, muxResource, appendServerTags,
      serverTags_eq]
  · simp [run, step_last, callStep, hi]

theorem run_sequentialSchedule (cfg : Config FinishOption) (pre : List (Call FinishOption))
    (reqs : List Request) :
    run route ⟨cfg, pre⟩ (sequentialSchedule cfg.ignoreRequest pre.length reqs) =
      some ⟨(serveAll (serveMuxServe route) cfg reqs).2,
        pre ++ List.zipWith (fun r o => ⟨r, .done, o⟩) reqs
          (serveAll (serveMuxServe route) cfg reqs).1⟩ := by
  induction reqs generalizing cfg pre with
  | nil => simp [sequentialSchedule, run, serveAll]
  | cons r rs ih =>
    have hih := ih (serveMuxServe route cfg r).2
      (pre ++ [⟨r, .done, (serveMuxServe route cfg r).1⟩])
    rw [ignoreRequest_serveMuxServe, List.length_append, List.length_singleton] at hih
    have hcall : run route ⟨cfg, pre⟩ (.spawn r :: callSchedule cfg.ignoreRequest r pre.length) =
        some ⟨(serveMuxServe route cfg r).2, pre ++ [⟨r, .done, (serveMuxServe route cfg r).1⟩]⟩ :=
      run_call cfg pre r
    rw [sequentialSchedule]
    refine (Machine.run_append_of hcall hih).trans ?_
    simp [serveAll]

end

/-- The local `resource` and `route` of a call past its first step. -/
def Pc.locals : Pc → Option (String × String)
  | .readKind res rt | .writeKind res rt _ | .readComponent res rt | .writeComponent res rt _
  | .serve res rt => some (res, rt)
  | .start | .done => none

/-- The value of `mux.cfg.spanOpts` a call read and will write back with a tag. -/
def Pc.held : Pc → Option (List StartSpanOption)
  | .writeKind _ _ opts | .writeComponent _ _ opts => some opts
  | _ => none

/-- The call has written `mux.cfg.spanOpts` back at least once and not yet returned. -/
def Pc.wrote : Pc → Bool
  | .readComponent .. | .writeComponent .. | .serve .. => true
  | _ => false

/-- What a call of a mux configured with `cfg₀` can be: traced, with its own resource and route,
once past its first step; holding a value of `mux.cfg.spanOpts` with server tags only; and done
with a `ServeConfig` of its own request. -/
structure CallOk (route : Request → String) (cfg₀ : Config FinishOption) (c : Call FinishOption) :
    Prop where
  locals : ∀ l, c.pc.locals = some l →
    cfg₀.ignoreRequest c.req = false ∧ l = (muxResource route cfg₀ c.req, route c.req)
  held : ∀ opts, c.pc.held = some opts → Tagged cfg₀.spanOpts opts
  out : ∀ sc, c.out = some sc → cfg₀.ignoreRequest c.req = false ∧
    sc.service = cfg₀.serviceName ∧ sc.finishOpts = [] ∧
    sc.resource = muxResource route cfg₀ c.req ∧ sc.route = route c.req ∧
    Tagged cfg₀.spanOpts sc.spanOpts ∧ cfg₀.spanOpts.length < sc.spanOpts.length

/-- The mux's `cfg` changes only in its span options, which are its options followed by server
tags, at least one once a call has written them back; and every call is `CallOk`. -/
structure MuxInv (route : Request → String) (cfg₀ : Config FinishOption) (s : State FinishOption) :
    Prop where
  cfg : s.cfg = { cfg₀ with spanOpts := s.cfg.spanOpts }
  tagged : Tagged cfg₀.spanOpts s.cfg.spanOpts
  grown : (∃ c ∈ s.calls, c.pc.wrote) → cfg₀.spanOpts.length < s.cfg.spanOpts.length
  calls : ∀ c ∈ s.calls, CallOk route cfg₀ c

section

variable {route : Request → String} {cfg₀ : Config FinishOption}

/-- A `cfg` that differs from `cfg₀` only in its span options reads the same fields. -/
theorem fields_of_eq {cfg : Config FinishOption} (h : cfg = { cfg₀ with spanOpts := cfg.spanOpts }) :
    cfg.ignoreRequest = cfg₀.ignoreRequest ∧ cfg.resourceNamer = cfg₀.resourceNamer ∧
      cfg.serviceName = cfg₀.serviceName ∧
      ∀ opts, { cfg with spanOpts := opts } = { cfg₀ with spanOpts := opts } := by
  rw [h]
  exact ⟨rfl, rfl, rfl, fun _ => rfl⟩

/-- What one step of a call does to the mux's `cfg` and to the call, within the bounds. -/
theorem callStep_ok {s : State FinishOption} {c : Call FinishOption}
    {r : Config FinishOption × Call FinishOption} (hi : MuxInv route cfg₀ s) (hmem : c ∈ s.calls)
    (h : callStep route s.cfg c = some r) :
    r.1 = { cfg₀ with spanOpts := r.1.spanOpts } ∧ Tagged cfg₀.spanOpts r.1.spanOpts ∧
      CallOk route cfg₀ r.2 ∧
      ((∃ x ∈ s.calls, x.pc.wrote) ∨ r.2.pc.wrote = true →
        cfg₀.spanOpts.length < r.1.spanOpts.length) := by
  obtain ⟨hign, hnamer, hsvc, hwith⟩ := fields_of_eq hi.cfg
  have hok := hi.calls c hmem
  obtain ⟨req, pc, out⟩ := c
  cases pc with
  | start =>
    simp only [callStep] at h
    split at h
    · cases h
      exact ⟨hi.cfg, hi.tagged, ⟨by simp [Pc.locals], by simp [Pc.held], hok.out⟩,
        fun hw => hi.grown (hw.resolve_right (by simp [Pc.wrote]))⟩
    · rename_i hno
      cases h
      refine ⟨hi.cfg, hi.tagged, ⟨fun l hl => ?_, by simp [Pc.held], hok.out⟩,
        fun hw => hi.grown (hw.resolve_right (by simp [Pc.wrote]))⟩
      simp only [Pc.locals, Option.some.injEq] at hl
      subst hl
      exact ⟨by simpa [hign] using hno, by simp [muxResource, hnamer]⟩
  | readKind res rt =>
    cases h
    exact ⟨hi.cfg, hi.tagged, ⟨hok.locals, fun opts ho => by cases ho; exact hi.tagged, hok.out⟩,
      fun hw => hi.grown (hw.resolve_right (by simp [Pc.wrote]))⟩
  | writeKind res rt opts =>
    cases h
    have hopts := hok.held opts rfl
    refine ⟨hwith _, hopts.append (.inl rfl), ⟨hok.locals, by simp [Pc.held], hok.out⟩,
      fun _ => ?_⟩
    simpa using Nat.lt_succ_of_le hopts.length_le
  | readComponent res rt =>
    cases h
    exact ⟨hi.cfg, hi.tagged, ⟨hok.locals, fun opts ho => by cases ho; exact hi.tagged, hok.out⟩,
      fun _ => hi.grown ⟨_, hmem, rfl⟩⟩
  | writeComponent res rt opts =>
    cases h
    have hopts := hok.held opts rfl
    refine ⟨hwith _, hopts.append (.inr rfl), ⟨hok.locals, by simp [Pc.held], hok.out⟩,
      fun _ => ?_⟩
    simpa using Nat.lt_succ_of_le hopts.length_le
  | serve res rt =>
    cases h
    obtain ⟨hno, hl⟩ := hok.locals (res, rt) rfl
    simp only [Prod.mk.injEq] at hl
    refine ⟨hi.cfg, hi.tagged, ⟨by simp [Pc.locals], by simp [Pc.held], fun sc hsc => ?_⟩,
      fun hw => hi.grown (hw.resolve_right (by simp [Pc.wrote]))⟩
    cases hsc
    exact ⟨hno, hsvc, rfl, hl.1, hl.2, hi.tagged, hi.grown ⟨_, hmem, rfl⟩⟩
  | done => cases h

theorem muxInv_step {s s' : State FinishOption} {a : Action} (hi : MuxInv route cfg₀ s)
    (h : step route s a = some s') : MuxInv route cfg₀ s' := by
  cases a with
  | spawn req =>
    cases h
    refine ⟨hi.cfg, hi.tagged, fun ⟨x, hx, hxw⟩ => hi.grown ⟨x, ?_, hxw⟩, fun x hx => ?_⟩
    · rcases List.mem_append.1 hx with hx | hx
      · exact hx
      · rw [List.mem_singleton.1 hx] at hxw; cases hxw
    · rcases List.mem_append.1 hx with hx | hx
      · exact hi.calls x hx
      · rw [List.mem_singleton.1 hx]
        exact ⟨by simp [Pc.locals], by simp [Pc.held], by simp⟩
  | step i =>
    simp only [step] at h
    split at h
    · rename_i c hc
      obtain ⟨r, hr, rfl⟩ := Option.map_eq_some'.1 h
      obtain ⟨hcfg, htag, hok, hgrown⟩ := callStep_ok hi (List.getElem?_mem hc) hr
      refine ⟨hcfg, htag, fun ⟨x, hx, hxw⟩ => ?_, fun x hx => ?_⟩
      · rcases List.mem_or_eq_of_mem_set hx with hx | rfl
        · exact hgrown (.inl ⟨x, hx, hxw⟩)
        · exact hgrown (.inr hxw)
      · rcases List.mem_or_eq_of_mem_set hx with hx | rfl
        · exact hi.calls x hx
        · exact hok
    · cases h

end

/-- Served one after the other, the calls of a `ServeMux` refine `serveAll (serveMuxServe route)`.
Under every interleaving, a traced request's `ServeConfig` has its own route and resource; only its
span options are shared, the mux's followed by at least one server tag. -/
theorem serveMux_requests_keep_own_resource (route : Request → String)
    (cfg₀ : Config FinishOption) :
    (∀ reqs, run route ⟨cfg₀, []⟩ (sequentialSchedule cfg₀.ignoreRequest 0 reqs) =
      some ⟨(serveAll (serveMuxServe route) cfg₀ reqs).2,
        List.zipWith (fun r o => ⟨r, .done, o⟩) reqs (serveAll (serveMuxServe route) cfg₀ reqs).1⟩) ∧
    ∀ s, Reachable route cfg₀ s → ∀ c ∈ s.calls, ∀ sc, c.out = some sc →
      cfg₀.ignoreRequest c.req = false ∧ sc.service = cfg₀.serviceName ∧ sc.finishOpts = [] ∧
      sc.resource = muxResource route cfg₀ c.req ∧ sc.route = route c.req ∧
      ∃ ts, ts ≠ [] ∧ sc.spanOpts = cfg₀.spanOpts ++ ts ∧
        ∀ t ∈ ts, t = spanKindTag ∨ t = componentTag := by
  refine ⟨fun reqs => by simpa using run_sequentialSchedule cfg₀ [] reqs,
    fun s ⟨as, h⟩ c hc sc hsc => ?_⟩
  have hi := Machine.run_closed (fun _ _ _ hi h => muxInv_step hi h) ⟨rfl, ⟨[], by simp, by simp⟩,
    fun ⟨_, hx, _⟩ => absurd hx (List.not_mem_nil _), fun _ hx => absurd hx (List.not_mem_nil _)⟩ h
  obtain ⟨hign, hsvc, hfin, hres, hroute, ⟨ts, hts, htags⟩, hlt⟩ := (hi.calls c hc).out sc hsc
  exact ⟨hign, hsvc, hfin, hres, hroute, ts, fun h => by simp [hts, h] at hlt, hts, htags⟩

end DDTrace.NetHttp.ConcurrentServeMux
