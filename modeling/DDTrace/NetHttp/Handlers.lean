import DDTrace.Tracer.Span

/-!
# The traced `net/http` handlers

`WrapHandler` and `ServeMux.ServeHTTP` build, for each request they trace, the `ServeConfig` they
pass to `TraceAndServe`. Both append the `span.kind` and `component` tags to `cfg.spanOpts` and
assign the result back to the shared `cfg`, so each traced request leaves two more options for the
next one. `WrapHandler` also assigns a nonempty name from the resource namer to the captured
`resource`, which later requests start from.

A handler is its captured state (the `config`, and for `WrapHandler` the `resource`); serving a
request maps a state to the `ServeConfig` passed on (none when `ignoreRequest` sends the request
through untraced) and the next state. The `config` type, its options and `TraceAndServe` are not
under src/: the configuration is any value of `Config`, and `route` stands for `mux.Handler(r)`.
The closed form of the `ServeConfig` of every request of any sequence is `serve_config_drifts`.
-/

namespace DDTrace.NetHttp

/-- The fields of an `*http.Request` the handlers read themselves. -/
structure Request where
  method : String
  url : String
  deriving DecidableEq, Repr

/-- Modelled from the spec: the contrib package's `config`, after `defaults` and the options.
`FinishOption` is the tracer's finish option type. -/
structure Config (FinishOption : Type) where
  serviceName : String
  resourceNamer : Request → String
  ignoreRequest : Request → Bool
  spanOpts : List StartSpanOption
  finishOpts : List FinishOption

/-- The `ServeConfig` handed to `TraceAndServe`. -/
structure ServeConfig (FinishOption : Type) where
  service : String
  resource : String
  finishOpts : List FinishOption
  spanOpts : List StartSpanOption
  route : String

/-- `tracer.Tag(ext.SpanKind, ext.SpanKindServer)` and `tracer.Tag(ext.Component, "net/http")`. -/
def serverTags : List StartSpanOption :=
  [.tag (.ext .spanKind) (.ext .spanKindServer), .tag (.ext .component) (.str "net/http")]

variable {FinishOption : Type}

/-- The two `cfg.spanOpts = append(cfg.spanOpts, ...)` lines both handlers run. -/
def appendServerTags (cfg : Config FinishOption) : Config FinishOption :=
  { cfg with spanOpts := cfg.spanOpts ++ serverTags }

/-- What `WrapHandler`'s function captures: its `cfg` and its `resource`. -/
structure WrapState (FinishOption : Type) where
  cfg : Config FinishOption
  resource : String

/-- The `http.HandlerFunc` that `WrapHandler(h, service, resource, opts...)` returns. -/
def wrapHandlerServe (service : String) (st : WrapState FinishOption) (req : Request) :
    Option (ServeConfig FinishOption) × WrapState FinishOption :=
  if st.cfg.ignoreRequest req then (none, st) else
  let resource := if st.cfg.resourceNamer req ≠ "" then st.cfg.resourceNamer req else st.resource
  let cfg := appendServerTags st.cfg
  (some ⟨service, resource, cfg.finishOpts, cfg.spanOpts, ""⟩, ⟨cfg, resource⟩)

/-- `(*ServeMux).ServeHTTP`, with `route` the pattern `mux.Handler(r)` finds. -/
def serveMuxServe (route : Request → String) (cfg : Config FinishOption) (r : Request) :
    Option (ServeConfig FinishOption) × Config FinishOption :=
  if cfg.ignoreRequest r then (none, cfg) else
  let resource := if cfg.resourceNamer r = "" then r.method ++ " " ++ route r
    else cfg.resourceNamer r
  let cfg := appendServerTags cfg
  (some ⟨cfg.serviceName, resource, [], cfg.spanOpts, route r⟩, cfg)

/-- Serving requests one after the other: the `ServeConfig` of each, and the last state. -/
def serveAll {σ : Type} (serve : σ → Request → Option (ServeConfig FinishOption) × σ) :
    σ → List Request → List (Option (ServeConfig FinishOption)) × σ
  | st, [] => ([], st)
  | st, r :: rs =>
    let o := serve st r
    let os := serveAll serve o.2 rs
    (o.1 :: os.1, os.2)

/-- The requests of a list that are traced. -/
def traced (cfg : Config FinishOption) (reqs : List Request) : Nat :=
  reqs.countP fun r => !cfg.ignoreRequest r

/-- The last nonempty name the resource namer gave a traced request, or `resource`. -/
def lastName (cfg : Config FinishOption) (reqs : List Request) (resource : String) : String :=
  (((reqs.filter fun r => !cfg.ignoreRequest r).map cfg.resourceNamer).filter
    (· ≠ "")).getLast?.getD resource

/-- `cfg.spanOpts` after `n` traced requests. -/
def grownSpanOpts (cfg : Config FinishOption) (n : Nat) : List StartSpanOption :=
  cfg.spanOpts ++ (List.replicate n serverTags).flatten

section

variable {σ : Type} (serve : σ → Request → Option (ServeConfig FinishOption) × σ)

theorem serveAll_append (st : σ) (as bs : List Request) :
    serveAll serve st (as ++ bs) =
      ((serveAll serve st as).1 ++ (serveAll serve (serveAll serve st as).2 bs).1,
        (serveAll serve (serveAll serve st as).2 bs).2) := by
  induction as generalizing st with
  | nil => rfl
  | cons a as ih => simp [serveAll, ih]

theorem length_serveAll (st : σ) (reqs : List Request) : (serveAll serve st reqs).1.length = reqs.length := by
  induction reqs generalizing st with
  | nil => rfl
  | cons r rs ih => simp [serveAll, ih]

/-- A request is served from the state the requests before it left. -/
theorem serveAll_at (st : σ) (pre post : List Request) (r : Request) :
    (serveAll serve st (pre ++ r :: post)).1[pre.length]? =
      some (serve (serveAll serve st pre).2 r).1 := by
  rw [serveAll_append]
  dsimp only
  rw [List.getElem?_append_right (length_serveAll serve st pre).le, length_serveAll, Nat.sub_self]
  simp [serveAll]

end

@[simp] theorem traced_appendServerTags (cfg : Config FinishOption) :
    traced (appendServerTags cfg) = traced cfg := rfl

@[simp] theorem lastName_appendServerTags (cfg : Config FinishOption) :
    lastName (appendServerTags cfg) = lastName cfg := rfl

theorem traced_cons (cfg : Config FinishOption) (r : Request) (rs : List Request) :
    traced cfg (r :: rs) = traced cfg rs + if cfg.ignoreRequest r then 0 else 1 := by
  cases h : cfg.ignoreRequest r <;> simp [traced, List.countP_cons, h]

/-- A traced request's nonempty name replaces the resource the later requests start from. -/
theorem lastName_cons (cfg : Config FinishOption) (r : Request) (rs : List Request)
    (resource : String) :
    lastName cfg (r :: rs) resource = lastName cfg rs
      (if cfg.ignoreRequest r = false ∧ cfg.resourceNamer r ≠ "" then cfg.resourceNamer r
        else resource) := by
  unfold lastName
  by_cases hi : cfg.ignoreRequest r <;> by_cases hn : cfg.resourceNamer r = "" <;>
    simp [hi, hn, List.getLast?_cons]

theorem grownSpanOpts_succ (cfg : Config FinishOption) (n : Nat) :
    grownSpanOpts cfg (n + 1) = grownSpanOpts (appendServerTags cfg) n := by
  simp [grownSpanOpts, appendServerTags, List.replicate_succ]

theorem grownSpanOpts_succ' (cfg : Config FinishOption) (n : Nat) :
    grownSpanOpts cfg (n + 1) = grownSpanOpts cfg n ++ serverTags := by
  simp [grownSpanOpts, List.replicate_succ']

theorem lastName_concat (cfg : Config FinishOption) (pre : List Request) (r : Request)
    (resource : String) :
    lastName cfg (pre ++ [r]) resource =
      if cfg.ignoreRequest r = false ∧ cfg.resourceNamer r ≠ "" then cfg.resourceNamer r
      else lastName cfg pre resource := by
  unfold lastName
  by_cases hi : cfg.ignoreRequest r <;> by_cases hn : cfg.resourceNamer r = "" <;>
    simp [hi, hn, List.getLast?_append]

/-- After a sequence of requests, `WrapHandler`'s function has grown `cfg.spanOpts` by two
options per traced request and holds the last nonempty name as its resource. -/
theorem serveAll_wrapHandlerServe (service : String) (cfg : Config FinishOption)
    (resource : String) (pre : List Request) :
    (serveAll (wrapHandlerServe service) ⟨cfg, resource⟩ pre).2 =
      ⟨{ cfg with spanOpts := grownSpanOpts cfg (traced cfg pre) }, lastName cfg pre resource⟩ := by
  induction pre generalizing cfg resource with
  | nil => simp [serveAll, grownSpanOpts, traced, lastName]
  | cons r rs ih =>
    simp only [serveAll, wrapHandlerServe]
    cases hi : cfg.ignoreRequest r
    · simp only [Bool.false_eq_true, if_false]
      rw [ih, traced_cons, lastName_cons]
      simp only [traced_appendServerTags, lastName_appendServerTags, hi, true_and, if_false,
        Bool.false_eq_true, grownSpanOpts_succ]
      rfl
    · simp [ih, traced_cons, lastName_cons, hi]

/-- After a sequence of requests, the `ServeMux`'s `cfg.spanOpts` has grown by two options per
traced request. -/
theorem serveAll_serveMuxServe (route : Request → String) (cfg : Config FinishOption)
    (pre : List Request) :
    (serveAll (serveMuxServe route) cfg pre).2 =
      { cfg with spanOpts := grownSpanOpts cfg (traced cfg pre) } := by
  induction pre generalizing cfg with
  | nil => simp [serveAll, grownSpanOpts, traced]
  | cons r rs ih =>
    simp only [serveAll, serveMuxServe]
    cases hi : cfg.ignoreRequest r
    · simp only [Bool.false_eq_true, if_false]
      rw [ih, traced_cons]
      simp only [traced_appendServerTags, hi, if_false, Bool.false_eq_true, grownSpanOpts_succ]
      rfl
    · simp [ih, traced_cons, hi]

/-- The `ServeConfig` that each request of any sequence gets. A traced request after `pre` gets
`cfg.spanOpts` with the two server tags once for each traced request so far, itself included;
from `WrapHandler` it gets the last nonempty name so far as its resource. -/
theorem serve_config_drifts (service resource : String) (route : Request → String)
    (cfg : Config FinishOption) (pre post : List Request) (r : Request) :
    (serveAll (wrapHandlerServe service) ⟨cfg, resource⟩ (pre ++ r :: post)).1[pre.length]? =
      some (if cfg.ignoreRequest r then none else
        some ⟨service, lastName cfg (pre ++ [r]) resource, cfg.finishOpts,
          grownSpanOpts cfg (traced cfg pre + 1), ""⟩) ∧
    (serveAll (serveMuxServe route) cfg (pre ++ r :: post)).1[pre.length]? =
      some (if cfg.ignoreRequest r then none else
        some ⟨cfg.serviceName, if cfg.resourceNamer r = "" then r.method ++ " " ++ route r
          else cfg.resourceNamer r, [], grownSpanOpts cfg (traced cfg pre + 1), route r⟩) := by
  rw [serveAll_at, serveAll_at, serveAll_wrapHandlerServe, serveAll_serveMuxServe]
  cases hi : cfg.ignoreRequest r
  · simp [wrapHandlerServe, serveMuxServe, hi, lastName_concat, grownSpanOpts_succ',
      appendServerTags]
  · simp [wrapHandlerServe, serveMuxServe, hi]

end DDTrace.NetHttp
