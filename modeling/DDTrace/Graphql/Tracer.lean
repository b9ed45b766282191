import DDTrace.Tracer.Span
import DDTrace.Machine

/-!
# The graph-gophers/graphql-go tracer

`TraceQuery` and `TraceField` each start a span from the context the executor passes, as the child
of the span that context carries, and give back the context carrying the new span and the function
that finishes it. The query's function finishes its span with the query errors merged into one:
none, the only one, or the first with the count of the others. With `omitTrivial`, a trivial field
gets no span: its context comes back unchanged and its function does nothing.

The executor is not under src/. It is modelled by what it can do with what the tracer gives it:
pass any context it holds to a later `TraceField`, and call any finish function it holds, in any
order and any number of times (graphql-go finishes a field before it resolves the fields below it,
and resolves fields concurrently). What it holds are the `Handle`s of the calls so far.

Over every run, every span the calls start is a query span, the child of the span its query's
context carries, or a field span, the child of an earlier span of the run, so each lies in the
trace of a query span of the run (`spans_form_query_trees`).
-/

namespace DDTrace.Graphql

def tagGraphqlField : String := "graphql.field"
def tagGraphqlQuery : String := "graphql.query"
def tagGraphqlType : String := "graphql.type"
def tagGraphqlOperationName : String := "graphql.operation.name"

/-- The options of the contrib package the tracer reads (`config`, after `defaults` and the
options, is not under src/). -/
structure Config where
  serviceName : String
  analyticsRate : Float
  omitTrivial : Bool

/-- The options `TraceQuery` starts its span with. -/
def queryOptions (cfg : Config) (queryString operationName : String) : List StartSpanOption :=
  [.serviceName cfg.serviceName, .tag (.name tagGraphqlQuery) (.str queryString),
    .tag (.name tagGraphqlOperationName) (.str operationName),
    .tag (.ext .component) (.str "graph-gophers/graphql-go"), .measured] ++
    eventSampleRateTag cfg.analyticsRate

/-- The options `TraceField` starts its span with. -/
def fieldOptions (cfg : Config) (typeName fieldName : String) : List StartSpanOption :=
  [.serviceName cfg.serviceName, .tag (.name tagGraphqlField) (.str fieldName),
    .tag (.name tagGraphqlType) (.str typeName),
    .tag (.ext .component) (.str "graph-gophers/graphql-go"), .measured] ++
    eventSampleRateTag cfg.analyticsRate

/-- The error the query's finish function reports, from the texts of the query errors: the
`switch n := len(errs)` of `TraceQuery`. -/
def queryError : List String → Option String
  | [] => none
  | [e] => some e
  | e :: es => some (e ++ " (and " ++ toString es.length ++ " more errors)")

/-- The functions `TraceQuery` and `TraceField` return, by the span they finish. -/
inductive FinishFunc
  | query (span : Nat)
  | field (span : Nat)
  | noop
  deriving DecidableEq, Repr

/-- What the executor holds after a call: the context returned, by the span it carries, and the
finish function. -/
structure Handle where
  ctx : Option SpanContext
  finish : FinishFunc

section

variable (mint : Nat → UInt64) (cfg : Config)

/-- `(*Tracer).TraceQuery`. -/
def traceQuery (ctx : Option SpanContext) (queryString operationName : String) (t : Tracer) :
    Tracer × Handle :=
  let r := t.startSpanFromContext mint ctx "graphql.request"
    (queryOptions cfg queryString operationName)
  (r.1, ⟨some r.2, .query t.spans.length⟩)

/-- `(*Tracer).TraceField`; the label and the arguments are not read. -/
def traceField (ctx : Option SpanContext) (typeName fieldName : String) (trivial : Bool)
    (t : Tracer) : Tracer × Handle :=
  if cfg.omitTrivial && trivial then (t, ⟨ctx, .noop⟩) else
  let r := t.startSpanFromContext mint ctx "graphql.field" (fieldOptions cfg typeName fieldName)
  (r.1, ⟨some r.2, .field t.spans.length⟩)

end

/-- The function `TraceQuery` returns, called with the query errors. -/
def finishQuery (span : Nat) (errs : List String) (t : Tracer) : Tracer :=
  t.finish span (queryError errs)

/-- The function `TraceField` returns for a traced field: both branches of its nil check finish the
span with the error, if there is one. -/
def finishField (span : Nat) (err : Option String) (t : Tracer) : Tracer :=
  t.finish span err

structure State where
  tracer : Tracer
  handles : List Handle

/-- A call of the executor: `traceField` and the finish actions name the handle they use. -/
inductive Action
  | traceQuery (ctx : Option SpanContext) (queryString operationName : String)
  | traceField (h : Nat) (typeName fieldName : String) (trivial : Bool)
  | finishQuery (h : Nat) (errs : List String)
  | finishField (h : Nat) (err : Option String)

section

variable (mint : Nat → UInt64) (cfg : Config)

def step (s : State) : Action → Option State
  | .traceQuery ctx queryString operationName =>
    let r := traceQuery mint cfg ctx queryString operationName s.tracer
    some ⟨r.1, s.handles ++ [r.2]⟩
  | .traceField h typeName fieldName trivial =>
    s.handles[h]?.map fun hd =>
      let r := traceField mint cfg hd.ctx typeName fieldName trivial s.tracer
      ⟨r.1, s.handles ++ [r.2]⟩
  | .finishQuery h errs =>
    match s.handles[h]?.map Handle.finish with
    | some (.query k) => some { s with tracer := finishQuery k errs s.tracer }
    | _ => none
  | .finishField h err =>
    match s.handles[h]?.map Handle.finish with
    | some (.field k) => some { s with tracer := finishField k err s.tracer }
    | some .noop => some s
    | _ => none

abbrev run : State → List Action → Option State := Machine.run (step mint cfg)

def init (t : Tracer) : State := ⟨t, []⟩

/-- The states the executor can reach from a tracer that has already started `t.spans`. -/
def Reachable (t : Tracer) (s : State) : Prop :=
  ∃ as, run mint cfg (init t) as = some s

/-- Span `k` of a run whose spans are `spans`, the first `n` started before it: a query span, the
child of the span its query's context carries, or a field span, the child of an earlier span of
the run. -/
def SpanOfRun (n : Nat) (spans : List Span) (k : Nat) (sp : Span) : Prop :=
  (∃ (ctx : Option SpanContext) (q op : String),
    sp = ⟨"graphql.request", queryOptions cfg q op ++ (ctx.map .childOf).toList,
      contextOf (mint k) (queryOptions cfg q op ++ (ctx.map .childOf).toList)⟩) ∨
  (∃ j sj, n ≤ j ∧ j < k ∧ spans[j]? = some sj ∧ ∃ typeName fieldName,
    sp = ⟨"graphql.field", fieldOptions cfg typeName fieldName ++ [.childOf sj.context],
      contextOf (mint k) (fieldOptions cfg typeName fieldName ++ [.childOf sj.context])⟩)

end

section

variable {mint : Nat → UInt64} {cfg : Config} {t : Tracer}

theorem traceField_of_omitted {ctx : Option SpanContext} {typeName fieldName : String}
    {trivial : Bool} (h : (cfg.omitTrivial && trivial) = true) :
    traceField mint cfg ctx typeName fieldName trivial t = (t, ⟨ctx, .noop⟩) := by
  simp [traceField, h]

theorem traceField_of_traced {ctx : Option SpanContext} {typeName fieldName : String}
    {trivial : Bool} (h : (cfg.omitTrivial && trivial) = false) :
    traceField mint cfg ctx typeName fieldName trivial t =
      let r := t.startSpanFromContext mint ctx "graphql.field" (fieldOptions cfg typeName fieldName)
      (r.1, ⟨some r.2, .field t.spans.length⟩) := by
  rw [traceField, if_neg (by simp [h])]

end

theorem getElem?_of_prefix {α : Type} {l l' : List α} (hp : l <+: l') {i : Nat} {x : α}
    (h : l[i]? = some x) : l'[i]? = some x := by
  obtain ⟨t, rfl⟩ := hp
  rw [List.getElem?_append_left (List.getElem?_eq_some_iff.mp h).1, h]

section

variable {mint : Nat → UInt64} {cfg : Config} {s s' : State} {a : Action}

/-- What one call can do: add the handle of a `TraceQuery`, add the handle of a `TraceField` made
with a context the executor holds, or finish a span, leaving the spans and the handles alone. -/
theorem step_cases (h : step mint cfg s a = some s') :
    (∃ ctx q op, s' = ⟨(traceQuery mint cfg ctx q op s.tracer).1,
      s.handles ++ [(traceQuery mint cfg ctx q op s.tracer).2]⟩) ∨
    (∃ hd ∈ s.handles, ∃ typeName fieldName trivial,
      s' = ⟨(traceField mint cfg hd.ctx typeName fieldName trivial s.tracer).1,
        s.handles ++ [(traceField mint cfg hd.ctx typeName fieldName trivial s.tracer).2]⟩) ∨
    (s'.tracer.spans = s.tracer.spans ∧ s'.handles = s.handles) := by
  cases a with
  | traceQuery ctx q op => exact .inl ⟨ctx, q, op, (Option.some.inj h).symm⟩
  | traceField i typeName fieldName trivial =>
    obtain ⟨hd, hmem, rfl⟩ := Option.map_eq_some'.mp h
    exact .inr (.inl ⟨hd, List.getElem?_mem hmem, typeName, fieldName, trivial, rfl⟩)
  | finishQuery i errs =>
    simp only [step] at h
    split at h <;> cases h
    exact .inr (.inr ⟨rfl, rfl⟩)
  | finishField i err =>
    simp only [step] at h
    split at h <;> cases h
    all_goals exact .inr (.inr ⟨rfl, rfl⟩)

end

section

variable {mint : Nat → UInt64} {cfg : Config} {t : Tracer} {s s' : State}

/-- What every reachable state keeps: the spans started before the run are untouched, every span
the run started is a span of the run, and every context the executor holds carries a span of the
run. -/
structure Inv (mint : Nat → UInt64) (cfg : Config) (t : Tracer) (s : State) : Prop where
  old : t.spans <+: s.tracer.spans
  spans : ∀ k sp, s.tracer.spans[k]? = some sp → t.spans.length ≤ k →
    SpanOfRun mint cfg t.spans.length s.tracer.spans k sp
  handles : ∀ hd ∈ s.handles,
    ∃ j sj, t.spans.length ≤ j ∧ s.tracer.spans[j]? = some sj ∧ hd.ctx = some sj.context

theorem SpanOfRun.mono {n k : Nat} {spans spans' : List Span} {sp : Span} (hp : spans <+: spans')
    (h : SpanOfRun mint cfg n spans k sp) : SpanOfRun mint cfg n spans' k sp := by
  rcases h with hq | ⟨j, sj, hn, hjk, hj, rest⟩
  · exact .inl hq
  · exact .inr ⟨j, sj, hn, hjk, getElem?_of_prefix hp hj, rest⟩

theorem inv_init : Inv mint cfg t (init t) :=
  ⟨List.prefix_refl _,
    fun _ _ hk hn => absurd (List.getElem?_eq_some_iff.mp hk).1 (Nat.not_lt.mpr hn),
    fun _ h => absurd h (List.not_mem_nil _)⟩

/-- A call that adds a handle and no span. -/
theorem Inv.addHandle (hi : Inv mint cfg t s) (hd : Handle)
    (hh : ∃ j sj, t.spans.length ≤ j ∧ s.tracer.spans[j]? = some sj ∧
      hd.ctx = some sj.context) :
    Inv mint cfg t ⟨s.tracer, s.handles ++ [hd]⟩ := by
  refine ⟨hi.old, hi.spans, fun hd' hmem => ?_⟩
  rcases List.mem_append.mp hmem with hold | hnew
  · exact hi.handles hd' hold
  · rw [List.mem_singleton.mp hnew]; exact hh

/-- A call that starts span `sp`, a span of the run, and adds a handle carrying it. -/
theorem Inv.addSpan (hi : Inv mint cfg t s) (sp : Span)
    (hsp : SpanOfRun mint cfg t.spans.length (s.tracer.spans ++ [sp]) s.tracer.spans.length sp)
    (hd : Handle) (hctx : hd.ctx = some sp.context) (tr : Tracer)
    (htr : tr.spans = s.tracer.spans ++ [sp]) : Inv mint cfg t ⟨tr, s.handles ++ [hd]⟩ := by
  have hpre : s.tracer.spans <+: tr.spans := htr ▸ List.prefix_append _ _
  have hlen := hi.old.length_le
  refine ⟨hi.old.trans hpre, fun k sp' hk hn => ?_, fun hd' hmem => ?_⟩
  · by_cases hlt : k < s.tracer.spans.length
    · rw [htr, List.getElem?_append_left hlt] at hk
      exact (hi.spans k sp' hk hn).mono hpre
    · have hk' := (List.getElem?_eq_some_iff.mp hk).1
      rw [htr, List.length_append, List.length_singleton] at hk'
      obtain rfl : k = s.tracer.spans.length := by omega
      rw [htr, List.getElem?_concat_length] at hk
      cases hk
      exact htr ▸ hsp
  · rcases List.mem_append.mp hmem with hold | hnew
    · obtain ⟨j, sj, hn, hj, hc⟩ := hi.handles hd' hold
      exact ⟨j, sj, hn, getElem?_of_prefix hpre hj, hc⟩
    · rw [List.mem_singleton.mp hnew]
      exact ⟨_, sp, hlen, htr ▸ List.getElem?_concat_length _ _, hctx⟩

theorem inv_step {a : Action} (hi : Inv mint cfg t s) (h : step mint cfg s a = some s') :
    Inv mint cfg t s' := by
  rcases step_cases h with
    ⟨ctx, q, op, rfl⟩ | ⟨hd, hmem, typeName, fieldName, trivial, rfl⟩ | ⟨hsp, hh⟩
  · exact hi.addSpan _ (.inl ⟨ctx, q, op, rfl⟩) _ rfl _ rfl
  · cases ho : cfg.omitTrivial && trivial
    · obtain ⟨j, sj, hn, hj, hc⟩ := hi.handles hd hmem
      rw [traceField_of_traced ho, hc]
      exact hi.addSpan _ (.inr ⟨j, sj, hn, (List.getElem?_eq_some_iff.mp hj).1,
        getElem?_of_prefix (List.prefix_append _ _) hj, typeName, fieldName, rfl⟩) _ rfl _ rfl
    · rw [traceField_of_omitted ho]
      exact hi.addHandle _ (hi.handles hd hmem)
  · exact ⟨hsp ▸ hi.old, hsp ▸ hi.spans, hsp ▸ hh ▸ hi.handles⟩

/-- Following parents back, every span of the run meets a query span of the run, whose trace it
is in. -/
theorem exists_query_span {n : Nat} {spans : List Span}
    (hs : ∀ k sp, spans[k]? = some sp → n ≤ k → SpanOfRun mint cfg n spans k sp) (k : Nat) :
    ∀ sp, spans[k]? = some sp → n ≤ k →
      ∃ q sq, n ≤ q ∧ q ≤ k ∧ spans[q]? = some sq ∧ sq.operationName = "graphql.request" ∧
        sp.context.traceID = sq.context.traceID := by
  induction k using Nat.strong_induction_on with
  | _ k ih =>
    intro sp hk hn
    rcases hs k sp hk hn with
      ⟨ctx, q, op, rfl⟩ | ⟨j, sj, hnj, hjk, hj, typeName, fieldName, rfl⟩
    · exact ⟨k, _, hn, le_rfl, hk, rfl, rfl⟩
    · obtain ⟨q, sq, hnq, hqj, hq, hname, htr⟩ := ih j hjk sj hj hnj
      exact ⟨q, sq, hnq, by omega, hq, hname, by simp [contextOf, htr]⟩

/-- Over every run of the executor, each span the calls start is a query span or the child of an
earlier span of the run, and lies in the trace of a query span of the run; the spans started
before the run are untouched. -/
theorem spans_form_query_trees (t : Tracer) (s : State) (h : Reachable mint cfg t s) :
    t.spans <+: s.tracer.spans ∧
    ∀ k sp, s.tracer.spans[k]? = some sp → t.spans.length ≤ k →
      SpanOfRun mint cfg t.spans.length s.tracer.spans k sp ∧
      ∃ q sq, t.spans.length ≤ q ∧ q ≤ k ∧ s.tracer.spans[q]? = some sq ∧
        sq.operationName = "graphql.request" ∧ sp.context.traceID = sq.context.traceID := by
  obtain ⟨as, h⟩ := h
  have hi := Machine.run_closed (fun _ _ _ hi h => inv_step hi h) inv_init h
  exact ⟨hi.old, fun k sp hk hn =>
    ⟨hi.spans k sp hk hn, exists_query_span hi.spans k sp hk hn⟩⟩

end

/-- Trivial fields omitted, span IDs counted from one. -/
def sampleConfig : Config := ⟨"graphql", 0.5, true⟩

def sampleMint (k : Nat) : UInt64 := UInt64.ofNat (k + 1)

/-- A query under a request span `⟨7, 7⟩`: the field `hero`, finished before the fields below it
are traced, the omitted trivial field `name`, the field `friends` under `hero`'s context, then the
finishes, the query's with two errors. -/
def sampleRun : List Action :=
  [.traceQuery (some ⟨7, 7⟩) "query Hero" "Hero", .traceField 0 "Query" "hero" false,
    .finishField 1 none, .traceField 1 "Character" "name" true,
    .traceField 2 "Character" "friends" false, .finishField 3 (some "timeout"),
    .finishField 2 none, .finishQuery 0 ["timeout", "denied"]]

def sampleState : State :=
  (run sampleMint sampleConfig (init Tracer.empty) sampleRun).getD (init Tracer.empty)

theorem spans_form_query_trees_sample :
    Tracer.empty.spans <+: sampleState.tracer.spans ∧
    ∀ k sp, sampleState.tracer.spans[k]? = some sp → Tracer.empty.spans.length ≤ k →
      SpanOfRun sampleMint sampleConfig Tracer.empty.spans.length sampleState.tracer.spans k sp ∧
      ∃ q sq, Tracer.empty.spans.length ≤ q ∧ q ≤ k ∧
        sampleState.tracer.spans[q]? = some sq ∧ sq.operationName = "graphql.request" ∧
        sp.context.traceID = sq.context.traceID :=
  spans_form_query_trees Tracer.empty sampleState ⟨sampleRun, rfl⟩

/-- The run starts three spans, the omitted field none, and finishes each once, the query with
its two errors merged. -/
example : sampleState.tracer.spans.length = 3 ∧
    (List.range 3).map (finishCount sampleState.tracer) = [1, 1, 1] ∧
    queryError ["timeout", "denied"] = some "timeout (and 1 more errors)" := by
  decide

end DDTrace.Graphql
