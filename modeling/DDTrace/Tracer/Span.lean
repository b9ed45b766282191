import Mathlib.Data.List.Basic

/-!
# The tracer as the contrib wrappers use it

A wrapper starts a span from a list of `StartSpanOption`s, sets tags on it and finishes it.
The tracer is recorded by exactly that: the spans started, in order, and every `SetTag` and
`Finish` call made on them. A span is its index in the start list. The span ID of the `k`-th
span is `mint k`, so that a hypothesis on `mint` can say that minted IDs are pairwise distinct.
The constants of `ddtrace/ext` are declared outside this repository; they appear by name.
-/

namespace DDTrace

/-- The constants of `ddtrace/ext` the wrappers use, and `samplernames.AppSec`. -/
inductive Ext
  | component | spanKind | spanKindServer | spanKindProducer | spanKindConsumer
  | spanTypeMessageProducer | spanTypeMessageConsumer | eventSampleRate | manualKeep
  | samplerAppSec
  deriving DecidableEq, Repr

inductive TagKey
  | name (key : String)
  | ext (key : Ext)
  deriving DecidableEq, Repr

inductive TagValue
  | str (s : String)
  | ext (v : Ext)
  | int (i : Int)
  | float (f : Float)

/-- The propagable identity of a span (`ddtrace.SpanContext`). -/
structure SpanContext where
  traceID : UInt64
  spanID : UInt64
  deriving DecidableEq, Repr

inductive StartSpanOption
  | serviceName (name : String)
  | resourceName (name : String)
  | spanType (name : Ext)
  | tag (key : TagKey) (value : TagValue)
  | childOf (parent : SpanContext)
  | measured

structure Span where
  operationName : String
  opts : List StartSpanOption
  context : SpanContext

inductive SpanCall
  | setTag (span : Nat) (key : TagKey) (value : TagValue)
  | finish (span : Nat) (err : Option String)

structure Tracer where
  spans : List Span
  calls : List SpanCall

/-- `tracer.Tag(ext.EventSampleRate, rate)` unless the rate is NaN, as every wrapper adds it. -/
def eventSampleRateTag (rate : Float) : List StartSpanOption :=
  if !rate.isNaN then [.tag (.ext .eventSampleRate) (.float rate)] else []

/-- The parent an option list names. `StartSpan` applies the options in order, so the last
`ChildOf` wins. -/
def parentOf : List StartSpanOption → Option SpanContext
  | [] => none
  | .childOf p :: opts => (parentOf opts).getD p
  | _ :: opts => parentOf opts

/-- The context of a span with ID `id`: a child joins its parent's trace, a root starts its own
trace under its span ID. -/
def contextOf (id : UInt64) (opts : List StartSpanOption) : SpanContext :=
  ⟨(parentOf opts).elim id SpanContext.traceID, id⟩

namespace Tracer

def empty : Tracer := ⟨[], []⟩

/-- `tracer.StartSpan`: the new span is the next index, with ID `mint` of that index. -/
def startSpan (mint : Nat → UInt64) (operationName : String) (opts : List StartSpanOption)
    (t : Tracer) : Tracer :=
  { t with spans := t.spans ++ [⟨operationName, opts, contextOf (mint t.spans.length) opts⟩] }

/-- `tracer.StartSpanFromContext`, on a context that carries the span of context `ctx`, if any: a
`ChildOf` that span follows the caller's options. The second component is the context of the new
span, which the returned context carries. -/
def startSpanFromContext (mint : Nat → UInt64) (ctx : Option SpanContext) (operationName : String)
    (opts : List StartSpanOption) (t : Tracer) : Tracer × SpanContext :=
  let opts := opts ++ (ctx.map .childOf).toList
  (t.startSpan mint operationName opts, contextOf (mint t.spans.length) opts)

def setTag (t : Tracer) (span : Nat) (key : TagKey) (value : TagValue) : Tracer :=
  { t with calls := t.calls ++ [.setTag span key value] }

def finish (t : Tracer) (span : Nat) (err : Option String) : Tracer :=
  { t with calls := t.calls ++ [.finish span err] }

end Tracer

def SpanCall.finishes (k : Nat) : SpanCall → Bool
  | .finish j _ => j == k
  | .setTag .. => false

/-- How many times span `k` has been finished. -/
def finishCount (t : Tracer) (k : Nat) : Nat :=
  t.calls.countP (SpanCall.finishes k)

@[simp] theorem contextOf_spanID (id : UInt64) (opts : List StartSpanOption) :
    (contextOf id opts).spanID = id := rfl

/-- The last `ChildOf` names the parent. -/
@[simp] theorem parentOf_append_childOf (opts : List StartSpanOption) (c : SpanContext) :
    parentOf (opts ++ [.childOf c]) = some c := by
  induction opts with
  | nil => rfl
  | cons o opts ih => cases o <;> simp [parentOf, ih]

@[simp] theorem spans_empty : Tracer.empty.spans = [] := rfl

@[simp] theorem length_spans_startSpan (mint : Nat → UInt64) (name : String)
    (opts : List StartSpanOption) (t : Tracer) :
    (t.startSpan mint name opts).spans.length = t.spans.length + 1 := by
  simp [Tracer.startSpan]

@[simp] theorem spans_startSpanFromContext (mint : Nat → UInt64) (ctx : Option SpanContext)
    (name : String) (opts : List StartSpanOption) (t : Tracer) :
    (t.startSpanFromContext mint ctx name opts).1.spans = t.spans ++
      [⟨name, opts ++ (ctx.map .childOf).toList,
        contextOf (mint t.spans.length) (opts ++ (ctx.map .childOf).toList)⟩] := rfl

@[simp] theorem calls_startSpanFromContext (mint : Nat → UInt64) (ctx : Option SpanContext)
    (name : String) (opts : List StartSpanOption) (t : Tracer) :
    (t.startSpanFromContext mint ctx name opts).1.calls = t.calls := rfl

@[simp] theorem spans_setTag (t : Tracer) (j : Nat) (key : TagKey) (v : TagValue) :
    (t.setTag j key v).spans = t.spans := rfl

@[simp] theorem spans_finish (t : Tracer) (j : Nat) (e : Option String) :
    (t.finish j e).spans = t.spans := rfl

@[simp] theorem calls_startSpan (mint : Nat → UInt64) (name : String)
    (opts : List StartSpanOption) (t : Tracer) :
    (t.startSpan mint name opts).calls = t.calls := rfl

@[simp] theorem finishCount_empty (k : Nat) : finishCount Tracer.empty k = 0 := rfl

@[simp] theorem finishCount_startSpan (mint : Nat → UInt64) (name : String)
    (opts : List StartSpanOption) (t : Tracer) (k : Nat) :
    finishCount (t.startSpan mint name opts) k = finishCount t k := rfl

@[simp] theorem finishCount_setTag (t : Tracer) (j : Nat) (key : TagKey) (v : TagValue)
    (k : Nat) : finishCount (t.setTag j key v) k = finishCount t k := by
  simp [finishCount, Tracer.setTag, SpanCall.finishes]

@[simp] theorem finishCount_finish (t : Tracer) (j : Nat) (e : Option String) (k : Nat) :
    finishCount (t.finish j e) k = finishCount t k + if j = k then 1 else 0 := by
  by_cases h : j = k <;> simp [finishCount, Tracer.finish, SpanCall.finishes, h]

end DDTrace
