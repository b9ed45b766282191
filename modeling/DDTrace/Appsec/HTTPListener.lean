import DDTrace.Appsec.Addresses
import DDTrace.Appsec.GRPCListener
import DDTrace.Appsec.Monitoring
import DDTrace.Machine

/-!
# The HTTP WAF listener

For each HTTP handler operation, `newHTTPWAFEventListener` keeps the body the operation's SDK body
operations report, and when the handler operation finishes it runs the WAF once on the values the
request has for the listener's rule addresses (`httpValues`), adds the WAF monitoring tags, adds
the rules monitoring tags and the manual keep tag through `monitorRulesOnce`, a `sync.Once` of the
listener, and adds what the WAF found as a security event when it found something and the limiter
allows.

Handler operations run concurrently. Each finish callback is cut at its steps on what the
operations share: `waf.NewContext`, which gives nil once the handle is released, with the run and
the monitoring tags; `monitorRulesOnce.Do`; and `limiter.Allow`. Over every interleaving, one
operation carries the rules monitoring tags once `monitorRulesOnce` has run, and none before
(`rules_tags_once_per_listener`).

The WAF, its handle and the limiter are not under src/: the run's result on the values, given
what the context measured of the run, the ruleset information, the WAF version, the JSON encoding
of the ruleset errors and the limiter's `Allow` are parameters (`Env`).
-/

namespace DDTrace.Appsec.HTTPListener

open GRPCListener (RunError runWAF)

/-- The fields of `httpsec.HandlerOperationArgs` the listener reads; `none` is a nil map. -/
structure HandlerOperationArgs where
  requestURI : String
  headers : Option (List (String × List String))
  cookies : Option (List (String × List String))
  query : Option (List (String × List String))
  pathParams : Option (List (String × String))

/-- The field of `httpsec.HandlerOperationRes` the listener reads. -/
structure HandlerOperationRes where
  status : Int

/-- A value passed to the WAF, by its Go type; `Body` is the type of the bodies the SDK reports. -/
inductive Value (Body : Type)
  | string (s : String)
  | stringsMap (m : List (String × List String))
  | stringMap (m : List (String × String))
  | int (n : Int)
  | body (b : Body)

section

variable {Body : Type} (args : HandlerOperationArgs) (body : Option Body)
  (res : HandlerOperationRes)

/-- The value the `switch addr` of the finish callback writes for `addr`, if it writes one: each
case writes under the address it matched. -/
def addressValue (addr : String) : Option (Value Body) :=
  if addr = serverRequestRawURIAddr then some (.string args.requestURI)
  else if addr = serverRequestHeadersNoCookiesAddr then args.headers.map .stringsMap
  else if addr = serverRequestCookiesAddr then args.cookies.map .stringsMap
  else if addr = serverRequestQueryAddr then args.query.map .stringsMap
  else if addr = serverRequestPathParams then args.pathParams.map .stringMap
  else if addr = serverRequestBody then body.map .body
  else if addr = serverResponseStatusAddr then some (.int res.status)
  else none

/-- One iteration of `for _, addr := range addresses`. -/
def valuesStep (values : String → Option (Value Body)) (addr : String) :
    String → Option (Value Body) :=
  match addressValue args body res addr with
  | some v => Function.update values addr (some v)
  | none => values

/-- The `values` map the WAF runs on, built over the listener's rule addresses. -/
def httpValues (addresses : List String) : String → Option (Value Body) :=
  addresses.foldl (valuesStep args body res) fun _ => none

end

/-- What the listener calls outside src/, and its rule addresses. -/
structure Env (L Body : Type) where
  addresses : List String
  wafRun : (String → Option (Value Body)) → Measurement → List UInt8 × Option RunError
  rInfo : RulesetInfo
  wafVersion : String
  marshal : Option (List (String × List String)) → Option String
  allow : L → Bool × L

/-- Where a handler operation is: running, with its SDK body operations reporting bodies; past
the WAF run, before `monitorRulesOnce.Do`; before the limiter; or done. -/
inductive Pc
  | handling
  | once (found : List UInt8)
  | limit (found : List UInt8)
  | done
  deriving DecidableEq, Repr

/-- A handler operation: its arguments, the `body` variable of its callbacks, where its finish
callback is, and the tags and security events added to it. -/
structure Operation (Body : Type) where
  args : HandlerOperationArgs
  body : Option Body
  pc : Pc
  tags : List (TagKey × TagValue)
  events : List (List UInt8)

/-- What the operations of one listener share: whether the WAF handle is still alive, whether
`monitorRulesOnce` has run, and the limiter. -/
structure Shared (L : Type) where
  alive : Bool
  rulesMonitored : Bool
  limiter : L

structure State (L Body : Type) where
  shared : Shared L
  operations : List (Operation Body)

/-- A handler operation starts; an SDK body operation of operation `i` starts (`none` for a nil
body); operation `i` finishes and its callback runs a WAF context, then takes its next step; or the
WAF handle is released. -/
inductive Action (Body : Type)
  | start (args : HandlerOperationArgs)
  | sdkBody (i : Nat) (body : Option Body)
  | finish (i : Nat) (res : HandlerOperationRes) (m : Measurement)
  | step (i : Nat)
  | release

section

variable {L Body : Type} (env : Env L Body)

/-- The WAF monitoring tags of a run the context measured as `m`. -/
def wafTags (m : Measurement) : List (TagKey × TagValue) :=
  wafMonitoringTags env.rInfo.version m.overallRuntimeNs m.internalRuntimeNs m.timeouts

/-- The tags the function given to `monitorRulesOnce.Do` adds. -/
def rulesTags : List (TagKey × TagValue) := rulesOnceTags env.marshal env.wafVersion env.rInfo

/-- The finish callback up to `monitorRulesOnce`: it returns when `waf.NewContext` gives nil,
and otherwise runs the WAF on `values` and adds the monitoring tags. -/
def finishOp (alive : Bool) (res : HandlerOperationRes) (m : Measurement) (op : Operation Body) :
    Operation Body :=
  if alive then
    { op with pc := .once (runWAF (env.wafRun (httpValues op.args op.body res env.addresses) m)),
              tags := op.tags ++ wafTags env m }
  else { op with pc := .done }

/-- The next step of a finish callback past the WAF run: `monitorRulesOnce.Do`, then the return
when nothing was found, or `limiter.Allow()` and the security event. -/
def callbackStep (sh : Shared L) (op : Operation Body) : Option (Shared L × Operation Body) :=
  match op.pc with
  | .once found =>
    if sh.rulesMonitored then some (sh, { op with pc := .limit found })
    else some ({ sh with rulesMonitored := true },
      { op with pc := .limit found, tags := op.tags ++ rulesTags env })
  | .limit found =>
    if found = [] then some (sh, { op with pc := .done }) else
    let r := env.allow sh.limiter
    some ({ sh with limiter := r.2 },
      { op with pc := .done, events := if r.1 then op.events ++ [found] else op.events })
  | _ => none

def step (s : State L Body) : Action Body → Option (State L Body)
  | .start args => some { s with operations := s.operations ++ [⟨args, none, .handling, [], []⟩] }
  | .sdkBody i body =>
    match s.operations[i]? with
    | some op =>
      if op.pc = .handling then some { s with operations := s.operations.set i { op with body } }
      else none
    | none => none
  | .finish i res m =>
    match s.operations[i]? with
    | some op =>
      if op.pc = .handling then
        some { s with operations := s.operations.set i (finishOp env s.shared.alive res m op) }
      else none
    | none => none
  | .step i =>
    match s.operations[i]? with
    | some op => (callbackStep env s.shared op).map fun r => ⟨r.1, s.operations.set i r.2⟩
    | none => none
  | .release => some { s with shared := { s.shared with alive := false } }

/-- A listener just registered, with a live handle and the limiter in state `l`. -/
def init (l : L) : State L Body := ⟨⟨true, false, l⟩, []⟩

abbrev Reachable : State L Body → Prop := Machine.Reachable (step env) init

abbrev run : State L Body → List (Action Body) → Option (State L Body) := Machine.run (step env)

end

/-- Whether an operation carries the manual keep tag, which only `monitorRulesOnce` adds. -/
def Operation.kept {Body : Type} (op : Operation Body) : Bool :=
  op.tags.any (·.1 == .ext .manualKeep)

section

variable {Body : Type} {args : HandlerOperationArgs} {body : Option Body}
  {res : HandlerOperationRes}

theorem valuesStep_apply (values : String → Option (Value Body)) (a addr : String) :
    valuesStep args body res values a addr =
      if addr = a ∧ (addressValue args body res a).isSome then addressValue args body res addr
      else values addr := by
  unfold valuesStep
  cases h : addressValue args body res a with
  | none => simp
  | some v =>
    by_cases ha : addr = a
    · subst ha; simp [h]
    · simp [ha]

theorem foldl_valuesStep (values : String → Option (Value Body)) (as : List String)
    (addr : String) :
    as.foldl (valuesStep args body res) values addr =
      if addr ∈ as ∧ (addressValue args body res addr).isSome then addressValue args body res addr
      else values addr := by
  induction as generalizing values with
  | nil => simp
  | cons a as ih =>
    rw [List.foldl_cons, ih, valuesStep_apply]
    by_cases ha : addr = a
    · subst ha; by_cases hs : (addressValue args body res addr).isSome <;> simp [hs]
    · simp [ha]

theorem mem_httpAddressList_of_addressValue {addr : String}
    (h : (addressValue args body res addr).isSome) : addr ∈ httpAddressList := by
  by_contra hn
  simp only [httpAddressList, List.mem_cons, List.mem_nil_iff, or_false, not_or] at hn
  obtain ⟨h₁, h₂, h₃, h₄, h₅, h₆, h₇⟩ := hn
  rw [addressValue, if_neg h₁, if_neg h₂, if_neg h₃, if_neg h₄, if_neg h₅, if_neg h₆,
    if_neg h₇] at h
  cases h

/-- The WAF runs on the value of each of the listener's rule addresses the request has, and on
nothing else; only the seven supported HTTP addresses get a value. -/
theorem waf_values_of_addresses (addresses : List String) :
    (∀ addr, httpValues args body res addresses addr =
      if addr ∈ addresses then addressValue args body res addr else none) ∧
    ∀ addr, (httpValues args body res addresses addr).isSome →
      addr ∈ addresses ∧ addr ∈ httpAddressList := by
  have happly : ∀ addr, httpValues args body res addresses addr =
      if addr ∈ addresses then addressValue args body res addr else none := fun addr => by
    rw [httpValues, foldl_valuesStep]
    by_cases hm : addr ∈ addresses <;> cases h : addressValue args body res addr <;> simp [hm, h]
  refine ⟨happly, fun addr h => ?_⟩
  rw [happly] at h
  split_ifs at h with hm
  · exact ⟨hm, mem_httpAddressList_of_addressValue h⟩
  · simp at h

end

theorem countP_set_of_getElem? {α : Type} (p : α → Bool) {l : List α} {i : Nat} {y : α}
    (h : l[i]? = some y) (x : α) :
    (l.set i x).countP p + (if p y then 1 else 0) = l.countP p + (if p x then 1 else 0) := by
  induction l generalizing i with
  | nil => simp at h
  | cons z l ih =>
    cases i with
    | zero =>
      simp only [List.getElem?_cons_zero, Option.some.injEq] at h
      subst h; simp only [List.set_cons_zero, List.countP_cons]; omega
    | succ i =>
      simp only [List.getElem?_cons_succ] at h
      simp only [List.set_cons_succ, List.countP_cons]; have := ih h; omega

section

variable {L Body : Type} (env : Env L Body)

/-- What an operation's tags and events are at each point of its finish callback. -/
def OpInv (op : Operation Body) : Prop :=
  match op.pc with
  | .handling => op.tags = [] ∧ op.events = []
  | .once _ => (∃ m, op.tags = wafTags env m) ∧ op.events = []
  | .limit _ =>
    (∃ m, op.tags = wafTags env m ∨ op.tags = wafTags env m ++ rulesTags env) ∧ op.events = []
  | .done =>
    (op.tags = [] ∨ ∃ m, op.tags = wafTags env m ∨ op.tags = wafTags env m ++ rulesTags env) ∧
    (op.events = [] ∨ ∃ found, found ≠ [] ∧ op.events = [found])

structure Inv (s : State L Body) : Prop where
  ops : ∀ op ∈ s.operations, OpInv env op
  kept : s.operations.countP Operation.kept = if s.shared.rulesMonitored then 1 else 0

variable {env} {s s' : State L Body} {op : Operation Body}

/-- Replacing operation `i` by one that keeps `OpInv`, while the manual keep tags and
`monitorRulesOnce` change together. -/
theorem Inv.set (hi : Inv env s) {i : Nat} (hop : s.operations[i]? = some op) (op' : Operation Body)
    (hinv : OpInv env op') (sh : Shared L)
    (hkept : (if sh.rulesMonitored then 1 else 0) + (if op.kept then 1 else 0) =
      (if s.shared.rulesMonitored then 1 else 0) + (if op'.kept then 1 else 0)) :
    Inv env ⟨sh, s.operations.set i op'⟩ := by
  refine ⟨fun o ho => ?_, ?_⟩
  · rcases List.mem_or_eq_of_mem_set ho with ho | rfl
    · exact hi.ops o ho
    · exact hinv
  · have := countP_set_of_getElem? Operation.kept hop op'
    have := hi.kept
    dsimp only
    omega

theorem opInv_finishOp (hinv : OpInv env op) (hpc : op.pc = .handling) (alive : Bool)
    (res : HandlerOperationRes) (m : Measurement) :
    OpInv env (finishOp env alive res m op) ∧ (finishOp env alive res m op).kept = op.kept := by
  simp only [OpInv, hpc] at hinv
  obtain ⟨htags, hev⟩ := hinv
  cases alive
  · exact ⟨⟨.inl htags, .inl hev⟩, rfl⟩
  · refine ⟨⟨⟨m, by simp [finishOp, htags]⟩, hev⟩, ?_⟩
    simp [finishOp, Operation.kept, htags, wafTags]

theorem opInv_callbackStep {sh sh' : Shared L} {op' : Operation Body} (hinv : OpInv env op)
    (h : callbackStep env sh op = some (sh', op')) :
    OpInv env op' ∧ (if sh'.rulesMonitored then 1 else 0) + (if op.kept then 1 else 0) =
      (if sh.rulesMonitored then 1 else 0) + (if op'.kept then 1 else 0) := by
  unfold callbackStep at h
  split at h
  · rename_i found hpc
    simp only [OpInv, hpc] at hinv
    obtain ⟨⟨m, htags⟩, hev⟩ := hinv
    have hk : op.kept = false := by simp [Operation.kept, htags, wafTags]
    split at h <;> cases h
    · exact ⟨⟨⟨m, .inl htags⟩, hev⟩, rfl⟩
    · rename_i hr
      refine ⟨⟨⟨m, .inr (by rw [htags])⟩, hev⟩, ?_⟩
      simp [Operation.kept, htags, hk, hr, rulesTags, wafTags]
  · rename_i found hpc
    simp only [OpInv, hpc] at hinv
    obtain ⟨⟨m, htags⟩, hev⟩ := hinv
    split at h <;> cases h
    · exact ⟨⟨.inr ⟨m, htags⟩, .inl hev⟩, rfl⟩
    · rename_i hf
      refine ⟨⟨.inr ⟨m, htags⟩, ?_⟩, rfl⟩
      split
      · exact .inr ⟨found, hf, by simp [hev]⟩
      · exact .inl hev
  · cases h

theorem inv_init (l : L) : Inv env (init l) := ⟨fun _ h => absurd h (List.not_mem_nil _), rfl⟩

theorem inv_step {a : Action Body} (hi : Inv env s) (h : step env s a = some s') : Inv env s' := by
  cases a with
  | start args =>
    cases h
    refine ⟨fun o ho => ?_, ?_⟩
    · rcases List.mem_append.mp ho with ho | ho
      · exact hi.ops o ho
      · rw [List.mem_singleton.mp ho]; exact ⟨rfl, rfl⟩
    · simp [List.countP_append, hi.kept, Operation.kept]
  | sdkBody i body =>
    simp only [step] at h
    split at h
    · rename_i op hop
      split at h <;> cases h
      exact hi.set hop { op with body } (hi.ops op (List.getElem?_mem hop)) _ rfl
    · cases h
  | finish i res m =>
    simp only [step] at h
    split at h
    · rename_i op hop
      split at h <;> cases h
      rename_i hpc
      obtain ⟨hinv, hk⟩ := opInv_finishOp (hi.ops op (List.getElem?_mem hop)) hpc s.shared.alive res m
      exact hi.set hop _ hinv _ (by rw [hk])
    · cases h
  | step i =>
    simp only [step] at h
    split at h
    · rename_i op hop
      obtain ⟨⟨sh', op'⟩, hcb, rfl⟩ := Option.map_eq_some'.mp h
      obtain ⟨hinv, hk⟩ := opInv_callbackStep (hi.ops op (List.getElem?_mem hop)) hcb
      exact hi.set hop _ hinv _ hk
    · cases h
  | release => cases h; exact ⟨hi.ops, hi.kept⟩

theorem inv_of_reachable (h : Reachable env s) : Inv env s :=
  Machine.reachable_induction inv_init (fun _ _ _ => inv_step) h

/-- Whatever point its callback is at, an operation's tags and events have one of these shapes. -/
theorem OpInv.shape (h : OpInv env op) :
    (op.tags = [] ∨ ∃ m, op.tags = wafTags env m ∨ op.tags = wafTags env m ++ rulesTags env) ∧
    (op.events = [] ∨ ∃ found, found ≠ [] ∧ op.events = [found]) := by
  unfold OpInv at h
  split at h
  · exact ⟨.inl h.1, .inl h.2⟩
  · obtain ⟨⟨m, ht⟩, he⟩ := h; exact ⟨.inr ⟨m, .inl ht⟩, .inl he⟩
  · obtain ⟨⟨m, ht⟩, he⟩ := h; exact ⟨.inr ⟨m, ht⟩, .inl he⟩
  · exact h

/-- Under every interleaving of one listener's operations and its release, the rules monitoring
and keep tags are on exactly one operation once `monitorRulesOnce` has run; every operation has
no tags, its run's WAF tags, or those and the rules tags, and at most one nonempty event. -/
theorem rules_tags_once_per_listener (h : Reachable env s) :
    s.operations.countP Operation.kept = (if s.shared.rulesMonitored then 1 else 0) ∧
    ∀ op ∈ s.operations,
      (op.tags = [] ∨ ∃ m, op.tags = wafTags env m ∨ op.tags = wafTags env m ++ rulesTags env) ∧
      (op.events = [] ∨ ∃ found, found ≠ [] ∧ op.events = [found]) :=
  let hi := inv_of_reachable h
  ⟨hi.kept, fun op hop => (hi.ops op hop).shape⟩

end

/-- Rules on the raw URI and the body; the WAF finds something in every body; one token. -/
def sampleEnv : Env Nat String where
  addresses := [serverRequestRawURIAddr, serverRequestBody]
  wafRun values _ := (if (values serverRequestBody).isSome then [1] else [], none)
  rInfo := ⟨"1.0.0", 2, 0, []⟩
  wafVersion := "1.3.0"
  marshal _ := some "null"
  allow n := (decide (0 < n), n - 1)

/-- Two operations, the first with a body; the second reaches `monitorRulesOnce` first. -/
def sampleRun : List (Action String) :=
  [.start ⟨"/a", none, none, none, none⟩, .start ⟨"/b", none, none, none, none⟩,
    .sdkBody 0 (some "x"), .finish 0 ⟨200⟩ ⟨10, 5, 0⟩, .finish 1 ⟨200⟩ ⟨10, 5, 0⟩,
    .step 1, .step 0, .step 0, .step 1]

def sampleState : State Nat String := (run sampleEnv (init 1) sampleRun).getD (init 1)

theorem rules_tags_once_per_listener_sample :
    sampleState.operations.countP Operation.kept =
        (if sampleState.shared.rulesMonitored then 1 else 0) ∧
    ∀ op ∈ sampleState.operations,
      (op.tags = [] ∨ ∃ m, op.tags = wafTags sampleEnv m ∨
        op.tags = wafTags sampleEnv m ++ rulesTags sampleEnv) ∧
      (op.events = [] ∨ ∃ found, found ≠ [] ∧ op.events = [found]) :=
  rules_tags_once_per_listener
    (Machine.Reachable.run sampleRun (.init 1) rfl)

/-- The second operation carries the rules monitoring tags, the first the security event. -/
example : sampleState.shared.rulesMonitored = true ∧
    sampleState.operations.map Operation.kept = [false, true] ∧
    sampleState.operations.map (·.events) = [[[1]], []] := by
  decide

end DDTrace.Appsec.HTTPListener
