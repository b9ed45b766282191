import DDTrace.Machine

/-!
# The gRPC WAF listener's cap on security events

For each gRPC handler operation, `newGRPCWAFEventListener` registers a callback that runs once a
message has been received. The callback loads `nbEvents` and returns once it equals
`maxWAFEventsPerRequest`; otherwise it runs the WAF on the message and, on a match, increments
`nbEvents` with `atomic.AddUint32` and appends the event to `events` under `mu`.

The callbacks of one operation are threads over the shared `nbEvents`, `events` and `logOnce`.
Each is cut at its atomic steps: the load and comparison, the WAF run, the increment, the append.
The comparison and the increment are different steps, so callbacks that all pass the comparison
before any of them increments append one event each, whatever their number
(`events_exceed_cap`). When each callback returns before the next message's callback starts, at
most `maxWAFEventsPerRequest` events are appended (`sequential_events_le_cap`).

The WAF itself is not under src/: what `waf.Context.Run` gives for a message is a parameter, and
`none` stands for `waf.NewContext` returning nil.
-/

namespace DDTrace.Appsec.GRPCListener

/-- How `waf.Context.Run` failed. -/
inductive RunError
  | timeout
  | other (msg : String)
  deriving DecidableEq, Repr

/-- `runWAF`: the matches, unless the run failed other than by timing out. -/
def runWAF : List UInt8 × Option RunError → List UInt8
  | (_, some (.other _)) => []
  | (found, _) => found

def maxWAFEventsPerRequest : UInt32 := 10

/-- Where an `OnReceiveOperationFinish` callback is. -/
inductive Pc
  | check
  | run
  | add (event : List UInt8)
  | append (event : List UInt8)
  | done
  deriving DecidableEq, Repr

/-- The variables the callbacks of one handler operation share; `logged` is `logOnce`. -/
structure Shared where
  nbEvents : UInt32
  events : List (List UInt8)
  logged : Bool
  deriving DecidableEq, Repr

/-- The shared variables and each started callback, with the message it was started for. -/
structure State (Msg : Type) where
  shared : Shared
  callbacks : List (Msg × Pc)

/-- A message is received and its callback starts, or callback `i` takes its next atomic step. -/
inductive Action (Msg : Type)
  | receive (msg : Msg)
  | step (i : Nat)

section

variable {Msg : Type} (wafRun : Msg → Option (List UInt8 × Option RunError))

/-- One atomic step of the callback for `msg`. -/
def callbackStep (msg : Msg) (s : Shared) : Pc → Option (Pc × Shared)
  | .check =>
    if s.nbEvents = maxWAFEventsPerRequest then some (.done, { s with logged := true })
    else some (.run, s)
  | .run =>
    match wafRun msg with
    | none => some (.done, s)
    | some r => if (runWAF r).length = 0 then some (.done, s) else some (.add (runWAF r), s)
  | .add event => some (.append event, { s with nbEvents := s.nbEvents + 1 })
  | .append event => some (.done, { s with events := s.events ++ [event] })
  | .done => none

def step (s : State Msg) : Action Msg → Option (State Msg)
  | .receive msg => some { s with callbacks := s.callbacks ++ [(msg, .check)] }
  | .step i =>
    match s.callbacks[i]? with
    | some (msg, pc) =>
      (callbackStep wafRun msg s.shared pc).map fun r => ⟨r.2, s.callbacks.set i (msg, r.1)⟩
    | none => none

def init : State Msg := ⟨⟨0, [], false⟩, []⟩

abbrev run : State Msg → List (Action Msg) → Option (State Msg) := Machine.run (step wafRun)

abbrev Reachable : State Msg → Prop := Machine.Reachable (step wafRun) fun _ : Unit => init

end

section

variable {Msg : Type} {wafRun : Msg → Option (List UInt8 × Option RunError)}

@[simp] theorem step_receive (s : State Msg) (msg : Msg) :
    step wafRun s (.receive msg) = some { s with callbacks := s.callbacks ++ [(msg, .check)] } :=
  rfl

/-- A step of callback `i` touches only that callback. -/
theorem step_at (sh : Shared) (pre post : List (Msg × Pc)) (msg : Msg) (pc : Pc) {i : Nat}
    (hi : pre.length = i) : step wafRun ⟨sh, pre ++ (msg, pc) :: post⟩ (.step i) =
      (callbackStep wafRun msg sh pc).map fun r => ⟨r.2, pre ++ (msg, r.1) :: post⟩ := by
  subst hi
  simp only [step, List.getElem?_append_right (le_refl _), Nat.sub_self, List.getElem?_cons_zero,
    List.set_append_right _ _ (le_refl _), List.set_cons_zero]

/-- Each message arrives, and its callback passes the check and runs the WAF, before any
callback increments `nbEvents`. -/
def arrive (msg : Msg) : Nat → List (Action Msg)
  | 0 => []
  | k + 1 => arrive msg k ++ [.receive msg, .step k, .step k]

/-- Then each callback increments `nbEvents` and appends its event, in turn. -/
def record : Nat → List (Action Msg)
  | 0 => []
  | k + 1 => record k ++ [.step k, .step k]

variable {msg : Msg} {event : List UInt8}

theorem run_arrive (hw : ∃ r, wafRun msg = some r ∧ runWAF r = event) (he : event ≠ [])
    (k : Nat) : run wafRun init (arrive msg k) =
      some ⟨⟨0, [], false⟩, List.replicate k (msg, .add event)⟩ := by
  obtain ⟨r, hr, rfl⟩ := hw
  induction k with
  | zero => rfl
  | succ k ih =>
    have hcheck : callbackStep wafRun msg ⟨0, [], false⟩ .check = some (.run, ⟨0, [], false⟩) := by
      rw [callbackStep, if_neg (by decide)]
    have hrun : callbackStep wafRun msg ⟨0, [], false⟩ .run =
        some (.add (runWAF r), ⟨0, [], false⟩) := by
      simp [callbackStep, hr, he]
    have hk := List.length_replicate k (msg, Pc.add (runWAF r))
    rw [arrive]
    refine Machine.run_append_of ih ?_
    simp only [Machine.run_cons, step_receive, Option.some_bind]
    rw [step_at _ _ [] _ _ hk, hcheck, Option.map_some', Option.some_bind, step_at _ _ [] _ _ hk,
      hrun, List.replicate_succ']
    rfl

theorem run_record (wafRun : Msg → Option (List UInt8 × Option RunError)) (msg : Msg)
    (event : List UInt8) (N k : Nat) (hk : k ≤ N) :
    ∃ n, run wafRun ⟨⟨0, [], false⟩, List.replicate N (msg, .add event)⟩ (record k) =
      some ⟨⟨n, List.replicate k event, false⟩,
        List.replicate k (msg, .done) ++ List.replicate (N - k) (msg, .add event)⟩ := by
  induction k with
  | zero => exact ⟨0, by simp [record, run]⟩
  | succ k ih =>
    obtain ⟨n, hn⟩ := ih (by omega)
    refine ⟨n + 1, ?_⟩
    have hsplit : List.replicate (N - k) (msg, Pc.add event) =
        (msg, .add event) :: List.replicate (N - (k + 1)) (msg, .add event) := by
      rw [← List.replicate_succ]; congr 1; omega
    have hk := List.length_replicate k (msg, Pc.done)
    rw [record]
    refine Machine.run_append_of hn ?_
    rw [hsplit]
    simp only [Machine.run_cons, Option.some_bind]
    rw [step_at _ _ _ _ _ hk]
    simp only [callbackStep, Option.map_some', Option.some_bind]
    rw [step_at _ _ _ _ _ hk]
    simp only [callbackStep, Option.map_some', Option.some_bind, Machine.run_nil,
      List.replicate_succ', List.append_assoc, List.singleton_append]

/-- However many messages arrive, if the WAF reports an event for the message, some
interleaving of the callbacks appends one event per message: the cap is not kept. -/
theorem events_exceed_cap (hw : ∃ r, wafRun msg = some r ∧ runWAF r = event) (he : event ≠ [])
    (N : Nat) : ∃ s, Reachable wafRun s ∧ s.shared.events = List.replicate N event := by
  obtain ⟨n, hn⟩ := run_record wafRun msg event N N le_rfl
  refine ⟨⟨⟨n, List.replicate N event, false⟩,
    List.replicate N (msg, .done) ++ List.replicate (N - N) (msg, .add event)⟩,
    Machine.Reachable.run (arrive msg N ++ record N) (.init ())
      (Machine.run_append_of (run_arrive hw he N) hn), rfl⟩

/-- A WAF that finds an attack in every message. -/
def attackRun : Unit → Option (List UInt8 × Option RunError) := fun _ => some ([1], none)

theorem events_exceed_cap_eleven :
    ((∃ r, attackRun () = some r ∧ runWAF r = [1]) ∧ [1] ≠ ([] : List UInt8)) ∧
      ∃ s, Reachable attackRun s ∧ s.shared.events = List.replicate 11 [1] :=
  ⟨⟨⟨_, rfl, rfl⟩, by decide⟩, @events_exceed_cap Unit attackRun () [1] ⟨_, rfl, rfl⟩ (by decide) 11⟩

end

section

variable {Msg : Type} (wafRun : Msg → Option (List UInt8 × Option RunError))

/-- A new message's callback starts only once the earlier ones have returned. -/
def Sequential (s : State Msg) : Action Msg → Prop
  | .receive _ => ∀ c ∈ s.callbacks, c.2 = .done
  | .step _ => True

inductive SeqReachable : State Msg → Prop
  | init : SeqReachable init
  | step {s s' : State Msg} (a : Action Msg) : SeqReachable s → Sequential s a →
      step wafRun s a = some s' → SeqReachable s'

end

/-- The program point of the latest callback; `done` when there is none. -/
def lastPc {Msg : Type} (callbacks : List (Msg × Pc)) : Pc :=
  (callbacks.getLast?.map Prod.snd).getD .done

/-- A callback between the check and the increment holds one of the places left under the cap. -/
def Pc.claims : Pc → Nat
  | .run | .add _ => 1
  | _ => 0

/-- A callback between the increment and the append has counted an event not yet in `events`. -/
def Pc.owes : Pc → Nat
  | .append _ => 1
  | _ => 0

/-- Only the latest callback may be running; `nbEvents` counts the events appended and the one
being appended, and with the place the running callback holds it stays within the cap. -/
structure SeqInv {Msg : Type} (s : State Msg) : Prop where
  settled : ∀ c ∈ s.callbacks.dropLast, c.2 = .done
  count : s.shared.nbEvents.toNat = s.shared.events.length + (lastPc s.callbacks).owes
  cap : s.shared.nbEvents.toNat + (lastPc s.callbacks).claims ≤ maxWAFEventsPerRequest.toNat

section

variable {Msg : Type} {wafRun : Msg → Option (List UInt8 × Option RunError)}
  {s s' : State Msg}

/-- `atomic.AddUint32(&nbEvents, 1)` wraps around at `2 ^ 32`. -/
theorem toNat_add_one (n : UInt32) : (n + 1).toNat = (n.toNat + 1) % UInt32.size := by
  simp [UInt32.toNat, UInt32.add_def, BitVec.toNat_add, UInt32.size]

@[simp] theorem toNat_maxWAFEventsPerRequest : maxWAFEventsPerRequest.toNat = 10 := rfl

@[simp] theorem lastPc_concat (pre : List (Msg × Pc)) (c : Msg × Pc) :
    lastPc (pre ++ [c]) = c.2 := by
  simp [lastPc]

theorem lastPc_of_done {callbacks : List (Msg × Pc)} (h : ∀ c ∈ callbacks, c.2 = .done) :
    lastPc callbacks = .done := by
  cases hl : callbacks.getLast? with
  | none => simp [lastPc, hl]
  | some c => simp [lastPc, hl, h c (List.mem_of_getLast?_eq_some hl)]

/-- With all callbacks but the latest returned, only the latest can step. -/
theorem step_of_settled {i : Nat} (hs : ∀ c ∈ s.callbacks.dropLast, c.2 = .done)
    (h : step wafRun s (.step i) = some s') :
    ∃ pre msg pc r, s.callbacks = pre ++ [(msg, pc)] ∧ (∀ c ∈ pre, c.2 = .done) ∧
      callbackStep wafRun msg s.shared pc = some r ∧ s' = ⟨r.2, pre ++ [(msg, r.1)]⟩ := by
  obtain ⟨sh, cbs⟩ := s
  simp only [step] at h
  split at h
  · rename_i msg pc hi
    obtain ⟨r, hr, rfl⟩ := Option.map_eq_some'.1 h
    have hpc : pc ≠ .done := by rintro rfl; cases hr
    rcases List.eq_nil_or_concat cbs with rfl | ⟨pre, last, rfl⟩
    · cases hi
    rw [List.concat_eq_append] at hi hs ⊢
    rw [List.dropLast_concat] at hs
    rcases Nat.lt_or_ge i pre.length with hlt | hge
    · rw [List.getElem?_append_left hlt] at hi
      exact absurd (hs _ (List.mem_iff_getElem?.2 ⟨_, hi⟩)) hpc
    · rw [List.getElem?_append_right hge] at hi
      have hi0 : i - pre.length = 0 := by
        by_contra h0
        simp [List.getElem?_eq_none (show [last].length ≤ i - pre.length by simp; omega)] at hi
      rw [hi0] at hi
      cases hi
      refine ⟨pre, msg, pc, r, rfl, hs, hr, ?_⟩
      rw [List.set_append_right _ _ hge, hi0]
      rfl
  · cases h

theorem seqInv_init : SeqInv (init : State Msg) :=
  ⟨by simp [init], by simp [init, lastPc, Pc.owes], by simp [init, lastPc, Pc.claims]⟩

/-- One step of the latest callback keeps the count and the cap. -/
theorem SeqInv.stepLatest {sh : Shared} {pre : List (Msg × Pc)} {msg : Msg} {pc : Pc}
    {r : Pc × Shared} (hi : SeqInv (⟨sh, pre ++ [(msg, pc)]⟩ : State Msg))
    (hr : callbackStep wafRun msg sh pc = some r) :
    SeqInv (⟨r.2, pre ++ [(msg, r.1)]⟩ : State Msg) := by
  obtain ⟨hset, hcount, hcap⟩ := hi
  simp only [lastPc_concat, toNat_maxWAFEventsPerRequest] at hcount hcap
  have key : r.2.nbEvents.toNat = r.2.events.length + r.1.owes ∧
      r.2.nbEvents.toNat + r.1.claims ≤ 10 := by
    cases pc with
    | check =>
      simp only [callbackStep] at hr
      split at hr <;> cases hr
      · exact ⟨hcount, hcap⟩
      · rename_i h10
        have : sh.nbEvents.toNat ≠ 10 := fun h => h10 (UInt32.toNat.inj h)
        simp only [Pc.owes, Pc.claims] at hcount hcap ⊢
        omega
    | run =>
      simp only [callbackStep] at hr
      split at hr
      · cases hr; exact ⟨hcount, by simp only [Pc.claims] at hcap ⊢; omega⟩
      · split at hr <;> cases hr
        · exact ⟨hcount, by simp only [Pc.claims] at hcap ⊢; omega⟩
        · exact ⟨hcount, hcap⟩
    | add event =>
      cases hr
      simp only [Pc.owes, Pc.claims, toNat_add_one, UInt32.size] at hcount hcap ⊢
      omega
    | append event =>
      cases hr
      simp only [Pc.owes, Pc.claims, List.length_append, List.length_singleton] at hcount hcap ⊢
      omega
    | done => cases hr
  exact ⟨by simpa using hset, by simpa using key.1, by simpa using key.2⟩

theorem seqInv_step {a : Action Msg} (hi : SeqInv s) (ha : Sequential s a)
    (h : step wafRun s a = some s') : SeqInv s' := by
  cases a with
  | receive msg =>
    cases h
    simp only [Sequential] at ha
    have hdone := lastPc_of_done ha
    refine ⟨by simpa using ha, ?_, ?_⟩
    · have := hi.count; simp only [hdone, Pc.owes] at this; simpa [Pc.owes] using this
    · have := hi.cap; simp only [hdone, Pc.claims] at this; simpa [Pc.claims] using this
  | step i =>
    obtain ⟨pre, msg, pc, r, hcbs, hpre, hr, rfl⟩ := step_of_settled hi.settled h
    obtain ⟨sh, cbs⟩ := s
    cases hcbs
    exact hi.stepLatest hr

theorem seqInv_of_seqReachable (h : SeqReachable wafRun s) : SeqInv s := by
  induction h with
  | init => exact seqInv_init
  | step a _ ha hs ih => exact seqInv_step ih ha hs

/-- When each callback returns before the next message's callback starts, at most
`maxWAFEventsPerRequest` events are appended, and `nbEvents` never passes the cap. -/
theorem sequential_events_le_cap (h : SeqReachable wafRun s) :
    s.shared.events.length ≤ s.shared.nbEvents.toNat ∧
      s.shared.nbEvents.toNat ≤ maxWAFEventsPerRequest.toNat := by
  obtain ⟨-, hcount, hcap⟩ := seqInv_of_seqReachable h
  omega

/-- One message whose callback appended its event. -/
def oneEvent : State Unit := ⟨⟨1, [[1]], false⟩, [((), .done)]⟩

theorem sequential_events_le_cap_oneEvent :
    SeqReachable attackRun oneEvent ∧ oneEvent.shared.events.length ≤ oneEvent.shared.nbEvents.toNat ∧
      oneEvent.shared.nbEvents.toNat ≤ maxWAFEventsPerRequest.toNat :=
  have h : SeqReachable attackRun oneEvent :=
    .step (.step 0) (.step (.step 0) (.step (.step 0) (.step (.step 0)
      (.step (.receive ()) .init (fun _ hc => by cases hc) rfl) trivial rfl) trivial rfl)
      trivial rfl) trivial rfl
  ⟨h, sequential_events_le_cap h⟩

end

end DDTrace.Appsec.GRPCListener
