import DDTrace.Appsec.GRPCHandler
import Mathlib.Data.List.Perm.Subperm

/-!
# What the gRPC callbacks keep under every interleaving

`events_exceed_cap` shows that the receive callbacks of one gRPC handler operation can record
more than `maxWAFEventsPerRequest` events. The cause is only the gap between the check and the
increment: the two shared variables stay consistent under every interleaving. `nbEvents` counts,
modulo `2^32`, exactly the events appended plus the callbacks between their increment and their
append; an update is never lost. Every recorded event is the nonempty match the WAF gives on the
message of a callback that has returned, one per callback, so nothing is invented or recorded
twice (`callbacks_record_own_matches`).

The handler operation inherits this. The callbacks only ever append to `events`, and
`OnHandlerOperationFinish` reports all of `events` or nothing, so what the operation was given
stays a prefix of what the callbacks record. That holds even when callbacks run after the
operation finished. Every security event the operation reports is the WAF's match on the message
of a distinct returned callback (`handler_reports_returned_matches`).
-/

namespace DDTrace.Appsec.GRPCListener

/-- Replacing element `i` of a list replaces its image under `filterMap`. -/
theorem filterMap_set_perm {α β : Type} [DecidableEq β] (f : α → Option β) {l : List α} {i : Nat}
    {y : α}
    (h : l[i]? = some y) (x : α) :
    ((l.set i x).filterMap f ++ (f y).toList).Perm (l.filterMap f ++ (f x).toList) := by
  induction l generalizing i with
  | nil => cases h
  | cons z l ih =>
    cases i with
    | zero =>
      simp only [List.getElem?_cons_zero, Option.some.injEq] at h
      subst h
      refine List.perm_iff_count.2 fun b => ?_
      cases hx : f x <;> cases hz : f z <;> simp [hx, hz, List.filterMap_cons, List.count_cons]
      omega
    | succ i =>
      simp only [List.getElem?_cons_succ] at h
      cases hz : f z <;> simpa [List.filterMap_cons, hz] using ih h

section

variable {Msg : Type} (wafRun : Msg → Option (List UInt8 × Option RunError))

/-- The nonempty matches the WAF run of a callback finds in its message, if any. -/
def wafEvent (msg : Msg) : Option (List UInt8) :=
  (wafRun msg).bind fun r => if (runWAF r).length = 0 then none else some (runWAF r)

/-- The events the WAF finds in the messages of the callbacks that have returned. -/
def returnedEvents (callbacks : List (Msg × Pc)) : List (List UInt8) :=
  callbacks.filterMap fun c => if c.2 = .done then wafEvent wafRun c.1 else none

end

/-- The event a callback holds between its WAF run and its append. -/
def Pc.found : Pc → Option (List UInt8)
  | .add e | .append e => some e
  | _ => none

/-- A callback between its increment of `nbEvents` and its append. -/
def Pc.appending : Pc → Bool
  | .append _ => true
  | _ => false

/-- Each held event is the WAF's match on the callback's message; the recorded events are among
those of the returned callbacks; `nbEvents` counts the recorded events and those about to be. -/
structure EventsInv {Msg : Type} (wafRun : Msg → Option (List UInt8 × Option RunError))
    (s : State Msg) : Prop where
  found : ∀ c ∈ s.callbacks, ∀ e, c.2.found = some e → wafEvent wafRun c.1 = some e
  events : s.shared.events.Subperm (returnedEvents wafRun s.callbacks)
  count : s.shared.nbEvents.toNat =
    (s.shared.events.length + s.callbacks.countP fun c => c.2.appending) % UInt32.size

section

variable {Msg : Type} {wafRun : Msg → Option (List UInt8 × Option RunError)}

/-- One atomic step of a callback moves between its check and its WAF run holding nothing to
append, increments `nbEvents` for the WAF's match it holds, or appends that match and returns. -/
theorem callbackStep_cases {msg : Msg} {sh : Shared} {pc pc' : Pc} {sh' : Shared}
    (h : callbackStep wafRun msg sh pc = some (pc', sh')) :
    ((∀ e, pc.found = some e → wafEvent wafRun msg = some e) →
      ∀ e, pc'.found = some e → wafEvent wafRun msg = some e) ∧
    ((sh'.nbEvents = sh.nbEvents ∧ sh'.events = sh.events ∧ pc.appending = false ∧
        pc'.appending = false) ∨
      (∃ e, pc = .add e ∧ pc' = .append e ∧ sh'.nbEvents = sh.nbEvents + 1 ∧
        sh'.events = sh.events) ∨
      (∃ e, pc = .append e ∧ pc' = .done ∧ sh'.nbEvents = sh.nbEvents ∧
        sh'.events = sh.events ++ [e])) := by
  cases pc with
  | check =>
    simp only [callbackStep] at h
    split at h <;> cases h <;> simp [Pc.found, Pc.appending]
  | run =>
    simp only [callbackStep] at h
    split at h
    · cases h; simp [Pc.found, Pc.appending]
    · rename_i r hr
      split at h <;> cases h
      · simp [Pc.found, Pc.appending]
      · rename_i hne
        have hne' : runWAF r ≠ [] := fun h => hne (by rw [h]; rfl)
        refine ⟨fun _ e he => ?_, .inl ⟨rfl, rfl, rfl, rfl⟩⟩
        simp only [Pc.found, Option.some.injEq] at he
        subst he
        simp [wafEvent, hr, hne']
  | add e => cases h; exact ⟨id, .inr (.inl ⟨e, rfl, rfl, rfl, rfl⟩)⟩
  | append e =>
    cases h
    exact ⟨by simp [Pc.found], .inr (.inr ⟨e, rfl, rfl, rfl, rfl⟩)⟩
  | done => cases h

theorem eventsInv_step {s s' : State Msg} {a : Action Msg} (hi : EventsInv wafRun s)
    (h : step wafRun s a = some s') : EventsInv wafRun s' := by
  cases a with
  | receive msg =>
    cases h
    refine ⟨fun c hc e he => ?_, ?_, ?_⟩
    · rcases List.mem_append.1 hc with hc | hc
      · exact hi.found c hc e he
      · rw [List.mem_singleton.1 hc] at he; cases he
    · simpa [returnedEvents] using hi.events
    · simpa [Pc.appending] using hi.count
  | step i =>
    simp only [step] at h
    split at h
    · rename_i msg pc hc
      obtain ⟨⟨pc', sh'⟩, hr, rfl⟩ := Option.map_eq_some'.1 h
      have hmem := List.mem_iff_getElem?.2 ⟨_, hc⟩
      obtain ⟨hfound, hcases⟩ := callbackStep_cases hr
      have hlt : i < s.callbacks.length := (List.getElem?_eq_some_iff.1 hc).1
      have hperm := filterMap_set_perm
        (fun c : Msg × Pc => if c.2 = .done then wafEvent wafRun c.1 else none) hc (msg, pc')
      have hcp := List.countP_set (fun c : Msg × Pc => c.2.appending) s.callbacks i (msg, pc') hlt
      have hle := List.boole_getElem_le_countP (fun c : Msg × Pc => c.2.appending) s.callbacks i hlt
      rw [(List.getElem?_eq_some_iff.1 hc).2] at hcp hle
      have hc0 := hi.count
      refine ⟨fun c hc' e he => ?_, ?_, ?_⟩
      · rcases List.mem_or_eq_of_mem_set hc' with hc' | rfl
        · exact hi.found c hc' e he
        · exact hfound (hi.found _ hmem) e he
      · -- the returned callbacks only grow, by this one if it returns
        have hpc : pc ≠ .done := by rintro rfl; cases hr
        have hgrow : (returnedEvents wafRun s.callbacks ++
            (if pc' = .done then wafEvent wafRun msg else none).toList).Subperm
            (returnedEvents wafRun (s.callbacks.set i (msg, pc'))) := by
          simpa [hpc] using hperm.symm.subperm
        rcases hcases with ⟨-, hev, -⟩ | ⟨e, rfl, rfl, -, hev⟩ | ⟨e, rfl, rfl, -, hev⟩
        · exact hev ▸ hi.events.trans ((List.sublist_append_left _ _).subperm.trans hgrow)
        · exact hev ▸ hi.events.trans ((List.sublist_append_left _ _).subperm.trans hgrow)
        · -- the callback records the event it held, and has returned
          have he : wafEvent wafRun msg = some e := hi.found _ hmem e rfl
          rw [hev]
          exact ((List.subperm_append_right _).2 hi.events).trans (by simpa [he] using hgrow)
      · rcases hcases with ⟨hnb, hev, hpc, hpc'⟩ | ⟨e, rfl, rfl, hnb, hev⟩ |
          ⟨e, rfl, rfl, hnb, hev⟩
        · simp only [hnb, hev, hcp, hpc, hpc', hc0]
          simp
        · have h1 : (Pc.add e).appending = false := rfl
          have h2 : (Pc.append e).appending = true := rfl
          simp only [hnb, hev, hcp, toNat_add_one, hc0, h1, h2, eq_self_iff_true,
            Bool.false_eq_true, if_false, if_true, Nat.sub_zero, Nat.mod_add_mod, Nat.add_assoc]
        · have h1 : (Pc.append e).appending = true := rfl
          have h2 : Pc.done.appending = false := rfl
          simp only [h1, eq_self_iff_true, if_true] at hle
          simp only [hnb, hev, hcp, hc0, h1, h2, eq_self_iff_true, Bool.false_eq_true, if_false,
            if_true, List.length_append, List.length_singleton, Nat.add_zero]
          congr 1
          omega
    · cases h

/-- At most one event per returned callback. -/
theorem length_returnedEvents_le (callbacks : List (Msg × Pc)) :
    (returnedEvents wafRun callbacks).length ≤ callbacks.countP fun c => c.2 = .done := by
  induction callbacks with
  | nil => simp [returnedEvents]
  | cons c cs ih =>
    simp only [returnedEvents] at ih ⊢
    by_cases hc : c.2 = .done
    · cases he : wafEvent wafRun c.1 <;> simp [List.filterMap_cons, List.countP_cons, hc, he] <;>
        omega
    · simp [List.filterMap_cons, List.countP_cons, hc]
      omega

theorem eventsInv_of_reachable {s : State Msg} (h : Reachable wafRun s) : EventsInv wafRun s :=
  Machine.reachable_induction (fun _ => ⟨by simp [init], by simp [init], by simp [init]⟩)
    (fun _ _ _ => eventsInv_step) h

end

/-- Under every interleaving of one operation's receive callbacks, the recorded events are, one
each, the nonempty WAF matches of returned callbacks; `nbEvents` counts, modulo `2^32`, those and
the events of callbacks between their increment and their append. -/
theorem callbacks_record_own_matches {Msg : Type}
    (wafRun : Msg → Option (List UInt8 × Option RunError)) (s : State Msg)
    (h : Reachable wafRun s) :
    s.shared.events.Subperm (returnedEvents wafRun s.callbacks) ∧
    s.shared.events.length ≤ s.callbacks.countP (fun c => c.2 = .done) ∧
    s.shared.nbEvents.toNat =
      (s.shared.events.length + s.callbacks.countP fun c => c.2.appending) % UInt32.size := by
  have hi := eventsInv_of_reachable h
  exact ⟨hi.events, hi.events.length_le.trans (length_returnedEvents_le _), hi.count⟩

/-- Two messages with an attack: the first callback has appended its event, the second has
incremented `nbEvents` and not yet appended. -/
def midAppend : State Unit := ⟨⟨2, [[1]], false⟩, [((), .done), ((), .append [1])]⟩

theorem callbacks_record_own_matches_midAppend :
    Reachable attackRun midAppend ∧
    (midAppend.shared.events.Subperm (returnedEvents attackRun midAppend.callbacks) ∧
      midAppend.shared.events.length ≤ midAppend.callbacks.countP (fun c => c.2 = .done) ∧
      midAppend.shared.nbEvents.toNat = (midAppend.shared.events.length +
        midAppend.callbacks.countP fun c => c.2.appending) % UInt32.size) :=
  have h : Reachable attackRun midAppend :=
    Machine.Reachable.run [.receive (), .receive (), .step 0, .step 0, .step 0, .step 1, .step 1,
      .step 1, .step 0] (.init ()) rfl
  ⟨h, callbacks_record_own_matches attackRun midAppend h⟩

section

variable {Msg : Type} {wafRun : Msg → Option (List UInt8 × Option RunError)}

/-- The callbacks only append to `events`. -/
theorem events_prefix_step {s s' : State Msg} {a : Action Msg} (h : step wafRun s a = some s') :
    s.shared.events <+: s'.shared.events := by
  cases a with
  | receive msg => cases h; exact List.prefix_refl _
  | step i =>
    simp only [step] at h
    split at h
    · obtain ⟨⟨pc', sh'⟩, hr, rfl⟩ := Option.map_eq_some'.1 h
      rcases (callbackStep_cases hr).2 with ⟨-, hev, -⟩ | ⟨_, -, -, -, hev⟩ | ⟨e, -, -, -, hev⟩
      · exact hev ▸ List.prefix_refl _
      · exact hev ▸ List.prefix_refl _
      · exact hev ▸ List.prefix_append _ _
    · cases h

end

end DDTrace.Appsec.GRPCListener

namespace DDTrace.Appsec.GRPCHandler

open GRPCListener (returnedEvents eventsInv_of_reachable length_returnedEvents_le
  events_prefix_step)

section

variable {Msg L : Type} {env : Env Msg L}

/-- What the operation was given stays a prefix of what the callbacks record. -/
theorem finished_prefix_step {s s' : State Msg L} {a : Action Msg}
    (hp : ∀ f, s.finished = some f → f.events <+: s.callbacks.shared.events)
    (h : step env s a = some s') :
    ∀ f, s'.finished = some f → f.events <+: s'.callbacks.shared.events := by
  cases a with
  | callback a =>
    obtain ⟨c, hc, rfl⟩ := step_callback h
    intro f hf
    exact (hp f (by simpa using hf)).trans (events_prefix_step hc)
  | finish =>
    obtain ⟨-, rfl⟩ := step_finish h
    intro f hf
    have he : (onHandlerOperationFinish env s).finished.map Finished.events = _ :=
      events_onHandlerOperationFinish
    rw [hf, Option.map_some', Option.some.injEq] at he
    rw [he, callbacks_onHandlerOperationFinish]
    split
    · exact List.prefix_refl _
    · exact List.nil_prefix

theorem finished_prefix_of_reachable {s : State Msg L} (h : Reachable env s) :
    ∀ f, s.finished = some f → f.events <+: s.callbacks.shared.events :=
  Machine.reachable_induction (fun _ _ hf => by cases hf) (fun _ _ _ => finished_prefix_step) h

end

/-- Under every interleaving of a gRPC operation's receive callbacks and its finish, the events
the operation was given are a prefix of what the callbacks record: each the nonempty WAF match of
a distinct returned callback. -/
theorem handler_reports_returned_matches {Msg L : Type} (env : Env Msg L) (s : State Msg L)
    (h : Reachable env s) (f : Finished) (hf : s.finished = some f) :
    f.events <+: s.callbacks.shared.events ∧
    f.events.Subperm (returnedEvents env.wafRun s.callbacks.callbacks) ∧
    f.events.length ≤ s.callbacks.callbacks.countP (fun c => c.2 = .done) := by
  have hp := finished_prefix_of_reachable h f hf
  have hsub := hp.sublist.subperm.trans (eventsInv_of_reachable (reachable_callbacks h)).events
  exact ⟨hp, hsub, hsub.length_le.trans (length_returnedEvents_le _)⟩

/-- A message whose callback returned before the operation finished, and one received after the
finish, whose callback returns too. -/
def lateRun : List (Action Unit) :=
  ([.receive (), .step 0, .step 0, .step 0, .step 0].map .callback) ++ [.finish] ++
    ([.receive (), .step 1, .step 1, .step 1, .step 1].map .callback)

def lateState : State Unit Nat := (run sampleEnv (init 1 false) lateRun).getD (init 1 false)

theorem handler_reports_returned_matches_late :
    Reachable sampleEnv lateState ∧ ∃ f, lateState.finished = some f ∧
      (f.events <+: lateState.callbacks.shared.events ∧
        f.events.Subperm (returnedEvents sampleEnv.wafRun lateState.callbacks.callbacks) ∧
        f.events.length ≤ lateState.callbacks.callbacks.countP (fun c => c.2 = .done)) :=
  have h : Reachable sampleEnv lateState :=
    Machine.Reachable.run lateRun (.init (1, false)) rfl
  ⟨h, _, rfl, handler_reports_returned_matches sampleEnv lateState h _ rfl⟩

/-- There the operation was given the first event only, and the callbacks recorded both. -/
example : lateState.finished.map (·.events) = some [[1]] ∧
    lateState.callbacks.shared.events = [[1], [1]] := by
  decide

end DDTrace.Appsec.GRPCHandler
