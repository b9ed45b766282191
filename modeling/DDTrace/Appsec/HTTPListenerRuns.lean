import DDTrace.Appsec.HTTPListener

/-!
# The HTTP WAF listener over whole runs

Three facts about the operations of one listener under every interleaving of their callbacks.

The limiter is shared by the operations, and a finish callback calls `limiter.Allow()` only past
`monitorRulesOnce`, when the WAF found something, and then once. So the limiter has answered some
number of calls, in order, from the state the listener was given, at most one for each finished
operation, and the operations carrying a security event are exactly as many as its yes answers
(`limiter_gates_security_events`).

Once the WAF handle is released, `waf.NewContext` gives nil, and a finish callback that starts
then returns at once. An operation that had not finished at the release, or that started after it,
never gets a tag or a security event; and when no callback was between `waf.NewContext` and its
end at the release, the listener's shared state never changes again: no `monitorRulesOnce`, no
`Allow` (`released_listener_adds_nothing`).

The `body` variable and the WAF context are local to each handler operation's callbacks. So the
security event an operation carries is the WAF's match on its own arguments, the body its last SDK
body operation reported and a response. It comes from the run whose monitoring tags the operation
carries, whatever the other operations do (`events_from_own_waf_run`).
-/

namespace DDTrace.Appsec.HTTPListener

open GRPCListener (runWAF)

variable {L Body : Type}

/-- The limiter's answers to `n` calls of `Allow`, in order, from state `l`, and its state after
them. -/
def allowN (allow : L → Bool × L) (l : L) : Nat → List Bool × L
  | 0 => ([], l)
  | n + 1 =>
    let r := allowN allow l n
    (r.1 ++ [(allow r.2).1], (allow r.2).2)

/-- The operation carries a security event. -/
def Operation.reported (op : Operation Body) : Bool := !op.events.isEmpty

/-- The operation's finish callback has returned. -/
def Operation.finished (op : Operation Body) : Bool := decide (op.pc = .done)

section

variable (env : Env L Body)

/-- The limiter has answered `n` calls from `l`, at most one for each finished operation, and the
operations it said yes to are those with a security event. -/
def LimiterInv (l : L) (s : State L Body) : Prop :=
  ∃ n, (allowN env.allow l n).2 = s.shared.limiter ∧
    (allowN env.allow l n).1.count true = s.operations.countP Operation.reported ∧
    n ≤ s.operations.countP Operation.finished

end

section

variable {env : Env L Body} {s s' : State L Body} {op : Operation Body}

theorem allowN_succ (allow : L → Bool × L) (l : L) (n : Nat) :
    allowN allow l (n + 1) = ((allowN allow l n).1 ++ [(allow (allowN allow l n).2).1],
      (allow (allowN allow l n).2).2) := rfl

/-- A finish callback past the WAF run has not returned; its step leaves the limiter and the
operation's event alone, or makes the one `Allow` call, whose answer is whether the operation
gets its event, and returns. -/
theorem callbackStep_limiter {sh sh' : Shared L} {op' : Operation Body} (hinv : OpInv env op)
    (h : callbackStep env sh op = some (sh', op')) :
    op.finished = false ∧
    ((sh'.limiter = sh.limiter ∧ op'.reported = op.reported) ∨
      (sh'.limiter = (env.allow sh.limiter).2 ∧ op'.reported = (env.allow sh.limiter).1 ∧
        op.reported = false ∧ op'.finished = true)) := by
  unfold callbackStep at h
  split at h
  · rename_i found hpc
    refine ⟨by simp [Operation.finished, hpc], .inl ?_⟩
    split at h <;> cases h <;> exact ⟨rfl, rfl⟩
  · rename_i found hpc
    simp only [OpInv, hpc] at hinv
    refine ⟨by simp [Operation.finished, hpc], ?_⟩
    split at h <;> cases h
    · exact .inl ⟨rfl, rfl⟩
    · refine .inr ⟨rfl, ?_, by simp [Operation.reported, hinv.2], rfl⟩
      split <;> simp_all [Operation.reported]
  · cases h

theorem countP_set_eq {α : Type} {p : α → Bool} {l : List α} {i : Nat} {x y : α}
    (h : l[i]? = some y) (hxy : p x = p y) : (l.set i x).countP p = l.countP p := by
  have := countP_set_of_getElem? p h x
  rw [hxy] at this
  omega

theorem countP_set_le {α : Type} {p : α → Bool} {l : List α} {i : Nat} {x y : α}
    (h : l[i]? = some y) (hy : p y = false) : l.countP p ≤ (l.set i x).countP p := by
  have := countP_set_of_getElem? p h x
  rw [hy, if_neg Bool.false_ne_true, Nat.add_zero] at this
  rw [this]
  exact Nat.le_add_right _ _

theorem countP_set_add {α : Type} {p : α → Bool} {l : List α} {i : Nat} {x y : α}
    (h : l[i]? = some y) (hy : p y = false) (b : Bool) (hx : p x = b) :
    (l.set i x).countP p = l.countP p + if b then 1 else 0 := by
  have := countP_set_of_getElem? p h x
  rw [hy, hx] at this
  simpa using this

theorem limiterInv_step {l : L} {a : Action Body} (hi : Inv env s) (hl : LimiterInv env l s)
    (h : step env s a = some s') : LimiterInv env l s' := by
  obtain ⟨n, hn, hc, hf⟩ := hl
  cases a with
  | start args =>
    cases h
    exact ⟨n, hn, by simpa [List.countP_append, Operation.reported] using hc,
      by simpa [List.countP_append, Operation.finished] using hf⟩
  | sdkBody i body =>
    simp only [step] at h
    split at h
    · rename_i op hop
      split at h <;> cases h
      have h1 : (s.operations.set i { op with body }).countP Operation.reported =
          s.operations.countP Operation.reported := countP_set_eq hop rfl
      have h2 : (s.operations.set i { op with body }).countP Operation.finished =
          s.operations.countP Operation.finished := countP_set_eq hop rfl
      exact ⟨n, hn, hc.trans h1.symm, h2.symm ▸ hf⟩
    · cases h
  | finish i res m =>
    simp only [step] at h
    split at h
    · rename_i op hop
      split at h <;> cases h
      rename_i hpc
      have hrep : (finishOp env s.shared.alive res m op).reported = op.reported := by
        unfold finishOp; split <;> rfl
      exact ⟨n, hn, hc.trans (countP_set_eq hop hrep).symm,
        hf.trans (countP_set_le hop (by simp [Operation.finished, hpc]))⟩
    · cases h
  | step i =>
    simp only [step] at h
    split at h
    · rename_i op hop
      obtain ⟨⟨sh', op'⟩, hcb, rfl⟩ := Option.map_eq_some'.mp h
      obtain ⟨hfin, hlim⟩ := callbackStep_limiter (hi.ops op (List.getElem?_mem hop)) hcb
      rcases hlim with ⟨hsl, hrep⟩ | ⟨hsl, hrep, hr0, hf1⟩
      · exact ⟨n, hn.trans hsl.symm, hc.trans (countP_set_eq hop hrep).symm,
          hf.trans (countP_set_le hop hfin)⟩
      · refine ⟨n + 1, by rw [allowN_succ, hn, hsl], ?_, ?_⟩
        · rw [allowN_succ, List.count_append, hc, hn, countP_set_add hop hr0 _ hrep]
          cases (env.allow s.shared.limiter).1 <;> rfl
        · rw [countP_set_add hop hfin _ hf1]
          exact Nat.succ_le_succ hf
    · cases h
  | release => cases h; exact ⟨n, hn, hc, hf⟩

theorem limiterInv_run {l : L} {as : List (Action Body)} (hr : Reachable env s)
    (hl : LimiterInv env l s) (h : run env s as = some s') : LimiterInv env l s' :=
  (Machine.run_closed (P := fun t => Reachable env t ∧ LimiterInv env l t)
    (fun _ a _ ht h₁ => ⟨.step a ht.1 h₁, limiterInv_step (inv_of_reachable ht.1) ht.2 h₁⟩)
    ⟨hr, hl⟩ h).2

end

/-- Under every interleaving, a limiter started in state `l` has answered `n` calls of `Allow`,
at most the finished operations, and is in the state they leave; the operations with a security
event are as many as its yes answers. -/
theorem limiter_gates_security_events (env : Env L Body) (l : L) (as : List (Action Body))
    (s : State L Body) (h : run env (init l) as = some s) :
    ∃ n, (allowN env.allow l n).2 = s.shared.limiter ∧
      (allowN env.allow l n).1.count true = s.operations.countP Operation.reported ∧
      n ≤ s.operations.countP Operation.finished :=
  limiterInv_run (.init l) ⟨0, rfl, rfl, Nat.zero_le _⟩ h

theorem limiter_gates_security_events_sample :
    run sampleEnv (init 1) sampleRun = some sampleState ∧
      ∃ n, (allowN sampleEnv.allow 1 n).2 = sampleState.shared.limiter ∧
        (allowN sampleEnv.allow 1 n).1.count true = sampleState.operations.countP Operation.reported ∧
        n ≤ sampleState.operations.countP Operation.finished :=
  ⟨rfl, limiter_gates_security_events sampleEnv 1 sampleRun sampleState rfl⟩

/-- Operation `i` had not finished at `s₀`: it started later, or its finish callback had not run. -/
def Unfinished (s₀ : State L Body) (i : Nat) : Prop :=
  s₀.operations.length ≤ i ∨ ∃ op, s₀.operations[i]? = some op ∧ op.pc = .handling

/-- The listener has given the operation nothing: no tag, no event, and its finish callback has not
run or has returned at `waf.NewContext`. -/
def Operation.untouched (op : Operation Body) : Prop :=
  op.tags = [] ∧ op.events = [] ∧ (op.pc = .handling ∨ op.pc = .done)

/-- The handle is released, and every operation unfinished at `s₀` is untouched. -/
structure ReleasedInv (s₀ s : State L Body) : Prop where
  dead : s.shared.alive = false
  untouched : ∀ i op, s.operations[i]? = some op → Unfinished s₀ i → op.untouched

/-- The handle is released, the shared state is that of `s₀`, and no finish callback is between
`waf.NewContext` and its end. -/
structure QuietInv (s₀ s : State L Body) : Prop where
  shared : s.shared = s₀.shared
  idle : ∀ op ∈ s.operations, op.pc = .handling ∨ op.pc = .done

section

variable {env : Env L Body} {s₀ s s' : State L Body} {op : Operation Body}

/-- A callback step needs a finish callback past `waf.NewContext`. -/
theorem callbackStep_of_idle {sh : Shared L} (hpc : op.pc = .handling ∨ op.pc = .done) :
    callbackStep env sh op = none := by
  rcases hpc with hpc | hpc <;> simp [callbackStep, hpc]

theorem finishOp_dead (res : HandlerOperationRes) (m : Measurement) :
    finishOp env false res m op = { op with pc := .done } := rfl

theorem ReleasedInv.set (h : ReleasedInv s₀ s) {i : Nat} (hop : s.operations[i]? = some op)
    (x : Operation Body) (hx : Unfinished s₀ i → op.untouched → x.untouched) (sh : Shared L)
    (hsh : sh.alive = false) : ReleasedInv s₀ ⟨sh, s.operations.set i x⟩ := by
  refine ⟨hsh, fun j o hj hu => ?_⟩
  by_cases hij : i = j
  · subst hij
    rw [List.getElem?_set_self (List.getElem?_eq_some_iff.1 hop).1] at hj
    cases hj
    exact hx hu (h.untouched _ op hop hu)
  · rw [List.getElem?_set_ne hij] at hj
    exact h.untouched j o hj hu

theorem releasedInv_step {a : Action Body} (h : ReleasedInv s₀ s) (hs : step env s a = some s') :
    ReleasedInv s₀ s' := by
  cases a with
  | start args =>
    cases hs
    refine ⟨h.dead, fun j o hj hu => ?_⟩
    rcases Nat.lt_or_ge j s.operations.length with hlt | hge
    · rw [List.getElem?_append_left hlt] at hj
      exact h.untouched j o hj hu
    · rw [List.getElem?_append_right hge] at hj
      cases hk : j - s.operations.length with
      | zero => rw [hk] at hj; cases hj; exact ⟨rfl, rfl, .inl rfl⟩
      | succ k => rw [hk] at hj; cases hj
  | sdkBody i body =>
    simp only [step] at hs
    split at hs
    · rename_i op hop
      split at hs <;> cases hs
      exact h.set hop { op with body } (fun _ hu => hu) _ h.dead
    · cases hs
  | finish i res m =>
    simp only [step] at hs
    split at hs
    · rename_i op hop
      split at hs <;> cases hs
      rw [h.dead, finishOp_dead]
      exact h.set hop { op with pc := .done } (fun _ hu => ⟨hu.1, hu.2.1, .inr rfl⟩) _ h.dead
    · cases hs
  | step i =>
    simp only [step] at hs
    split at hs
    · rename_i op hop
      obtain ⟨⟨sh', op'⟩, hcb, rfl⟩ := Option.map_eq_some'.mp hs
      refine h.set hop _ (fun hu hop' => ?_) _ ?_
      · rw [callbackStep_of_idle hop'.2.2] at hcb
        cases hcb
      · unfold callbackStep at hcb
        split at hcb
        · split at hcb <;> cases hcb
          · exact h.dead
          · exact h.dead
        · split at hcb <;> cases hcb <;> exact h.dead
        · cases hcb
    · cases hs
  | release => cases hs; exact ⟨rfl, h.untouched⟩

theorem quietInv_step {a : Action Body} (hd : s₀.shared.alive = false) (h : QuietInv s₀ s)
    (hs : step env s a = some s') : QuietInv s₀ s' := by
  cases a with
  | start args =>
    cases hs
    refine ⟨h.shared, fun o ho => ?_⟩
    rcases List.mem_append.1 ho with ho | ho
    · exact h.idle o ho
    · rw [List.mem_singleton.1 ho]; exact .inl rfl
  | sdkBody i body =>
    simp only [step] at hs
    split at hs
    · rename_i op hop
      split at hs
      · cases hs
        refine ⟨h.shared, fun o ho => ?_⟩
        rcases List.mem_or_eq_of_mem_set ho with ho | rfl
        · exact h.idle o ho
        · exact .inl ‹_›
      · cases hs
    · cases hs
  | finish i res m =>
    simp only [step] at hs
    split at hs
    · rename_i op hop
      split at hs
      · cases hs
        refine ⟨h.shared, fun o ho => ?_⟩
        rcases List.mem_or_eq_of_mem_set ho with ho | rfl
        · exact h.idle o ho
        · rw [h.shared, hd, finishOp_dead]; exact .inr rfl
      · cases hs
    · cases hs
  | step i =>
    simp only [step] at hs
    split at hs
    · rename_i op hop
      rw [callbackStep_of_idle (h.idle op (List.getElem?_mem hop))] at hs
      cases hs
    · cases hs
  | release =>
    cases hs
    refine ⟨?_, h.idle⟩
    rw [h.shared]
    cases hsh : s₀.shared
    simp_all

theorem released_run {as : List (Action Body)} (hd : s₀.shared.alive = false)
    (hr : ReleasedInv s₀ s) (hq : (∀ op ∈ s₀.operations, op.pc = .handling ∨ op.pc = .done) →
      QuietInv s₀ s) (h : run env s as = some s') :
    ReleasedInv s₀ s' ∧ ((∀ op ∈ s₀.operations, op.pc = .handling ∨ op.pc = .done) →
      QuietInv s₀ s') :=
  Machine.run_closed (P := fun t => ReleasedInv s₀ t ∧
      ((∀ op ∈ s₀.operations, op.pc = .handling ∨ op.pc = .done) → QuietInv s₀ t))
    (fun _ _ _ ht h₁ => ⟨releasedInv_step ht.1 h₁, fun hi => quietInv_step hd (ht.2 hi) h₁⟩)
    ⟨hr, hq⟩ h

end

/-- After the WAF handle is released, an operation unfinished at the release or started after it
gets no tag and no event; and if no finish callback was mid-run at the release, the listener's
shared state never changes again. -/
theorem released_listener_adds_nothing (env : Env L Body) (s₀ s : State L Body)
    (as : List (Action Body)) (h₀ : Reachable env s₀) (hd : s₀.shared.alive = false)
    (h : run env s₀ as = some s) :
    (∀ i op, s.operations[i]? = some op → Unfinished s₀ i → op.tags = [] ∧ op.events = []) ∧
    ((∀ op ∈ s₀.operations, op.pc = .handling ∨ op.pc = .done) → s.shared = s₀.shared) := by
  have hi := inv_of_reachable h₀
  have hr : ReleasedInv s₀ s₀ := ⟨hd, fun i op hop hu => by
    rcases hu with hle | ⟨op₀, hop₀, hpc⟩
    · exact absurd (List.getElem?_eq_none hle) (by simp [hop])
    · rw [hop₀, Option.some.injEq] at hop
      subst hop
      have := hi.ops op₀ (List.getElem?_mem hop₀)
      simp only [OpInv, hpc] at this
      exact ⟨this.1, this.2, .inl hpc⟩⟩
  obtain ⟨hr', hq'⟩ := released_run hd hr (fun hidle => ⟨rfl, hidle⟩) h
  exact ⟨fun i op hop hu => ⟨(hr'.untouched i op hop hu).1, (hr'.untouched i op hop hu).2.1⟩,
    fun hidle => (hq' hidle).shared⟩

/-- Two operations; the first finishes and the handle is released while its callback is at
`monitorRulesOnce`. -/
def releaseRun : List (Action String) :=
  [.start ⟨"/a", none, none, none, none⟩, .start ⟨"/b", none, none, none, none⟩,
    .finish 0 ⟨200⟩ ⟨10, 5, 0⟩, .release]

def releasedState : State Nat String := (run sampleEnv (init 1) releaseRun).getD (init 1)

/-- The first callback runs to its end; the second operation gets a body and finishes, and a third
starts and finishes. -/
def afterRelease : List (Action String) :=
  [.sdkBody 1 (some "x"), .finish 1 ⟨200⟩ ⟨10, 5, 0⟩, .step 0, .step 0,
    .start ⟨"/c", none, none, none, none⟩, .finish 2 ⟨404⟩ ⟨1, 1, 0⟩]

def afterState : State Nat String := (run sampleEnv releasedState afterRelease).getD releasedState

theorem released_listener_adds_nothing_sample :
    Reachable sampleEnv releasedState ∧ releasedState.shared.alive = false ∧
      run sampleEnv releasedState afterRelease = some afterState ∧
      (∀ i op, afterState.operations[i]? = some op → Unfinished releasedState i →
        op.tags = [] ∧ op.events = []) ∧
      ((∀ op ∈ releasedState.operations, op.pc = .handling ∨ op.pc = .done) →
        afterState.shared = releasedState.shared) :=
  have h₀ : Reachable sampleEnv releasedState :=
    Machine.Reachable.run releaseRun (.init 1) rfl
  ⟨h₀, rfl, rfl,
    released_listener_adds_nothing sampleEnv releasedState afterState afterRelease h₀ rfl rfl⟩

/-- The `matches` of an operation's finish callback: the WAF's match on the values built from the
operation's own arguments and body and the response `res`, in a run measured as `m`. -/
def Operation.matches (env : Env L Body) (op : Operation Body) (res : HandlerOperationRes)
    (m : Measurement) : List UInt8 :=
  runWAF (env.wafRun (httpValues op.args op.body res env.addresses) m)

section

variable (env : Env L Body)

/-- Past `waf.NewContext`, the match an operation's callback holds, and then its security event,
are the operation's own `matches` in the run whose monitoring tags it carries. -/
def OwnRun (op : Operation Body) : Prop :=
  match op.pc with
  | .handling => op.tags = [] ∧ op.events = []
  | .once found =>
    ∃ res m, found = op.matches env res m ∧ op.tags = wafTags env m ∧ op.events = []
  | .limit found =>
    ∃ res m, found = op.matches env res m ∧
      (op.tags = wafTags env m ∨ op.tags = wafTags env m ++ rulesTags env) ∧ op.events = []
  | .done =>
    op.events = [] ∨ ∃ res m, op.events = [op.matches env res m] ∧
      (op.tags = wafTags env m ∨ op.tags = wafTags env m ++ rulesTags env)

end

section

variable {env : Env L Body} {s s' : State L Body} {op : Operation Body}

theorem ownRun_finishOp (ho : OwnRun env op) (hpc : op.pc = .handling) (alive : Bool)
    (res : HandlerOperationRes) (m : Measurement) : OwnRun env (finishOp env alive res m op) := by
  simp only [OwnRun, hpc] at ho
  obtain ⟨htags, hev⟩ := ho
  cases alive
  · exact .inl hev
  · exact ⟨res, m, rfl, by simp [finishOp, htags], hev⟩

theorem ownRun_callbackStep {sh sh' : Shared L} {op' : Operation Body} (ho : OwnRun env op)
    (h : callbackStep env sh op = some (sh', op')) : OwnRun env op' := by
  unfold callbackStep at h
  split at h
  · rename_i found hpc
    simp only [OwnRun, hpc] at ho
    obtain ⟨res, m, hf, htags, hev⟩ := ho
    split at h <;> cases h
    · exact ⟨res, m, hf, .inl htags, hev⟩
    · exact ⟨res, m, hf, .inr (by rw [htags]), hev⟩
  · rename_i found hpc
    simp only [OwnRun, hpc] at ho
    obtain ⟨res, m, hf, htags, hev⟩ := ho
    split at h <;> cases h
    · exact .inl hev
    · -- the limiter says yes or no; the event, if any, is the match the callback held
      show _ ∨ _
      split
      · exact .inr ⟨res, m, by rw [hev, hf]; rfl, htags⟩
      · exact .inl hev
  · cases h

theorem ownRun_step {a : Action Body} (ho : ∀ op ∈ s.operations, OwnRun env op)
    (h : step env s a = some s') : ∀ op ∈ s'.operations, OwnRun env op := by
  have hset : ∀ {i : Nat} {op' : Operation Body}, OwnRun env op' →
      ∀ o ∈ s.operations.set i op', OwnRun env o := fun hop' o hx => by
    rcases List.mem_or_eq_of_mem_set hx with hx | rfl
    · exact ho o hx
    · exact hop'
  cases a with
  | start args =>
    cases h
    intro o hx
    rcases List.mem_append.1 hx with hx | hx
    · exact ho o hx
    · rw [List.mem_singleton.1 hx]; exact ⟨rfl, rfl⟩
  | sdkBody i body =>
    simp only [step] at h
    split at h
    · rename_i op hop
      split at h <;> cases h
      rename_i hpc
      exact hset (show OwnRun env { op with body } by
        simpa only [OwnRun, hpc] using ho op (List.getElem?_mem hop))
    · cases h
  | finish i res m =>
    simp only [step] at h
    split at h
    · rename_i op hop
      split at h <;> cases h
      rename_i hpc
      exact hset (ownRun_finishOp (ho op (List.getElem?_mem hop)) hpc _ res m)
    · cases h
  | step i =>
    simp only [step] at h
    split at h
    · rename_i op hop
      obtain ⟨⟨sh', op'⟩, hcb, rfl⟩ := Option.map_eq_some'.mp h
      exact hset (ownRun_callbackStep (ho op (List.getElem?_mem hop)) hcb)
    · cases h
  | release => cases h; exact ho

end

/-- Under every interleaving, an operation's security event is the WAF's match on values built
from its own arguments, its last reported body and a response, from the run whose tags it carries,
and its finish callback has returned. -/
theorem events_from_own_waf_run (env : Env L Body) (s : State L Body) (h : Reachable env s) :
    ∀ op ∈ s.operations, op.events = [] ∨ op.pc = .done ∧ ∃ res m,
      op.events = [op.matches env res m] ∧
      (op.tags = wafTags env m ∨ op.tags = wafTags env m ++ rulesTags env) := by
  have hown : ∀ op ∈ s.operations, OwnRun env op :=
    Machine.reachable_induction (fun _ _ h => absurd h (List.not_mem_nil _))
      (fun _ _ _ ih hs => ownRun_step ih hs) h
  intro op hop
  have ho := hown op hop
  unfold OwnRun at ho
  split at ho <;> rename_i hpc
  · exact .inl ho.2
  · obtain ⟨-, -, -, -, hev⟩ := ho; exact .inl hev
  · obtain ⟨-, -, -, -, hev⟩ := ho; exact .inl hev
  · exact ho.imp_right fun hm => ⟨hpc, hm⟩

theorem events_from_own_waf_run_sample :
    Reachable sampleEnv sampleState ∧ ∀ op ∈ sampleState.operations,
      op.events = [] ∨ op.pc = .done ∧ ∃ res m,
        op.events = [op.matches sampleEnv res m] ∧
        (op.tags = wafTags sampleEnv m ∨ op.tags = wafTags sampleEnv m ++ rulesTags sampleEnv) :=
  have h : Reachable sampleEnv sampleState :=
    Machine.Reachable.run sampleRun (.init 1) rfl
  ⟨h, events_from_own_waf_run sampleEnv sampleState h⟩

/-- There the first operation's event is the match on its own body; the second, which has no
body, matches nothing. -/
example : sampleState.operations.map (·.matches sampleEnv ⟨200⟩ ⟨10, 5, 0⟩) = [[1], []] := by
  decide

end DDTrace.Appsec.HTTPListener
