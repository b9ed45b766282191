import DDTrace.Tracer.RandSource

/-!
# Which `randSource` calls return

`seed_never_returns` says that a `Seed` call never returns. This module says what that means for
the `Int63` calls around it, in two halves.

Without `Seed`, the mutex only ever guards one draw, and nothing can block for good. Take any
state that `Int63` calls alone can reach, whatever the interleaving so far. The calls still
running can all return: run the call that holds the mutex, if any, to its return, then each
waiting call in turn. At the end the mutex is free and every goroutine's stack is empty. Each
goroutine that had a call running has returned exactly once, with a drawn value, and no other
goroutine has returned (`int63_calls_all_return`). Every goroutine holds at most one `Int63` frame
(`Lone`), since an `Int63` call calls nothing. The mutex is locked exactly when one frame holds it
(`Inv`), so some call can always move on: the holder's call if the mutex is locked, any waiting
call if it is free (`exists_ready`).

Once a `Seed` call has taken the mutex, the other half applies: the source is wedged for good.
The `Seed` frames then hold the mutex and nothing else does (`Wedged`). No step releases the
mutex or draws from the source, and an `Int63` call waiting for the mutex waits forever. The only
`Int63` calls that still return are those that had drawn already
(`seed_wedges_int63`).
-/

namespace DDTrace.RandSource

/-- The statements left to an `Int63` frame, its return included. -/
def Int63Pc.left : Int63Pc → Nat
  | .lock => 4
  | .call => 3
  | .unlock _ => 2
  | .ret _ => 1

/-- A goroutine of a program that calls only `Int63`: no frame, or one `Int63` frame. -/
def Lone (fs : List Frame) : Prop := fs = [] ∨ ∃ pc, fs = [.int63 pc]

/-- The number of goroutines with a call still running. -/
def pending (goroutines : List (List Frame)) : Nat := goroutines.countP fun fs => !fs.isEmpty

/-- The returns `rs` are one per goroutine of `goroutines` that has a call running, and no
others. -/
def ReturnsOnce (goroutines : List (List Frame)) (rs : List (Nat × Ret)) : Prop :=
  (rs.map Prod.fst).Nodup ∧ ∀ g, g ∈ rs.map Prod.fst ↔ ∃ fs, goroutines[g]? = some fs ∧ fs ≠ []

theorem holders_pos_iff {goroutines : List (List Frame)} :
    0 < holders goroutines ↔ ∃ fs ∈ goroutines, ∃ f ∈ fs, f.holds = true := by
  induction goroutines with
  | nil => simp [holders]
  | cons fs goroutines ih =>
    rw [holders, Nat.add_pos_iff_pos_or_pos, ih, List.countP_pos_iff]
    simp

theorem ReturnsOnce.cons {goroutines : List (List Frame)} {g : Nat} {fs : List Frame}
    (hg : goroutines[g]? = some fs) (hne : fs ≠ []) (r : Ret) {rs : List (Nat × Ret)}
    (h : ReturnsOnce (goroutines.set g []) rs) : ReturnsOnce goroutines ((g, r) :: rs) := by
  obtain ⟨hnd, hiff⟩ := h
  have hlt : g < goroutines.length := (List.getElem?_eq_some_iff.1 hg).1
  have hg' : g ∉ rs.map Prod.fst := fun hm => by
    obtain ⟨fs', hfs', hne'⟩ := (hiff g).1 hm
    simp [List.getElem?_set_self hlt] at hfs'
    exact hne' hfs'
  refine ⟨List.nodup_cons.2 ⟨hg', hnd⟩, fun g' => ?_⟩
  by_cases hgg : g = g'
  · subst hgg
    simp [hg, hne]
  · simp [hiff, List.getElem?_set_ne hgg, Ne.symm hgg]

section

variable {σ : Type} {src : Source σ}

/-- A `Lone` goroutine steps to a `Lone` goroutine: an `Int63` frame is replaced by one frame or
returns. -/
theorem lone_step {s s' : State σ} {a : Action} (hl : ∀ fs ∈ s.goroutines, Lone fs)
    (ha : ∀ x, a ≠ .spawn (.seed x)) (h : step src s a = some s') :
    ∀ fs ∈ s'.goroutines, Lone fs := by
  cases a with
  | spawn m =>
    cases m with
    | seed x => exact absurd rfl (ha x)
    | int63 =>
      cases h
      intro fs hfs
      rcases List.mem_append.1 hfs with hfs | hfs
      · exact hl fs hfs
      · exact .inr ⟨.lock, List.mem_singleton.1 hfs⟩
  | step g =>
    obtain ⟨f, rest, e, hg, he, rfl⟩ := step_step_inv h
    obtain ⟨pc, hfr⟩ := (hl _ (List.mem_iff_getElem?.2 ⟨_, hg⟩)).resolve_left
      (List.cons_ne_nil _ _)
    obtain ⟨rfl, rfl⟩ := List.cons_eq_cons.1 hfr
    intro fs hfs
    rcases List.mem_or_eq_of_mem_set hfs with hfs | rfl
    · exact hl fs hfs
    · cases pc <;> simp only [frameStep] at he <;> (try split at he) <;> cases he <;>
        simp [Lone]

theorem inv_lone_run {s s' : State σ} {as : List Action} (hi : Inv s)
    (hl : ∀ fs ∈ s.goroutines, Lone fs) (hs : ∀ a ∈ as, ∀ x, a ≠ .spawn (.seed x))
    (h : run src s as = some s') : Inv s' ∧ ∀ fs ∈ s'.goroutines, Lone fs :=
  Machine.run_closed_mem (P := fun t => Inv t ∧ ∀ fs ∈ t.goroutines, Lone fs)
    (fun _ a _ ha ht h₁ => ⟨inv_step ht.1 h₁, lone_step ht.2 (hs a ha) h₁⟩) ⟨hi, hl⟩ h

/-- One statement of the lone frame of goroutine `g`. -/
theorem step_lone {s : State σ} {g : Nat} {f : Frame} {e : Effect σ}
    (hg : s.goroutines[g]? = some [f]) (he : frameStep src s.locked s.source f = some e) :
    step src s (.step g) = some ⟨e.locked, e.source, s.goroutines.set g e.top,
      s.returns ++ (e.ret.map (g, ·)).toList⟩ := by
  simp [step, hg, he]

/-- A lone `Int63` frame that may run (it holds the mutex exactly when the mutex is locked) runs
to its return, leaving the mutex free: each statement leaves a frame that may run, with one
statement fewer left. -/
theorem run_finish (pc : Int63Pc) {s : State σ} {g : Nat}
    (hg : s.goroutines[g]? = some [.int63 pc]) (hl : s.locked = pc.holds) :
    ∃ n source', run src s (List.replicate pc.left (.step g)) =
      some ⟨false, source', s.goroutines.set g [], s.returns ++ [(g, .int63 n)]⟩ := by
  have hlt : g < s.goroutines.length := (List.getElem?_eq_some_iff.1 hg).1
  have next : ∀ (pc' : Int63Pc) (source' : σ) {locked' : Bool},
      frameStep src s.locked s.source (.int63 pc) = some ⟨[.int63 pc'], locked', source', none⟩ →
      pc.left = pc'.left + 1 → locked' = pc'.holds →
      ∃ n source', run src s (List.replicate pc.left (.step g)) =
        some ⟨false, source', s.goroutines.set g [], s.returns ++ [(g, .int63 n)]⟩ := by
    intro pc' source' locked' he hleft hl'
    obtain ⟨n, source'', h⟩ := run_finish pc'
      (s := ⟨locked', source', s.goroutines.set g [.int63 pc'], s.returns⟩) (g := g) (by simp [hlt]) hl'
    refine ⟨n, source'', ?_⟩
    rw [hleft, List.replicate_succ, run, Machine.run_cons, step_lone hg he, Option.some_bind]
    simpa using h
  cases pc with
  | lock => exact next .call s.source (by simp [frameStep, hl, Int63Pc.holds]) rfl rfl
  | call => exact next (.unlock (src.int63 s.source).1) (src.int63 s.source).2 rfl rfl hl
  | unlock n => exact next (.ret n) s.source (by simp [frameStep, hl, Int63Pc.holds]) rfl rfl
  | ret n =>
    refine ⟨n, s.source, ?_⟩
    simp [Int63Pc.left, run, step_lone hg (show frameStep src s.locked s.source (.int63 (.ret n)) =
      some ⟨[], s.locked, s.source, some (.int63 n)⟩ from rfl), hl, Int63Pc.holds]
termination_by pc.left

/-- While a call is running, some call may run to its return: the holder of the mutex if it is
locked, any call if it is free. With no call running, the mutex is free. -/
theorem exists_ready {s : State σ} (hi : Inv s) (hl : ∀ fs ∈ s.goroutines, Lone fs) :
    (0 < pending s.goroutines →
      ∃ (g : Nat) (pc : Int63Pc), s.goroutines[g]? = some [.int63 pc] ∧ s.locked = pc.holds) ∧
      (pending s.goroutines = 0 → s.locked = false) := by
  have hpos : 0 < holders s.goroutines ↔ s.locked = true := by
    rw [hi.holders]
    cases s.locked <;> simp
  constructor
  · intro hp
    cases hlk : s.locked
    · obtain ⟨fs, hfs, hne⟩ := List.countP_pos_iff.1 hp
      obtain ⟨pc, rfl⟩ := (hl fs hfs).resolve_left (by simpa using hne)
      obtain ⟨g, hg⟩ := List.mem_iff_getElem?.1 hfs
      refine ⟨g, pc, hg, ?_⟩
      cases hpc : pc.holds
      · rfl
      · exact absurd (hpos.1 (holders_pos_iff.2 ⟨_, hfs, _, List.mem_singleton_self _, hpc⟩))
          (by simp [hlk])
    · obtain ⟨fs, hfs, f, hf, hhf⟩ := holders_pos_iff.1 (hpos.2 hlk)
      obtain ⟨pc, rfl⟩ := (hl fs hfs).resolve_left (List.ne_nil_of_mem hf)
      obtain ⟨g, hg⟩ := List.mem_iff_getElem?.1 hfs
      exact ⟨g, pc, hg, by rw [List.mem_singleton.1 hf] at hhf; exact hhf.symm⟩
  · intro hp
    cases hlk : s.locked
    · rfl
    · obtain ⟨fs, hfs, f, hf, -⟩ := holders_pos_iff.1 (hpos.2 hlk)
      have : 0 < pending s.goroutines :=
        List.countP_pos_iff.2 ⟨fs, hfs, by simpa using List.ne_nil_of_mem hf⟩
      omega

/-- By induction on the number of calls running: run one that may run to its return, then the
rest. -/
theorem drain (n : Nat) (s : State σ) (hi : Inv s) (hl : ∀ fs ∈ s.goroutines, Lone fs)
    (hn : pending s.goroutines = n) :
    ∃ bs s', (∀ b ∈ bs, ∃ g, b = .step g) ∧ run src s bs = some s' ∧ s'.locked = false ∧
      s'.goroutines.length = s.goroutines.length ∧ (∀ fs ∈ s'.goroutines, fs = []) ∧
      ∃ rs, s'.returns = s.returns ++ rs ∧ (∀ p ∈ rs, ∃ v, p.2 = .int63 v) ∧
        ReturnsOnce s.goroutines rs := by
  induction n generalizing s with
  | zero =>
    refine ⟨[], s, by simp, rfl, (exists_ready hi hl).2 hn, rfl, fun fs hfs => ?_, [], by simp,
      by simp, by simp, fun g => ?_⟩
    · simpa using List.countP_eq_zero.1 hn fs hfs
    · simp only [List.map_nil, List.not_mem_nil, false_iff, not_exists, not_and]
      exact fun fs hfs hne => by
        simpa [hne] using List.countP_eq_zero.1 hn fs (List.getElem?_mem hfs)
  | succ n ih =>
    obtain ⟨g, pc, hg, hlk⟩ := (exists_ready hi hl).1 (by omega)
    obtain ⟨v, source', hrun⟩ := @run_finish _ src pc _ _ hg hlk
    have hsteps : ∀ b ∈ List.replicate pc.left (Action.step g), ∃ g, b = .step g :=
      fun b hb => ⟨g, List.eq_of_mem_replicate hb⟩
    obtain ⟨hi₁, hl₁⟩ := inv_lone_run hi hl
      (fun b hb x => by obtain ⟨_, rfl⟩ := hsteps b hb; simp) hrun
    have hlt : g < s.goroutines.length := (List.getElem?_eq_some_iff.1 hg).1
    have hn₁ : pending (s.goroutines.set g []) = n := by
      have h := List.countP_set (fun fs : List Frame => !fs.isEmpty) _ _ [] hlt
      rw [(List.getElem?_eq_some_iff.1 hg).2] at h
      simp only [pending] at hn ⊢
      simp at h; omega
    obtain ⟨bs, s', hbs, hrun', hlk', hlen, hempty, rs, hrs, hv, hro⟩ := ih _ hi₁ hl₁ hn₁
    refine ⟨_ ++ bs, s', fun b hb => ?_, Machine.run_append_of hrun hrun',
      hlk', by simpa using hlen, hempty, (g, .int63 v) :: rs, by simpa using hrs, ?_,
      hro.cons hg (List.cons_ne_nil _ _) _⟩
    · rcases List.mem_append.1 hb with hb | hb
      · exact hsteps b hb
      · exact hbs b hb
    · rintro p (_ | ⟨_, hp⟩)
      · exact ⟨v, rfl⟩
      · exact hv p hp

end

/-- Under every interleaving of `Int63` calls, from any source state, some schedule of the running
calls alone leaves the mutex free and every stack empty, returning one value for each goroutine
that had a call running, and for no other. -/
theorem int63_calls_all_return {σ : Type} (src : Source σ) (source : σ) (as : List Action)
    (s : State σ) (hs : ∀ a ∈ as, ∀ x, a ≠ .spawn (.seed x)) (h : run src (init source) as = some s) :
    ∃ bs s', (∀ b ∈ bs, ∃ g, b = .step g) ∧ run src s bs = some s' ∧ s'.locked = false ∧
      s'.goroutines.length = s.goroutines.length ∧ (∀ fs ∈ s'.goroutines, fs = []) ∧
      ∃ rs, s'.returns = s.returns ++ rs ∧ (∀ p ∈ rs, ∃ v, p.2 = .int63 v) ∧
        (rs.map Prod.fst).Nodup ∧
        ∀ g, g ∈ rs.map Prod.fst ↔ ∃ fs, s.goroutines[g]? = some fs ∧ fs ≠ [] := by
  obtain ⟨hi, hl⟩ := inv_lone_run (inv_init source) (by simp [init]) hs h
  exact drain _ s hi hl rfl

/-- Two `Int63` calls: the first has drawn and holds the mutex, the second waits for it. -/
def waitingRun : List Action := [.spawn .int63, .spawn .int63, .step 0, .step 0]

def waiting : State Nat := ⟨true, 1, [[.int63 (.unlock 0)], [.int63 .lock]], []⟩

theorem int63_calls_all_return_waiting :
    (∀ a ∈ waitingRun, ∀ x, a ≠ .spawn (.seed x)) ∧
    run countingSource (init 0) waitingRun = some waiting ∧
    ∃ bs s', (∀ b ∈ bs, ∃ g, b = .step g) ∧ run countingSource waiting bs = some s' ∧
      s'.locked = false ∧ s'.goroutines.length = waiting.goroutines.length ∧
      (∀ fs ∈ s'.goroutines, fs = []) ∧
      ∃ rs, s'.returns = waiting.returns ++ rs ∧ (∀ p ∈ rs, ∃ v, p.2 = .int63 v) ∧
        (rs.map Prod.fst).Nodup ∧
        ∀ g, g ∈ rs.map Prod.fst ↔ ∃ fs, waiting.goroutines[g]? = some fs ∧ fs ≠ [] :=
  have hs : ∀ a ∈ waitingRun, ∀ x, a ≠ .spawn (.seed x) := by simp [waitingRun]
  ⟨hs, rfl, int63_calls_all_return countingSource 0 waitingRun waiting hs rfl⟩

/-- In a list with at most one element satisfying `p`, two elements that satisfy it are equal. -/
theorem eq_of_countP_le_one {α : Type} {p : α → Bool} {l : List α} (h : l.countP p ≤ 1) {a b : α}
    (ha : a ∈ l) (hpa : p a = true) (hb : b ∈ l) (hpb : p b = true) : a = b := by
  induction l with
  | nil => cases ha
  | cons x l ih =>
    rw [List.countP_cons] at h
    have hzero : ∀ y ∈ l, p y = true → p x = false := fun y hy hpy => by
      have := List.countP_pos_iff.2 ⟨y, hy, hpy⟩
      cases hx : p x
      · rfl
      · rw [hx, if_pos rfl] at h; omega
    rcases List.mem_cons.1 ha with rfl | ha'
    · rcases List.mem_cons.1 hb with rfl | hb'
      · rfl
      · simp [hzero b hb' hpb] at hpa
    · rcases List.mem_cons.1 hb with rfl | hb'
      · simp [hzero a ha' hpa] at hpb
      · exact ih (by split at h <;> omega) ha' hb'

theorem holders_eq_countP_flatten (goroutines : List (List Frame)) :
    holders goroutines = goroutines.flatten.countP Frame.holds := by
  induction goroutines with
  | nil => rfl
  | cons fs goroutines ih => simp [holders, ih]

/-- With at most one frame holding the mutex, two frames that hold it are the same frame. -/
theorem eq_of_holds {goroutines : List (List Frame)} (h : holders goroutines ≤ 1)
    {fs fs' : List Frame} {f f' : Frame} (hfs : fs ∈ goroutines) (hf : f ∈ fs) (hh : f.holds = true)
    (hfs' : fs' ∈ goroutines) (hf' : f' ∈ fs') (hh' : f'.holds = true) : f = f' :=
  eq_of_countP_le_one (holders_eq_countP_flatten goroutines ▸ h)
    (List.mem_flatten.2 ⟨fs, hfs, hf⟩) hh (List.mem_flatten.2 ⟨fs', hfs', hf'⟩) hh'

/-- A `randSource` whose mutex some `Seed` frame holds: it is locked, and only `Seed` frames hold
it. -/
structure Wedged {σ : Type} (s : State σ) : Prop where
  inv : Inv s
  locked : s.locked = true
  seed : ∀ fs ∈ s.goroutines, ∀ f ∈ fs, f.holds = true → f.isSeed = true

section

variable {σ : Type} {src : Source σ}

/-- A `Seed` frame past its `Lock` wedges a reachable `randSource`. -/
theorem wedged_of_seed {s : State σ} (hi : Inv s) {fs : List Frame} (hfs : fs ∈ s.goroutines)
    {x : BitVec 64} {pc : SeedPc} (hx : Frame.seed x pc ∈ fs) (hpc : pc ≠ .lock) : Wedged s := by
  have hh : (Frame.seed x pc).holds = true := by
    cases pc with
    | lock => exact absurd rfl hpc
    | call | unlock => rfl
    | ret => exact absurd hx (hi.noSeedRet fs hfs x)
  have hpos := (List.countP_pos_iff.2 ⟨_, hx, hh⟩).trans_le (countP_le_holders hfs)
  have hle : holders s.goroutines ≤ 1 := by rw [hi.holders]; split <;> omega
  refine ⟨hi, ?_, fun fs' hfs' f hf hhf => ?_⟩
  · have := hi.holders
    cases hl : s.locked <;> simp_all
  · rw [eq_of_holds hle hfs' hf hhf hfs hx hh]
    rfl

/-- One step of a wedged `randSource` keeps it wedged, leaves the source alone, passes on the
values returned or held, and leaves a waiting `Int63` call waiting. -/
theorem wedged_step {s s' : State σ} {a : Action} (hw : Wedged s) (h : step src s a = some s') :
    Wedged s' ∧ s'.source = s.source ∧
      (returned s'.returns ++ held s'.goroutines).Perm (returned s.returns ++ held s.goroutines) ∧
      ∀ g : Nat, s.goroutines[g]? = some [.int63 .lock] → s'.goroutines[g]? = some [.int63 .lock] := by
  have hi' := inv_step hw.inv h
  cases a with
  | spawn m =>
    cases h
    refine ⟨⟨hi', hw.locked, fun fs hfs f hf hhf => ?_⟩, rfl, ?_, fun g hg => ?_⟩
    · rcases List.mem_append.1 hfs with hfs | hfs
      · exact hw.seed fs hfs f hf hhf
      · rw [List.mem_singleton.1 hfs, List.mem_singleton] at hf
        subst hf
        cases m <;> simp [Method.entry, Frame.holds, SeedPc.holds, Int63Pc.holds] at hhf
    · cases m <;> simp [held_append, Method.entry, Frame.drawn]
    · rw [List.getElem?_append_left (List.getElem?_eq_some_iff.1 hg).1, hg]
  | step g =>
    obtain ⟨f, rest, e, hg, he, rfl⟩ := step_step_inv h
    have hmem := List.mem_iff_getElem?.2 ⟨_, hg⟩
    -- the running frame is a `Seed` frame or an `Int63` frame that does not hold the mutex
    have hkeep : e.locked = true ∧ e.source = s.source ∧
        e.top.filterMap Frame.drawn ++ (e.ret.bind Ret.value).toList = f.drawn.toList ∧
        ∀ y ∈ e.top, y.holds = true → y.isSeed = true := by
      have hf := (hw.inv.nested _ hmem).1 f rfl
      have hnot := hw.seed _ hmem f (.head _)
      cases f with
      | seed x pc =>
        cases pc with
        | lock => simp [frameStep, hw.locked] at he
        | call => cases he; simp [Frame.holds, Frame.isSeed, SeedPc.holds, Frame.drawn, hw.locked]
        | unlock | ret => cases hf
      | int63 pc =>
        cases pc with
        | lock => simp [frameStep, hw.locked] at he
        | call | unlock => simp [Frame.holds, Int63Pc.holds, Frame.isSeed] at hnot
        | ret n => cases he; simp [Frame.drawn, Ret.value, hw.locked]
    obtain ⟨hl, hsrc, hdrawn, htop⟩ := hkeep
    refine ⟨⟨hi', hl, fun fs hfs y hy hhy => ?_⟩, hsrc, ?_, fun g' hg' => ?_⟩
    · rcases List.mem_or_eq_of_mem_set hfs with hfs | rfl
      · exact hw.seed fs hfs y hy hhy
      · rcases List.mem_append.1 hy with hy | hy
        · exact htop y hy hhy
        · exact hw.seed _ hmem y (.tail _ hy) hhy
    · refine List.perm_iff_count.2 fun v => ?_
      have h1 := (held_set hg (e.top ++ rest)).count_eq v
      have h3 := congrArg (List.count v) hdrawn
      simp only [filterMap_cons_drawn, List.filterMap_append, List.count_append] at h1 h3
      simp only [returned_append, List.count_append]
      omega
    · by_cases hgg : g = g'
      · subst hgg
        rw [hg, Option.some.injEq, List.cons_eq_cons] at hg'
        obtain ⟨rfl, rfl⟩ := hg'
        simp [frameStep, hw.locked] at he
      · rw [List.getElem?_set_ne hgg, hg']

theorem wedged_run {s s' : State σ} {as : List Action} (hw : Wedged s) (h : run src s as = some s') :
    Wedged s' ∧ s'.source = s.source ∧
      (returned s'.returns ++ held s'.goroutines).Perm (returned s.returns ++ held s.goroutines) ∧
      ∀ g : Nat, s.goroutines[g]? = some [.int63 .lock] → s'.goroutines[g]? = some [.int63 .lock] :=
  Machine.run_closed (P := fun t => Wedged t ∧ t.source = s.source ∧
      (returned t.returns ++ held t.goroutines).Perm (returned s.returns ++ held s.goroutines) ∧
      ∀ g : Nat, s.goroutines[g]? = some [.int63 .lock] → t.goroutines[g]? = some [.int63 .lock])
    (fun _ _ _ ⟨hw₁, hs₁, hp₁, hg₁⟩ h₁ =>
      let ⟨hw₂, hs₂, hp₂, hg₂⟩ := wedged_step hw₁ h₁
      ⟨hw₂, hs₂.trans hs₁, hp₂.trans hp₁, fun g hg => hg₂ g (hg₁ g hg)⟩)
    ⟨hw, rfl, .refl _, fun _ hg => hg⟩ h

end

/-- Once a `Seed` call of a reachable `randSource` holds the mutex, whatever runs next keeps it
locked, the source unchanged and every waiting `Int63` waiting; only calls that had drawn can
still return, with the values they drew. -/
theorem seed_wedges_int63 {σ : Type} (src : Source σ) (s : State σ) (hs : Reachable src s)
    (hseed : ∃ fs ∈ s.goroutines, ∃ x pc, Frame.seed x pc ∈ fs ∧ pc ≠ .lock) (as : List Action)
    (s' : State σ) (h : run src s as = some s') :
    s'.locked = true ∧ s'.source = s.source ∧
      (∀ g : Nat, s.goroutines[g]? = some [.int63 .lock] → s'.goroutines[g]? = some [.int63 .lock]) ∧
      (returned s'.returns ++ held s'.goroutines).Perm (returned s.returns ++ held s.goroutines) := by
  obtain ⟨fs, hfs, x, pc, hx, hpc⟩ := hseed
  obtain ⟨hw, hsrc, hperm, hwait⟩ := wedged_run (wedged_of_seed (inv_of_reachable hs) hfs hx hpc) h
  exact ⟨hw.locked, hsrc, hwait, hperm⟩

/-- An `Int63` call waiting for the mutex that a `Seed(42)` call holds, and a later `Int63`
call. -/
def jammed : State Nat := ⟨true, 0, [[.int63 .lock], [.seed 42 .lock, .seed 42 .unlock]], []⟩

def jammedLater : State Nat :=
  ⟨true, 0, [[.int63 .lock], [.seed 42 .lock, .seed 42 .unlock], [.int63 .lock]], []⟩

theorem seed_wedges_int63_jammed :
    Reachable countingSource jammed ∧
    (∃ fs ∈ jammed.goroutines, ∃ x pc, Frame.seed x pc ∈ fs ∧ pc ≠ .lock) ∧
    run countingSource jammed [.spawn .int63] = some jammedLater ∧
    (jammedLater.locked = true ∧ jammedLater.source = jammed.source ∧
      (∀ g : Nat, jammed.goroutines[g]? = some [.int63 .lock] →
        jammedLater.goroutines[g]? = some [.int63 .lock]) ∧
      (returned jammedLater.returns ++ held jammedLater.goroutines).Perm
        (returned jammed.returns ++ held jammed.goroutines)) :=
  have hr : Reachable countingSource jammed :=
    .step (.step 1) (.step (.step 1) (.step (.spawn (.seed 42)) (.step (.spawn .int63) (.init 0)
      rfl) rfl) rfl) rfl
  have hseed : ∃ fs ∈ jammed.goroutines, ∃ x pc, Frame.seed x pc ∈ fs ∧ pc ≠ .lock :=
    ⟨_, List.mem_cons_of_mem _ (List.mem_singleton_self _), 42, .unlock, by simp, by decide⟩
  ⟨hr, hseed, rfl, seed_wedges_int63 countingSource jammed hr hseed [.spawn .int63] jammedLater rfl⟩

end DDTrace.RandSource
