import DDTrace.Machine
import Mathlib.Data.List.Chain

/-!
# `randSource`: a `rand.Source` behind a mutex

`randSource` wraps a `rand.Source` with a `sync.Mutex`: `Int63` takes the lock, draws from the
source and releases the lock. `Seed` takes the lock and then calls `rs.Seed(seed)`, itself, and
not `rs.source.Seed(seed)`. A `sync.Mutex` is not reentrant, so the inner call waits in its
`Lock` for the lock its caller holds.

The model runs goroutines, each a stack of the frames of the two methods, over the mutex and the
source's state. A step is a new goroutine calling a method, or one goroutine's top frame running
its next statement; `Lock` is enabled only on a free mutex. The source is a parameter (`Source`):
`math/rand` is not under src/. Under every interleaving, a `Seed` frame past its `Lock` always has
its own recursive call above it, so no `Seed` call returns, and the mutex stays locked while such
a frame exists (`seed_never_returns`).

`Int63` holds the mutex over its draw, so the calls draw from the source one at a time: every
value drawn is returned by exactly one `Int63` call or held by one that has not yet returned, none
is lost or drawn twice, though calls may return in another order than they drew
(`int63_draws_each_value_once`).
-/

namespace DDTrace.RandSource

/-- The methods of `rand.Source` that `randSource` calls, over the source's state. -/
structure Source (σ : Type) where
  int63 : σ → BitVec 64 × σ
  seed : BitVec 64 → σ → σ

/-- Where a `Seed` call is: before `rs.Lock()`, before `rs.Seed(seed)`, before `rs.Unlock()`, at
its return. -/
inductive SeedPc
  | lock
  | call
  | unlock
  | ret
  deriving DecidableEq, Repr

/-- Where an `Int63` call is, with the value `n` once drawn. -/
inductive Int63Pc
  | lock
  | call
  | unlock (n : BitVec 64)
  | ret (n : BitVec 64)
  deriving DecidableEq, Repr

inductive Frame
  | seed (seed : BitVec 64) (pc : SeedPc)
  | int63 (pc : Int63Pc)
  deriving DecidableEq, Repr

/-- A method called from outside `randSource`. -/
inductive Method
  | seed (seed : BitVec 64)
  | int63
  deriving DecidableEq, Repr

def Method.entry : Method → Frame
  | .seed x => .seed x .lock
  | .int63 => .int63 .lock

/-- What a call returned. -/
inductive Ret
  | seed
  | int63 (n : BitVec 64)
  deriving DecidableEq, Repr

/-- The mutex, the source's state, each goroutine's stack (running frame first), and the calls
that returned, with their goroutine, in order. -/
structure State (σ : Type) where
  locked : Bool
  source : σ
  goroutines : List (List Frame)
  returns : List (Nat × Ret)

/-- What one statement of the top frame does: the frames that replace it, the mutex, the source,
and the value returned if the frame returns. -/
structure Effect (σ : Type) where
  top : List Frame
  locked : Bool
  source : σ
  ret : Option Ret

/-- A new goroutine calls a method, or goroutine `g`'s top frame runs its next statement. -/
inductive Action
  | spawn (m : Method)
  | step (g : Nat)

section

variable {σ : Type} (src : Source σ)

/-- One statement of a frame. `Lock` waits while the mutex is locked; `Unlock` of an unlocked
mutex is a fatal error, after which nothing runs. -/
def frameStep (locked : Bool) (source : σ) : Frame → Option (Effect σ)
  | .seed x .lock => if locked then none else some ⟨[.seed x .call], true, source, none⟩
  | .seed x .call => some ⟨[.seed x .lock, .seed x .unlock], locked, source, none⟩
  | .seed x .unlock => if locked then some ⟨[.seed x .ret], false, source, none⟩ else none
  | .seed _ .ret => some ⟨[], locked, source, some .seed⟩
  | .int63 .lock => if locked then none else some ⟨[.int63 .call], true, source, none⟩
  | .int63 .call =>
    let r := src.int63 source
    some ⟨[.int63 (.unlock r.1)], locked, r.2, none⟩
  | .int63 (.unlock n) => if locked then some ⟨[.int63 (.ret n)], false, source, none⟩ else none
  | .int63 (.ret n) => some ⟨[], locked, source, some (.int63 n)⟩

def step (s : State σ) : Action → Option (State σ)
  | .spawn m => some { s with goroutines := s.goroutines ++ [[m.entry]] }
  | .step g =>
    match s.goroutines[g]? with
    | some (f :: rest) => (frameStep src s.locked s.source f).map fun e =>
        ⟨e.locked, e.source, s.goroutines.set g (e.top ++ rest),
          s.returns ++ (e.ret.map (g, ·)).toList⟩
    | _ => none

/-- A `randSource` as `newRandSource` makes it, over any source state. -/
def init (source : σ) : State σ := ⟨false, source, [], []⟩

abbrev run : State σ → List Action → Option (State σ) := Machine.run (step src)

abbrev Reachable : State σ → Prop := Machine.Reachable (step src) init

end

section

variable {σ : Type} {src : Source σ}

/-- What a step of goroutine `g` is: one statement of its top frame. -/
theorem step_step_inv {s s' : State σ} {g : Nat} (h : step src s (.step g) = some s') :
    ∃ f rest e, s.goroutines[g]? = some (f :: rest) ∧ frameStep src s.locked s.source f = some e ∧
      s' = ⟨e.locked, e.source, s.goroutines.set g (e.top ++ rest),
        s.returns ++ (e.ret.map (g, ·)).toList⟩ := by
  simp only [step] at h
  split at h
  · obtain ⟨e, he, rfl⟩ := Option.map_eq_some'.1 h
    exact ⟨_, _, e, ‹_›, he, rfl⟩
  · cases h

end

def SeedPc.holds : SeedPc → Bool
  | .call | .unlock => true
  | .lock | .ret => false

def Int63Pc.holds : Int63Pc → Bool
  | .call | .unlock _ => true
  | .lock | .ret _ => false

/-- The frame has taken the mutex and not released it. -/
def Frame.holds : Frame → Bool
  | .seed _ pc => pc.holds
  | .int63 pc => pc.holds

/-- A `Seed` frame that has made its recursive call. -/
def Frame.returning : Frame → Bool
  | .seed _ .unlock | .seed _ .ret => true
  | .seed _ .lock | .seed _ .call | .int63 _ => false

def Frame.isSeed : Frame → Bool
  | .seed _ _ => true
  | .int63 _ => false

/-- A stack in which every `Seed` frame that has made its recursive call has a `Seed` frame right
above it; in particular the running frame has not made one. -/
def Nested (fs : List Frame) : Prop :=
  (∀ f ∈ fs.head?, f.returning = false) ∧
    fs.Chain' fun above below => below.returning = true → above.isSeed = true

/-- The number of frames holding the mutex, over all goroutines. -/
def holders : List (List Frame) → Nat
  | [] => 0
  | fs :: goroutines => fs.countP Frame.holds + holders goroutines

/-- The mutex is locked exactly when one frame holds it; every stack is nested; no `Seed` frame
has reached its return, and none has returned. -/
structure Inv {σ : Type} (s : State σ) : Prop where
  holders : holders s.goroutines = if s.locked then 1 else 0
  nested : ∀ fs ∈ s.goroutines, Nested fs
  noSeedRet : ∀ fs ∈ s.goroutines, ∀ x, Frame.seed x .ret ∉ fs
  noSeedReturn : ∀ p ∈ s.returns, p.2 ≠ .seed

theorem holders_set {goroutines : List (List Frame)} {g : Nat} {fs : List Frame}
    (h : goroutines[g]? = some fs) (fs' : List Frame) :
    holders (goroutines.set g fs') + fs.countP Frame.holds =
      holders goroutines + fs'.countP Frame.holds := by
  induction goroutines generalizing g with
  | nil => cases h
  | cons fs₀ goroutines ih =>
    cases g with
    | zero =>
      simp only [List.getElem?_cons_zero, Option.some.injEq] at h
      subst h
      simp only [List.set_cons_zero, holders]
      omega
    | succ g =>
      simp only [List.getElem?_cons_succ] at h
      have := ih h
      simp only [List.set_cons_succ, holders]
      omega

theorem holders_append (goroutines : List (List Frame)) (fs : List Frame) :
    holders (goroutines ++ [fs]) = holders goroutines + fs.countP Frame.holds := by
  induction goroutines with
  | nil => simp [holders]
  | cons fs' goroutines ih =>
    rw [List.cons_append, holders, holders, ih]
    omega

theorem countP_le_holders {goroutines : List (List Frame)} {fs : List Frame} (h : fs ∈ goroutines) :
    fs.countP Frame.holds ≤ holders goroutines := by
  induction goroutines with
  | nil => cases h
  | cons fs' goroutines ih =>
    simp only [holders] at ih ⊢
    rcases List.mem_cons.1 h with rfl | h
    · omega
    · have := ih h; omega

theorem Nested.replace {f f' : Frame} {rest : List Frame} (h : Nested (f :: rest))
    (hr : f'.returning = false) (hs : f'.isSeed = f.isSeed) : Nested (f' :: rest) := by
  obtain ⟨-, hc⟩ := h
  rw [List.chain'_cons'] at hc
  refine ⟨by simpa using hr, ?_⟩
  rw [List.chain'_cons']
  exact ⟨fun y hy hry => hs ▸ hc.1 y hy hry, hc.2⟩

theorem Nested.pop {f : Frame} {rest : List Frame} (h : Nested (f :: rest)) (hs : f.isSeed = false) :
    Nested rest := by
  obtain ⟨-, hc⟩ := h
  rw [List.chain'_cons'] at hc
  refine ⟨fun y hy => ?_, hc.2⟩
  cases hry : y.returning
  · rfl
  · exact absurd (hc.1 y hy hry) (by simp [hs])

theorem Nested.push {x : BitVec 64} {rest : List Frame} (h : Nested (.seed x .call :: rest)) :
    Nested (.seed x .lock :: .seed x .unlock :: rest) := by
  obtain ⟨-, hc⟩ := h
  rw [List.chain'_cons'] at hc
  refine ⟨by simp [Frame.returning], ?_⟩
  simp only [List.chain'_cons, Frame.isSeed, imp_true_iff, true_and]
  rw [List.chain'_cons']
  exact ⟨fun y hy _ => rfl, hc.2⟩

section

variable {σ : Type} {src : Source σ}

/-- What one statement of a frame that has not made a recursive `Seed` call does: it moves the
mutex with the frames holding it, starts no `Seed` return, returns no `Seed`, and keeps its stack
nested. -/
theorem frameStep_spec {locked : Bool} {source : σ} {f : Frame} {e : Effect σ}
    (hf : f.returning = false) (h : frameStep src locked source f = some e) :
    e.top.countP Frame.holds + (if locked then 1 else 0) =
      (if f.holds then 1 else 0) + (if e.locked then 1 else 0) ∧
    (∀ x, Frame.seed x .ret ∉ e.top) ∧ e.ret ≠ some .seed ∧
    ∀ rest, Nested (f :: rest) → Nested (e.top ++ rest) := by
  cases f with
  | seed x pc =>
    cases pc with
    | lock =>
      simp only [frameStep] at h
      split at h <;> cases h
      exact ⟨by simp [*, Frame.holds, SeedPc.holds], by simp, by simp,
        fun rest hn => hn.replace rfl rfl⟩
    | call =>
      cases h
      exact ⟨by simp [Frame.holds, SeedPc.holds], by simp, by simp, fun rest hn => hn.push⟩
    | unlock => cases hf
    | ret => cases hf
  | int63 pc =>
    cases pc with
    | lock =>
      simp only [frameStep] at h
      split at h <;> cases h
      exact ⟨by simp [*, Frame.holds, Int63Pc.holds], by simp, by simp,
        fun rest hn => hn.replace rfl rfl⟩
    | call =>
      cases h
      exact ⟨by simp [Frame.holds, Int63Pc.holds], by simp, by simp,
        fun rest hn => hn.replace rfl rfl⟩
    | unlock n =>
      simp only [frameStep] at h
      split at h <;> cases h
      exact ⟨by simp [*, Frame.holds, Int63Pc.holds], by simp, by simp,
        fun rest hn => hn.replace rfl rfl⟩
    | ret n =>
      cases h
      exact ⟨by simp [Frame.holds, Int63Pc.holds], by simp, by simp, fun rest hn => hn.pop rfl⟩

theorem inv_init (source : σ) : Inv (init source) :=
  ⟨rfl, by simp [init], by simp [init], by simp [init]⟩

theorem inv_step {s s' : State σ} {a : Action} (hi : Inv s) (h : step src s a = some s') :
    Inv s' := by
  cases a with
  | spawn m =>
    cases h
    have hm : (Method.entry m).holds = false ∧ (Method.entry m).returning = false ∧
        ∀ x, Method.entry m ≠ .seed x .ret := by
      cases m <;> simp [Method.entry, Frame.holds, Frame.returning, SeedPc.holds, Int63Pc.holds]
    refine ⟨by simpa [holders_append, hm.1] using hi.holders, fun fs hfs => ?_,
      fun fs hfs x => ?_,
      hi.noSeedReturn⟩
    · rcases List.mem_append.1 hfs with hfs | hfs
      · exact hi.nested fs hfs
      · rw [List.mem_singleton.1 hfs]
        exact ⟨by simpa using hm.2.1, List.chain'_singleton _⟩
    · rcases List.mem_append.1 hfs with hfs | hfs
      · exact hi.noSeedRet fs hfs x
      · rw [List.mem_singleton.1 hfs]
        simpa [eq_comm] using hm.2.2 x
  | step g =>
    simp only [step] at h
    split at h
    · rename_i f rest hg
      obtain ⟨e, he, rfl⟩ := Option.map_eq_some'.1 h
      have hmem := List.mem_iff_getElem?.2 ⟨_, hg⟩
      have hn := hi.nested _ hmem
      obtain ⟨hhold, hret, hseed, hnest⟩ := frameStep_spec (hn.1 f rfl) he
      refine ⟨?_, fun fs hfs => ?_, fun fs hfs x => ?_, fun p hp => ?_⟩
      · have h1 := holders_set hg (e.top ++ rest)
        rw [List.countP_append, List.countP_cons, hi.holders] at h1
        show holders (s.goroutines.set g (e.top ++ rest)) = if e.locked then 1 else 0
        split_ifs at hhold h1 ⊢ <;> omega
      · rcases List.mem_or_eq_of_mem_set hfs with hfs | rfl
        · exact hi.nested fs hfs
        · exact hnest rest hn
      · rcases List.mem_or_eq_of_mem_set hfs with hfs | rfl
        · exact hi.noSeedRet fs hfs x
        · intro hx
          rcases List.mem_append.1 hx with hx | hx
          · exact hret x hx
          · exact hi.noSeedRet _ hmem x (List.mem_cons_of_mem _ hx)
      · rcases List.mem_append.1 hp with hp | hp
        · exact hi.noSeedReturn p hp
        · cases hr : e.ret with
          | none => simp [hr] at hp
          | some r =>
            simp only [hr, Option.map_some', Option.toList_some, List.mem_singleton] at hp
            subst hp
            exact fun h' => hseed (hr.trans (congrArg some h'))
    · cases h

theorem inv_of_reachable {s : State σ} (h : Reachable src s) : Inv s :=
  Machine.reachable_induction inv_init (fun _ _ _ => inv_step) h

end

/-- Under every interleaving, with any goroutines calling either method, no `Seed` call returns,
and while a `Seed` call is past its `Lock` the mutex is locked. A `Seed` call made alone, from any
source state, takes the lock, calls itself, and then no goroutine can run. -/
theorem seed_never_returns {σ : Type} (src : Source σ) :
    (∀ s, Reachable src s → (∀ p ∈ s.returns, p.2 ≠ .seed) ∧
      ∀ fs ∈ s.goroutines, ∀ x pc, Frame.seed x pc ∈ fs → pc ≠ .lock → s.locked = true) ∧
    ∀ (source : σ) (x : BitVec 64), ∃ s',
      run src (init source) [.spawn (.seed x), .step 0, .step 0] = some s' ∧
      s'.locked = true ∧ s'.returns = [] ∧ ∀ g, step src s' (.step g) = none := by
  refine ⟨fun s hs => ?_, fun source x => ?_⟩
  · have hi := inv_of_reachable hs
    refine ⟨hi.noSeedReturn, fun fs hfs x pc hx hpc => ?_⟩
    have hh : (Frame.seed x pc).holds = true := by
      cases pc with
      | lock => exact absurd rfl hpc
      | call => rfl
      | unlock => rfl
      | ret => exact absurd hx (hi.noSeedRet fs hfs x)
    have hpos := List.countP_pos_iff.2 ⟨_, hx, hh⟩
    have hle := countP_le_holders hfs
    have hh := hi.holders
    cases hl : s.locked
    · rw [hl, if_neg Bool.false_ne_true] at hh; omega
    · rfl
  · refine ⟨⟨true, source, [[.seed x .lock, .seed x .unlock]], []⟩, rfl, rfl, rfl, fun g => ?_⟩
    cases g with
    | zero => rfl
    | succ g => simp [step]

/-- A source that counts its draws. -/
def countingSource : Source Nat := ⟨fun n => (BitVec.ofNat 64 n, n + 1), fun x _ => x.toNat⟩

/-- Where a lone `Seed(42)` stops: the mutex locked by it, its recursive call at `Lock`. -/
def stuck : State Nat := ⟨true, 0, [[.seed 42 .lock, .seed 42 .unlock]], []⟩

theorem seed_never_returns_stuck :
    Reachable countingSource stuck ∧ (∀ p ∈ stuck.returns, p.2 ≠ .seed) ∧
      ∀ fs ∈ stuck.goroutines, ∀ x pc, Frame.seed x pc ∈ fs → pc ≠ .lock → stuck.locked = true :=
  have h : Reachable countingSource stuck :=
    .step (.step 0) (.step (.step 0) (.step (.spawn (.seed 42)) (.init 0) rfl) rfl) rfl
  ⟨h, (seed_never_returns countingSource).1 stuck h⟩

/-- The value an `Int63` frame has drawn and not yet returned. -/
def Frame.drawn : Frame → Option (BitVec 64)
  | .int63 (.unlock n) | .int63 (.ret n) => some n
  | _ => none

/-- The value a call returned, if it was an `Int63`. -/
def Ret.value : Ret → Option (BitVec 64)
  | .int63 n => some n
  | .seed => none

/-- The values `Int63` calls returned, in order. -/
def returned (returns : List (Nat × Ret)) : List (BitVec 64) :=
  returns.filterMap fun p => p.2.value

/-- The values drawn by `Int63` frames that have not returned, over all goroutines. -/
def held : List (List Frame) → List (BitVec 64)
  | [] => []
  | fs :: goroutines => fs.filterMap Frame.drawn ++ held goroutines

/-- The first `k` values drawn from the source from state `source`, and the state after them. -/
def draws {σ : Type} (src : Source σ) (source : σ) : Nat → List (BitVec 64) × σ
  | 0 => ([], source)
  | k + 1 =>
    let d := draws src source k
    (d.1 ++ [(src.int63 d.2).1], (src.int63 d.2).2)

/-- The values drawn from `source₀` so far are those returned and those held, each once. -/
def Drawn {σ : Type} (src : Source σ) (source₀ : σ) (s : State σ) : Prop :=
  ∃ k, (draws src source₀ k).2 = s.source ∧
    (returned s.returns ++ held s.goroutines).Perm (draws src source₀ k).1

theorem held_set {goroutines : List (List Frame)} {g : Nat} {fs : List Frame}
    (h : goroutines[g]? = some fs) (fs' : List Frame) :
    (held (goroutines.set g fs') ++ fs.filterMap Frame.drawn).Perm
      (held goroutines ++ fs'.filterMap Frame.drawn) := by
  induction goroutines generalizing g with
  | nil => cases h
  | cons fs₀ goroutines ih =>
    cases g with
    | zero =>
      simp only [List.getElem?_cons_zero, Option.some.injEq] at h
      subst h
      simp only [List.set_cons_zero, held]
      exact List.perm_iff_count.2 fun x => by simp only [List.count_append]; omega
    | succ g =>
      simp only [List.getElem?_cons_succ] at h
      simpa only [List.set_cons_succ, held, List.append_assoc] using (ih h).append_left _

theorem held_append (goroutines : List (List Frame)) (fs : List Frame) :
    held (goroutines ++ [fs]) = held goroutines ++ fs.filterMap Frame.drawn := by
  induction goroutines with
  | nil => simp [held]
  | cons fs' goroutines ih => simp [held, ih]

section

variable {σ : Type} {src : Source σ}

/-- One statement of a frame either leaves the source alone and passes on the value the frame
held, or draws the source's next value and holds it. -/
theorem frameStep_drawn {locked : Bool} {source : σ} {f : Frame} {e : Effect σ}
    (h : frameStep src locked source f = some e) :
    (e.source = source ∧
      e.top.filterMap Frame.drawn ++ (e.ret.bind Ret.value).toList = f.drawn.toList) ∨
    (e.source = (src.int63 source).2 ∧
      e.top.filterMap Frame.drawn ++ (e.ret.bind Ret.value).toList =
        f.drawn.toList ++ [(src.int63 source).1]) := by
  cases f with
  | seed x pc =>
    cases pc with
    | lock | unlock =>
      simp only [frameStep] at h
      split at h <;> cases h
      exact .inl ⟨rfl, rfl⟩
    | call | ret => cases h; exact .inl ⟨rfl, rfl⟩
  | int63 pc =>
    cases pc with
    | call => cases h; exact .inr ⟨rfl, rfl⟩
    | lock | unlock =>
      simp only [frameStep] at h
      split at h <;> cases h
      exact .inl ⟨rfl, rfl⟩
    | ret => cases h; exact .inl ⟨rfl, rfl⟩

theorem filterMap_cons_drawn (f : Frame) (fs : List Frame) :
    (f :: fs).filterMap Frame.drawn = f.drawn.toList ++ fs.filterMap Frame.drawn := by
  cases h : f.drawn <;> simp [h]

theorem returned_append (returns : List (Nat × Ret)) (g : Nat) (r : Option Ret) :
    returned (returns ++ (r.map (g, ·)).toList) = returned returns ++ (r.bind Ret.value).toList := by
  rcases r with _ | _ | n <;> simp [returned, Ret.value]

theorem drawn_step {source₀ : σ} {s s' : State σ} {a : Action} (hd : Drawn src source₀ s)
    (h : step src s a = some s') : Drawn src source₀ s' := by
  obtain ⟨k, hk, hp⟩ := hd
  cases a with
  | spawn m =>
    cases h
    refine ⟨k, hk, ?_⟩
    cases m <;> simpa [held_append, Method.entry, Frame.drawn] using hp
  | step g =>
    simp only [step] at h
    split at h
    · rename_i f rest hg
      obtain ⟨e, he, rfl⟩ := Option.map_eq_some'.1 h
      -- the step replaces what the frame held by what it passes on, and adds what it drew
      have hacc : ∀ extra, e.top.filterMap Frame.drawn ++ (e.ret.bind Ret.value).toList =
          f.drawn.toList ++ extra →
          (returned (s.returns ++ (e.ret.map (g, ·)).toList) ++
            held (s.goroutines.set g (e.top ++ rest))).Perm (returned s.returns ++ held s.goroutines ++ extra) := by
        intro extra ho
        refine List.perm_iff_count.2 fun x => ?_
        have h1 := (held_set hg (e.top ++ rest)).count_eq x
        have h3 := congrArg (List.count x) ho
        simp only [filterMap_cons_drawn, List.filterMap_append, List.count_append] at h1 h3
        simp only [returned_append, List.count_append]
        omega
      rcases frameStep_drawn he with ⟨hs, ho⟩ | ⟨hs, ho⟩
      · exact ⟨k, hk.trans hs.symm, (hacc [] (by simpa using ho)).trans (by simpa using hp)⟩
      · refine ⟨k + 1, by simp [draws, hk, hs], (hacc _ ho).trans ?_⟩
        simpa [draws, hk] using hp.append_right _
    · cases h

/-- Only an `Int63` frame at its draw changes the source's state. -/
theorem eq_call_of_frameStep {locked : Bool} {source : σ} {f : Frame} {e : Effect σ}
    (h : frameStep src locked source f = some e) (hne : e.source ≠ source) : f = .int63 .call := by
  cases f with
  | seed x pc =>
    cases pc <;> simp only [frameStep] at h <;> (try split at h) <;> cases h <;> exact absurd rfl hne
  | int63 pc =>
    cases pc with
    | call => rfl
    | lock | unlock => simp only [frameStep] at h; split at h <;> cases h; exact absurd rfl hne
    | ret => cases h; exact absurd rfl hne

/-- A step that draws is taken by the one holder of the locked mutex. -/
theorem draw_by_holder {s s' : State σ} {g : Nat} (hi : Inv s) (h : step src s (.step g) = some s')
    (hne : s'.source ≠ s.source) :
    ∃ rest, s.goroutines[g]? = some (.int63 .call :: rest) ∧ s.locked = true ∧
      holders s.goroutines = 1 := by
  obtain ⟨f, rest, e, hg, he, rfl⟩ := step_step_inv h
  obtain rfl := eq_call_of_frameStep he hne
  have hpos : 0 < holders s.goroutines :=
    (List.countP_pos_iff.2 ⟨_, .head _, rfl⟩).trans_le (countP_le_holders (List.getElem?_mem hg))
  have hh := hi.holders
  cases hl : s.locked
  · simp [hl] at hh; omega
  · exact ⟨rest, hg, rfl, by simpa [hl] using hh⟩

theorem inv_drawn_run {source₀ : σ} {s s' : State σ} {as : List Action} (hi : Inv s)
    (hd : Drawn src source₀ s) (h : run src s as = some s') : Inv s' ∧ Drawn src source₀ s' :=
  Machine.run_closed (P := fun t => Inv t ∧ Drawn src source₀ t)
    (fun _ _ _ hs h₁ => ⟨inv_step hs.1 h₁, drawn_step hs.2 h₁⟩) ⟨hi, hd⟩ h

end

/-- Under every interleaving of `Int63` and `Seed` calls, at most one frame holds the mutex, and
only that holder draws. The values drawn so far are those returned and those held by calls still
running, each once. -/
theorem int63_draws_each_value_once {σ : Type} (src : Source σ) (source : σ) (as : List Action)
    (s : State σ) (h : run src (init source) as = some s) :
    holders s.goroutines ≤ 1 ∧
    (∀ g s', step src s (.step g) = some s' → s'.source ≠ s.source →
      ∃ rest, s.goroutines[g]? = some (.int63 .call :: rest) ∧ s.locked = true ∧
        holders s.goroutines = 1) ∧
    ∃ k, (draws src source k).2 = s.source ∧
      (returned s.returns ++ held s.goroutines).Perm (draws src source k).1 := by
  obtain ⟨hi, hd⟩ := inv_drawn_run (inv_init source) ⟨0, rfl, .refl _⟩ h
  refine ⟨?_, fun g s' hs hne => draw_by_holder hi hs hne, hd⟩
  rw [hi.holders]
  split <;> omega

/-- Two `Int63` calls: the first draws and releases the mutex, the second draws, and returns
first. -/
def crossedRun : List Action :=
  [.spawn .int63, .spawn .int63, .step 0, .step 0, .step 0, .step 1, .step 1, .step 1, .step 1,
    .step 0]

def crossed : State Nat := ⟨false, 2, [[], []], [(1, .int63 1), (0, .int63 0)]⟩

theorem int63_draws_each_value_once_crossed :
    run countingSource (init 0) crossedRun = some crossed ∧ returned crossed.returns = [1, 0] ∧
      (draws countingSource 0 2).1 = [0, 1] ∧
      holders crossed.goroutines ≤ 1 ∧
      (∀ g s', step countingSource crossed (.step g) = some s' → s'.source ≠ crossed.source →
        ∃ rest, crossed.goroutines[g]? = some (.int63 .call :: rest) ∧ crossed.locked = true ∧
          holders crossed.goroutines = 1) ∧
      ∃ k, (draws countingSource 0 k).2 = crossed.source ∧
        (returned crossed.returns ++ held crossed.goroutines).Perm (draws countingSource 0 k).1 :=
  ⟨rfl, rfl, rfl, int63_draws_each_value_once countingSource 0 crossedRun crossed rfl⟩

end DDTrace.RandSource
