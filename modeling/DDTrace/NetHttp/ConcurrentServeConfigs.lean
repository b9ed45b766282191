import DDTrace.NetHttp.ConcurrentHandler

/-!
# What any interleaving of `WrapHandler`'s calls passes on

The calls of the function `WrapHandler` returns race on the captured `resource` and `cfg.spanOpts`,
but what they race on stays within bounds. Every write of
`cfg.spanOpts` appends one server tag to a value read from it earlier, and every write of
`resource` is a nonempty name the namer gave some request. So under every interleaving, a traced
request's `ServeConfig` has the captured service and finish options, an empty route, a resource
that is the captured one or some request's nonempty name, and the captured span options followed by
at least one server tag and nothing else. It need not have both server tags: when one call writes
back the span options it read before another call's two appends, the other call can be served with
the span kind tag alone (`traced_requests_carry_server_tags`). Appends can be lost but never
duplicated: once all calls return, `cfg.spanOpts` has at most two tags per traced request, at least
two once one was traced, and two interleaved requests keep one pair between them
(`concurrent_calls_lose_appends`).
-/

namespace DDTrace.NetHttp.ConcurrentHandler

variable {FinishOption : Type}

/-- `opts` is `base` followed by server tags only. -/
def Tagged (base opts : List StartSpanOption) : Prop :=
  ∃ ts, opts = base ++ ts ∧ ∀ t ∈ ts, t = spanKindTag ∨ t = componentTag

/-- `r` is the captured resource, or the nonempty name the namer gives one of `reqs`. -/
def Named (sh₀ : WrapState FinishOption) (reqs : List Request) (r : String) : Prop :=
  r = sh₀.resource ∨ ∃ q ∈ reqs, sh₀.cfg.resourceNamer q = r ∧ r ≠ ""

/-- The call has written `cfg.spanOpts` back at least once and not yet returned. -/
def Pc.wrote : Pc → Bool
  | .readComponent | .writeComponent _ | .serve => true
  | _ => false

/-- What a call of a handler that captured `sh₀` can be, among the requests `reqs`: traced once
past its first step and until it returns, holding a value of `cfg.spanOpts` with server tags only,
and done with a `ServeConfig` of the bounded shape. -/
structure CallOk (service : String) (sh₀ : WrapState FinishOption) (reqs : List Request)
    (c : Call FinishOption) : Prop where
  traced : c.pc ≠ .start → c.pc ≠ .done → sh₀.cfg.ignoreRequest c.req = false
  held : ∀ opts, c.pc = .writeKind opts ∨ c.pc = .writeComponent opts →
    Tagged sh₀.cfg.spanOpts opts
  out : ∀ sc, c.out = some sc → sh₀.cfg.ignoreRequest c.req = false ∧ sc.service = service ∧
    sc.finishOpts = sh₀.cfg.finishOpts ∧ sc.route = "" ∧ Named sh₀ reqs sc.resource ∧
    Tagged sh₀.cfg.spanOpts sc.spanOpts ∧ sh₀.cfg.spanOpts.length < sc.spanOpts.length

/-- The captured variables stay within bounds: `cfg` changes only in its span options, which are
the captured ones followed by server tags, at least one once a call has written them back; the
resource is a name some request got; and every call is `CallOk`. -/
structure ShapeInv (service : String) (sh₀ : WrapState FinishOption) (s : State FinishOption) :
    Prop where
  cfg : s.shared.cfg = { sh₀.cfg with spanOpts := s.shared.cfg.spanOpts }
  tagged : Tagged sh₀.cfg.spanOpts s.shared.cfg.spanOpts
  grown : (∃ c ∈ s.calls, c.pc.wrote) → sh₀.cfg.spanOpts.length < s.shared.cfg.spanOpts.length
  named : Named sh₀ (s.calls.map Call.req) s.shared.resource
  calls : ∀ c ∈ s.calls, CallOk service sh₀ (s.calls.map Call.req) c

section

variable {service : String} {sh₀ : WrapState FinishOption}

theorem Tagged.refl (base : List StartSpanOption) : Tagged base base := ⟨[], by simp, by simp⟩

theorem Tagged.append {base opts : List StartSpanOption} (h : Tagged base opts)
    {t : StartSpanOption} (ht : t = spanKindTag ∨ t = componentTag) : Tagged base (opts ++ [t]) := by
  obtain ⟨ts, rfl, hts⟩ := h
  refine ⟨ts ++ [t], by simp, fun x hx => ?_⟩
  rcases List.mem_append.1 hx with hx | hx
  · exact hts x hx
  · rw [List.mem_singleton.1 hx]; exact ht

theorem Tagged.length_le {base opts : List StartSpanOption} (h : Tagged base opts) :
    base.length ≤ opts.length := by
  obtain ⟨ts, rfl, -⟩ := h
  simp

theorem Named.mono {reqs reqs' : List Request} {r : String} (h : Named sh₀ reqs r)
    (hsub : ∀ q ∈ reqs, q ∈ reqs') : Named sh₀ reqs' r := by
  rcases h with h | ⟨q, hq, hn⟩
  · exact .inl h
  · exact .inr ⟨q, hsub q hq, hn⟩

theorem CallOk.mono {reqs reqs' : List Request} {c : Call FinishOption}
    (h : CallOk service sh₀ reqs c) (hsub : ∀ q ∈ reqs, q ∈ reqs') :
    CallOk service sh₀ reqs' c := by
  refine ⟨h.traced, h.held, fun sc hsc => ?_⟩
  obtain ⟨h1, h2, h3, h4, h5, h6⟩ := h.out sc hsc
  exact ⟨h1, h2, h3, h4, h5.mono hsub, h6⟩

/-- A call's step keeps its request, so the requests of the calls do not change. -/
theorem map_req_set {calls : List (Call FinishOption)} {i : Nat} {c c' : Call FinishOption}
    (h : calls[i]? = some c) (hr : c'.req = c.req) :
    (calls.set i c').map Call.req = calls.map Call.req := by
  apply List.ext_getElem?
  intro j
  rw [List.getElem?_map, List.getElem?_map]
  by_cases hij : i = j
  · subst hij
    rw [List.getElem?_set_self (List.getElem?_eq_some_iff.1 h).1, h]
    simp [hr]
  · rw [List.getElem?_set_ne hij]

theorem callStep_req {sh : WrapState FinishOption} {c : Call FinishOption}
    {r : WrapState FinishOption × Call FinishOption} (h : callStep service sh c = some r) :
    r.2.req = c.req := by
  unfold callStep at h
  split at h <;> (try split at h) <;> cases h <;> rfl

/-- A `cfg` that differs from the captured one only in its span options reads the same fields. -/
theorem fields_of_cfg_eq {cfg : Config FinishOption} (h : cfg = { sh₀.cfg with spanOpts := cfg.spanOpts }) :
    cfg.ignoreRequest = sh₀.cfg.ignoreRequest ∧ cfg.resourceNamer = sh₀.cfg.resourceNamer ∧
      cfg.finishOpts = sh₀.cfg.finishOpts ∧
      ∀ opts, { cfg with spanOpts := opts } = { sh₀.cfg with spanOpts := opts } := by
  rw [h]
  exact ⟨rfl, rfl, rfl, fun _ => rfl⟩

/-- What one step of a call does to the captured variables and to the call, within the bounds:
`cfg` changes only in its span options, which stay server-tagged and are longer than the captured
ones after a write, the resource stays a name some request got, and the call stays `CallOk`. -/
theorem callStep_shape {s : State FinishOption} {c : Call FinishOption}
    {r : WrapState FinishOption × Call FinishOption} (hi : ShapeInv service sh₀ s)
    (hmem : c ∈ s.calls) (h : callStep service s.shared c = some r) :
    r.1.cfg = { sh₀.cfg with spanOpts := r.1.cfg.spanOpts } ∧
      Tagged sh₀.cfg.spanOpts r.1.cfg.spanOpts ∧ Named sh₀ (s.calls.map Call.req) r.1.resource ∧
      CallOk service sh₀ (s.calls.map Call.req) r.2 ∧
      ((∃ x ∈ s.calls, x.pc.wrote) ∨ r.2.pc.wrote = true →
        sh₀.cfg.spanOpts.length < r.1.cfg.spanOpts.length) := by
  obtain ⟨hign, hnamer, hfin, hwith⟩ := fields_of_cfg_eq hi.cfg
  have hok := hi.calls c hmem
  obtain ⟨req, pc, out⟩ := c
  have hreq : req ∈ s.calls.map Call.req := List.mem_map_of_mem Call.req hmem
  cases pc with
  | start =>
    simp only [callStep] at h
    split at h
    · cases h
      exact ⟨hi.cfg, hi.tagged, hi.named, ⟨by simp, by simp, hok.out⟩,
        fun hw => hi.grown (hw.resolve_right (by simp [Pc.wrote]))⟩
    · rename_i hno
      cases h
      have hcfg : (if s.shared.cfg.resourceNamer req ≠ "" then
          { s.shared with resource := s.shared.cfg.resourceNamer req } else s.shared).cfg =
          s.shared.cfg := by split <;> rfl
      refine ⟨by rw [hcfg]; exact hi.cfg, by rw [hcfg]; exact hi.tagged, ?_,
        ⟨fun _ _ => by simpa [hign] using hno, by simp, hok.out⟩, fun hw => ?_⟩
      · split
        · rename_i hn
          exact .inr ⟨req, hreq, by rw [← hnamer], hn⟩
        · exact hi.named
      · rw [hcfg]
        exact hi.grown (hw.resolve_right (by simp [Pc.wrote]))
  | readKind =>
    cases h
    refine ⟨hi.cfg, hi.tagged, hi.named, ⟨fun _ _ => hok.traced (by simp) (by simp), ?_, hok.out⟩,
      fun hw => hi.grown (hw.resolve_right (by simp [Pc.wrote]))⟩
    rintro opts (h | h) <;> cases h
    exact hi.tagged
  | writeKind opts =>
    cases h
    have hopts := hok.held opts (.inl rfl)
    refine ⟨hwith _, hopts.append (.inl rfl), hi.named,
      ⟨fun _ _ => hok.traced (by simp) (by simp), by simp, hok.out⟩, fun _ => ?_⟩
    simpa using Nat.lt_succ_of_le hopts.length_le
  | readComponent =>
    cases h
    refine ⟨hi.cfg, hi.tagged, hi.named, ⟨fun _ _ => hok.traced (by simp) (by simp), ?_, hok.out⟩,
      fun _ => hi.grown ⟨_, hmem, rfl⟩⟩
    rintro opts (h | h) <;> cases h
    exact hi.tagged
  | writeComponent opts =>
    cases h
    have hopts := hok.held opts (.inr rfl)
    refine ⟨hwith _, hopts.append (.inr rfl), hi.named,
      ⟨fun _ _ => hok.traced (by simp) (by simp), by simp, hok.out⟩, fun _ => ?_⟩
    simpa using Nat.lt_succ_of_le hopts.length_le
  | serve =>
    cases h
    have hgrown := hi.grown ⟨_, hmem, rfl⟩
    refine ⟨hi.cfg, hi.tagged, hi.named, ⟨by simp, by simp, fun sc hsc => ?_⟩,
      fun hw => hi.grown (hw.resolve_right (by simp [Pc.wrote]))⟩
    cases hsc
    exact ⟨hok.traced (by simp) (by simp), rfl, hfin, rfl, hi.named, hi.tagged, hgrown⟩
  | done => cases h

/-- One step of a call keeps the bounds; the other calls are untouched. -/
theorem shapeInv_callStep {s : State FinishOption} {i : Nat} {c : Call FinishOption}
    {r : WrapState FinishOption × Call FinishOption} (hi : ShapeInv service sh₀ s)
    (hc : s.calls[i]? = some c) (h : callStep service s.shared c = some r) :
    ShapeInv service sh₀ ⟨r.1, s.calls.set i r.2⟩ := by
  have hreqs := map_req_set hc (callStep_req h)
  obtain ⟨hcfg, htag, hnamed, hok, hgrown⟩ := callStep_shape hi (List.getElem?_mem hc) h
  refine ⟨hcfg, htag, fun ⟨x, hx, hxw⟩ => ?_, by rw [hreqs]; exact hnamed, fun x hx => ?_⟩
  · rcases List.mem_or_eq_of_mem_set hx with hx | rfl
    · exact hgrown (.inl ⟨x, hx, hxw⟩)
    · exact hgrown (.inr hxw)
  · rw [hreqs]
    rcases List.mem_or_eq_of_mem_set hx with hx | rfl
    · exact hi.calls x hx
    · exact hok

theorem shapeInv_step {s s' : State FinishOption} {a : Action} (hi : ShapeInv service sh₀ s)
    (h : step service s a = some s') : ShapeInv service sh₀ s' := by
  cases a with
  | spawn req =>
    cases h
    have hsub : ∀ q ∈ s.calls.map Call.req,
        q ∈ (s.calls ++ [(⟨req, .start, none⟩ : Call FinishOption)]).map Call.req :=
      fun q hq => by simp only [List.map_append, List.mem_append]; exact .inl hq
    refine ⟨hi.cfg, hi.tagged, fun hw => hi.grown ?_, hi.named.mono hsub, fun x hx => ?_⟩
    · obtain ⟨x, hx, hxw⟩ := hw
      rcases List.mem_append.1 hx with hx | hx
      · exact ⟨x, hx, hxw⟩
      · rw [List.mem_singleton.1 hx] at hxw; cases hxw
    · rcases List.mem_append.1 hx with hx | hx
      · exact (hi.calls x hx).mono hsub
      · rw [List.mem_singleton.1 hx]
        exact ⟨fun h => absurd rfl h, by simp, by simp⟩
  | step i =>
    simp only [step] at h
    split at h
    · rename_i c hc
      obtain ⟨r, hr, rfl⟩ := Option.map_eq_some'.1 h
      exact shapeInv_callStep hi hc hr
    · cases h

theorem shapeInv_init : ShapeInv service sh₀ ⟨sh₀, []⟩ :=
  ⟨by rfl, Tagged.refl _, fun ⟨_, hx, _⟩ => absurd hx (List.not_mem_nil _), .inl rfl,
    fun _ hx => absurd hx (List.not_mem_nil _)⟩

theorem shapeInv_of_reachable {s : State FinishOption} (h : Reachable service sh₀ s) :
    ShapeInv service sh₀ s :=
  have ⟨_, h⟩ := h
  Machine.run_closed (fun _ _ _ hi h => shapeInv_step hi h) shapeInv_init h

/-- The first step of a traced call: the resource namer's name, if any, replaces the captured
resource. -/
theorem callStep_start {cfg : Config FinishOption} {r : Request} (resource : String)
    (h : cfg.ignoreRequest r = false) :
    callStep service ⟨cfg, resource⟩ ⟨r, .start, none⟩ =
      some (⟨cfg, if cfg.resourceNamer r = "" then resource else cfg.resourceNamer r⟩,
        ⟨r, .readKind, none⟩) := by
  by_cases hn : cfg.resourceNamer r = "" <;> simp [callStep, h, hn]

/-- Both calls take their first step, each naming its resource or not; `cfg` is untouched. -/
theorem run_starts_traced {sh : WrapState FinishOption} {rA rB : Request}
    (hA : sh.cfg.ignoreRequest rA = false) (hB : sh.cfg.ignoreRequest rB = false) :
    ∃ sh', sh'.cfg = sh.cfg ∧ run service ⟨sh, []⟩ [.spawn rA, .spawn rB, .step 0, .step 1] =
      some ⟨sh', [⟨rA, .readKind, none⟩, ⟨rB, .readKind, none⟩]⟩ := by
  obtain ⟨cfg, resource⟩ := sh
  let named (r : Request) (res : String) := if cfg.resourceNamer r = "" then res else cfg.resourceNamer r
  exact ⟨⟨cfg, named rB (named rA resource)⟩, rfl,
    by simp [run, step, callStep_start _ hA, callStep_start _ hB, named]⟩

end

/-- After both first steps, the first call reads and writes back both appends while the second
holds the span options it read before them; the second writes them back, the first is served, and
the second runs to its end. -/
def componentLostTail : List Action :=
  [.step 0, .step 1, .step 0, .step 0, .step 0, .step 1, .step 0, .step 1, .step 1, .step 1]

def componentLostSchedule (rA rB : Request) : List Action :=
  [.spawn rA, .spawn rB, .step 0, .step 1] ++ componentLostTail

/-- Where that schedule ends: the first call served with the span kind tag alone. -/
def componentLostState (service : String) (sh : WrapState FinishOption) (rA rB : Request) :
    State FinishOption :=
  ⟨{ sh with cfg := { sh.cfg with spanOpts := sh.cfg.spanOpts ++ [spanKindTag] ++ [componentTag] } },
    [⟨rA, .done, some ⟨service, sh.resource, sh.cfg.finishOpts, sh.cfg.spanOpts ++ [spanKindTag],
      ""⟩⟩,
    ⟨rB, .done, some ⟨service, sh.resource, sh.cfg.finishOpts,
      sh.cfg.spanOpts ++ [spanKindTag] ++ [componentTag], ""⟩⟩]⟩

theorem run_componentLostTail (service : String) (sh : WrapState FinishOption) (rA rB : Request) :
    run service ⟨sh, [⟨rA, .readKind, none⟩, ⟨rB, .readKind, none⟩]⟩ componentLostTail =
      some (componentLostState service sh rA rB) := by
  rw [show componentLostTail = [.step 0, .step 1, .step 0, .step 0, .step 0] ++
    [.step 1, .step 0, .step 1, .step 1, .step 1] from rfl]
  exact Machine.run_append_of rfl rfl

/-- Under every interleaving of `WrapHandler`'s calls, a traced request's `ServeConfig` has the
captured service and finish options, a request's name or the captured resource, and the captured
span options followed by at least one server tag; some interleaving gives only the span kind tag. -/
theorem traced_requests_carry_server_tags (service : String) (sh₀ : WrapState FinishOption) :
    (∀ s, Reachable service sh₀ s → ∀ c ∈ s.calls, ∀ sc, c.out = some sc →
      sh₀.cfg.ignoreRequest c.req = false ∧ sc.service = service ∧
      sc.finishOpts = sh₀.cfg.finishOpts ∧ sc.route = "" ∧
      (sc.resource = sh₀.resource ∨
        ∃ c' ∈ s.calls, sh₀.cfg.resourceNamer c'.req = sc.resource ∧ sc.resource ≠ "") ∧
      ∃ ts, ts ≠ [] ∧ sc.spanOpts = sh₀.cfg.spanOpts ++ ts ∧
        ∀ t ∈ ts, t = spanKindTag ∨ t = componentTag) ∧
    ∀ rA rB, sh₀.cfg.ignoreRequest rA = false → sh₀.cfg.ignoreRequest rB = false →
      ∃ s, Reachable service sh₀ s ∧ ∃ c ∈ s.calls, c.req = rA ∧
        c.out.map ServeConfig.spanOpts = some (sh₀.cfg.spanOpts ++ [spanKindTag]) := by
  refine ⟨fun s hs c hc sc hsc => ?_, fun rA rB hA hB => ?_⟩
  · obtain ⟨hign, hsvc, hfin, hroute, hnamed, ⟨ts, hts, htags⟩, hlt⟩ :=
      ((shapeInv_of_reachable hs).calls c hc).out sc hsc
    refine ⟨hign, hsvc, hfin, hroute, ?_, ts, fun h => by simp [hts, h] at hlt, hts, htags⟩
    rcases hnamed with h | ⟨q, hq, hn⟩
    · exact .inl h
    · obtain ⟨c', hc', rfl⟩ := List.mem_map.1 hq
      exact .inr ⟨c', hc', hn⟩
  · obtain ⟨sh', hcfg, hrun⟩ := @run_starts_traced FinishOption service sh₀ rA rB hA hB
    have hs : run service ⟨sh₀, []⟩ (componentLostSchedule rA rB) =
        some (componentLostState service sh' rA rB) :=
      Machine.run_append_of hrun (run_componentLostTail service sh' rA rB)
    exact ⟨_, ⟨_, hs⟩, _, List.mem_cons_self _ _, rfl, by simp [componentLostState, hcfg]⟩

/-- How many of its two writes of `cfg.spanOpts` a call has made; an untraced call makes none. -/
def Call.writes (c : Call FinishOption) : Nat :=
  match c.pc with
  | .readComponent | .writeComponent _ => 1
  | .serve => 2
  | .done => if c.out.isSome then 2 else 0
  | _ => 0

/-- The writes the calls have made. -/
def totalWrites : List (Call FinishOption) → Nat
  | [] => 0
  | c :: cs => c.writes + totalWrites cs

/-- The call holds a value of `cfg.spanOpts` it read, or is between its two writes. -/
def Pc.mid : Pc → Bool
  | .writeKind _ | .readComponent | .writeComponent _ => true
  | _ => false

/-- The call has made both writes and is served, or about to be. -/
def Call.served (c : Call FinishOption) : Bool :=
  match c.pc with
  | .serve => true
  | .done => c.out.isSome
  | _ => false

/-- Each write puts back a value read earlier with one tag more, so `cfg.spanOpts`, and every value a
call holds, is at most one tag longer than the captured one per write made; once a call is served,
it is two tags longer unless some call is between its reads and writes. -/
structure AppendsInv (sh₀ : WrapState FinishOption) (s : State FinishOption) : Prop where
  fresh : ∀ c ∈ s.calls, c.pc ≠ .done → c.out = none
  le : s.shared.cfg.spanOpts.length ≤ sh₀.cfg.spanOpts.length + totalWrites s.calls
  held : ∀ c ∈ s.calls, ∀ opts, c.pc = .writeKind opts ∨ c.pc = .writeComponent opts →
    opts.length ≤ sh₀.cfg.spanOpts.length + totalWrites s.calls
  second : ∀ c ∈ s.calls, ∀ opts, c.pc = .writeComponent opts →
    sh₀.cfg.spanOpts.length < opts.length
  low : (∃ c ∈ s.calls, c.served) →
    sh₀.cfg.spanOpts.length + 2 ≤ s.shared.cfg.spanOpts.length ∨ ∃ c ∈ s.calls, c.pc.mid

theorem totalWrites_set :
    ∀ {l : List (Call FinishOption)} {i : Nat} {x y : Call FinishOption}, l[i]? = some x →
      totalWrites (l.set i y) + x.writes = totalWrites l + y.writes
  | [], _, _, _, h => by simp at h
  | a :: l, 0, x, y, h => by
    simp only [List.getElem?_cons_zero, Option.some.injEq] at h
    subst h
    simp only [List.set_cons_zero, totalWrites]
    omega
  | a :: l, i + 1, x, y, h => by
    have := totalWrites_set (y := y) (List.getElem?_cons_succ ▸ h)
    simp only [List.set_cons_succ, totalWrites]
    omega

theorem totalWrites_concat (l : List (Call FinishOption)) (c : Call FinishOption) :
    totalWrites (l ++ [c]) = totalWrites l + c.writes := by
  induction l with
  | nil => simp [totalWrites]
  | cons a l ih =>
    show a.writes + totalWrites (l ++ [c]) = a.writes + totalWrites l + c.writes
    rw [ih, Nat.add_assoc]

theorem mem_set_of_ne {α : Type} {l : List α} {i : Nat} {c x y : α} (hc : l[i]? = some c)
    (hx : x ∈ l) (hne : x ≠ c) : x ∈ l.set i y := by
  obtain ⟨j, hj⟩ := List.mem_iff_getElem?.1 hx
  have hij : i ≠ j := by rintro rfl; exact hne (Option.some.inj (hj.symm.trans hc))
  exact List.getElem?_mem ((List.getElem?_set_ne hij).trans hj)

section

variable {service : String} {sh₀ : WrapState FinishOption}

/-- Replacing call `i` by `c'` keeps the invariant when `c'` has made at least the writes `c` had
and satisfies the invariant's clauses for itself, with `sh` as the captured variables. -/
theorem AppendsInv.set {s : State FinishOption} {i : Nat} {c c' : Call FinishOption}
    {sh : WrapState FinishOption} (hi : AppendsInv sh₀ s) (hc : s.calls[i]? = some c)
    (hmono : c.writes ≤ c'.writes) (hfresh : c'.pc ≠ .done → c'.out = none)
    (hle : sh.cfg.spanOpts.length + c.writes ≤
      sh₀.cfg.spanOpts.length + totalWrites s.calls + c'.writes)
    (hheld : ∀ opts, c'.pc = .writeKind opts ∨ c'.pc = .writeComponent opts →
      opts.length + c.writes ≤ sh₀.cfg.spanOpts.length + totalWrites s.calls + c'.writes)
    (hsecond : ∀ opts, c'.pc = .writeComponent opts → sh₀.cfg.spanOpts.length < opts.length)
    (hlow : c'.pc.mid ∨ sh₀.cfg.spanOpts.length + 2 ≤ sh.cfg.spanOpts.length ∨
      sh.cfg.spanOpts = s.shared.cfg.spanOpts ∧ c.pc.mid = false ∧ (c'.served → c.served)) :
    AppendsInv sh₀ ⟨sh, s.calls.set i c'⟩ := by
  have hW := totalWrites_set (y := c') hc
  have hmem := List.getElem?_mem hc
  have hc' : c' ∈ s.calls.set i c' := List.mem_set _ _ (List.getElem?_eq_some_iff.1 hc).1 _
  refine ⟨fun x hx => ?_, by dsimp only; omega, fun x hx opts ho => ?_, fun x hx => ?_, ?_⟩
  · rcases List.mem_or_eq_of_mem_set hx with hx | rfl
    · exact hi.fresh x hx
    · exact hfresh
  · rcases List.mem_or_eq_of_mem_set hx with hx | rfl
    · have := hi.held x hx opts ho; dsimp only; omega
    · have := hheld opts ho; dsimp only; omega
  · rcases List.mem_or_eq_of_mem_set hx with hx | rfl
    · exact hi.second x hx
    · exact hsecond
  · rintro ⟨x, hx, hxs⟩
    rcases hlow with hmid | hlen | ⟨hsame, hcmid, hserved⟩
    · exact .inr ⟨c', hc', hmid⟩
    · exact .inl hlen
    · have hpre : ∃ x ∈ s.calls, x.served := by
        rcases List.mem_or_eq_of_mem_set hx with hx | rfl
        · exact ⟨x, hx, hxs⟩
        · exact ⟨c, hmem, hserved hxs⟩
      rcases hi.low hpre with hlen | ⟨y, hy, hymid⟩
      · exact .inl (hsame ▸ hlen)
      · exact .inr ⟨y, mem_set_of_ne hc hy (by rintro rfl; simp [hcmid] at hymid), hymid⟩

/-- One step of a call keeps the count of appends. -/
theorem appendsInv_callStep {s : State FinishOption} {i : Nat} {c : Call FinishOption}
    {r : WrapState FinishOption × Call FinishOption} (hs : ShapeInv service sh₀ s)
    (hi : AppendsInv sh₀ s) (hc : s.calls[i]? = some c) (h : callStep service s.shared c = some r) :
    AppendsInv sh₀ ⟨r.1, s.calls.set i r.2⟩ := by
  have hmem := List.getElem?_mem hc
  have hle := hi.le
  obtain ⟨req, pc, out⟩ := c
  have hout : pc ≠ .done → out = none := hi.fresh _ hmem
  cases pc with
  | start =>
    obtain rfl := hout (by simp)
    obtain ⟨sh, c'⟩ := r
    have hr : sh.cfg = s.shared.cfg ∧ (c' = ⟨req, .done, none⟩ ∨ c' = ⟨req, .readKind, none⟩) := by
      simp only [callStep] at h
      split at h <;> cases h
      · exact ⟨rfl, .inl rfl⟩
      · exact ⟨by split <;> rfl, .inr rfl⟩
    obtain ⟨hcfg, rfl | rfl⟩ := hr <;>
      exact hi.set hc (by simp [Call.writes]) (by simp) (by simpa [hcfg, Call.writes] using hle)
        (by simp) (by simp) (.inr (.inr ⟨by rw [hcfg], rfl, by simp [Call.served]⟩))
  | readKind =>
    cases h
    exact hi.set hc le_rfl (fun _ => hout (by simp)) (by simpa [Call.writes] using hle)
      (by simpa [Call.writes] using hle) (by simp) (.inl rfl)
  | writeKind opts =>
    cases h
    have := hi.held _ hmem opts (.inl rfl)
    exact hi.set hc (by simp [Call.writes]) (fun _ => hout (by simp))
      (by simp [Call.writes]; omega) (by simp) (by simp) (.inl rfl)
  | readComponent =>
    cases h
    have hgrown := hs.grown ⟨_, hmem, rfl⟩
    exact hi.set hc le_rfl (fun _ => hout (by simp)) (by simpa [Call.writes] using hle)
      (by simpa [Call.writes] using hle) (by simpa using hgrown) (.inl rfl)
  | writeComponent opts =>
    cases h
    have := hi.held _ hmem opts (.inr rfl)
    have := hi.second _ hmem opts rfl
    exact hi.set hc (by simp [Call.writes]) (fun _ => hout (by simp))
      (by simp [Call.writes]; omega) (by simp) (by simp) (.inr (.inl (by simp; omega)))
  | serve =>
    cases h
    exact hi.set hc (by simp [Call.writes]) (by simp) (by simpa [Call.writes] using hle) (by simp)
      (by simp) (.inr (.inr ⟨rfl, rfl, fun _ => rfl⟩))
  | done => cases h

theorem appendsInv_step {s s' : State FinishOption} {a : Action} (hs : ShapeInv service sh₀ s)
    (hi : AppendsInv sh₀ s) (h : step service s a = some s') : AppendsInv sh₀ s' := by
  cases a with
  | spawn req =>
    cases h
    have hW : totalWrites (s.calls ++ [(⟨req, .start, none⟩ : Call FinishOption)]) =
        totalWrites s.calls := by rw [totalWrites_concat]; rfl
    refine ⟨fun x hx => ?_, hW ▸ hi.le, fun x hx => hW ▸ ?_, fun x hx => ?_, fun ⟨x, hx, hxs⟩ => ?_⟩
    all_goals rcases List.mem_append.1 hx with hx | hx
    · exact hi.fresh x hx
    · rw [List.mem_singleton.1 hx]; exact fun _ => rfl
    · exact hi.held x hx
    · rw [List.mem_singleton.1 hx]; simp
    · exact hi.second x hx
    · rw [List.mem_singleton.1 hx]; simp
    · rcases hi.low ⟨x, hx, hxs⟩ with hlen | ⟨y, hy, hymid⟩
      · exact .inl hlen
      · exact .inr ⟨y, List.mem_append_left _ hy, hymid⟩
    · rw [List.mem_singleton.1 hx] at hxs; cases hxs
  | step i =>
    simp only [step] at h
    split at h
    · rename_i c hc
      obtain ⟨r, hr, rfl⟩ := Option.map_eq_some'.1 h
      exact appendsInv_callStep hs hi hc hr
    · cases h

theorem appendsInv_of_reachable {s : State FinishOption} (h : Reachable service sh₀ s) :
    AppendsInv sh₀ s := by
  have ⟨_, h⟩ := h
  exact (Machine.run_closed (P := fun t => ShapeInv service sh₀ t ∧ AppendsInv sh₀ t)
    (fun _ _ _ hi h => ⟨shapeInv_step hi.1 h, appendsInv_step hi.1 hi.2 h⟩)
    ⟨shapeInv_init, by simp, by simp, by simp, by simp, by simp⟩ h).2

/-- Once every call has returned, each traced call made both its writes. -/
theorem totalWrites_of_done {calls : List (Call FinishOption)} (h : ∀ c ∈ calls, c.pc = .done) :
    totalWrites calls = 2 * calls.countP (fun c => c.out.isSome) := by
  induction calls with
  | nil => rfl
  | cons c calls ih =>
    have hc := h c (List.mem_cons_self _ _)
    simp only [totalWrites, List.countP_cons, Call.writes, hc,
      ih fun x hx => h x (List.mem_cons_of_mem _ hx)]
    split <;> omega

/-- Both calls name their resource, the second last. -/
theorem run_starts {resource : String} {cfg : Config FinishOption} {rA rB : Request}
    (hA : cfg.ignoreRequest rA = false) (hB : cfg.ignoreRequest rB = false)
    (hnB : cfg.resourceNamer rB ≠ "") :
    run service ⟨⟨cfg, resource⟩, []⟩ [.spawn rA, .spawn rB, .step 0, .step 1] =
      some ⟨⟨cfg, cfg.resourceNamer rB⟩, [⟨rA, .readKind, none⟩, ⟨rB, .readKind, none⟩]⟩ := by
  by_cases hnA : cfg.resourceNamer rA = "" <;> simp [run, step, callStep, hA, hB, hnA, hnB]

/-- Then the two calls read `cfg.spanOpts` before either writes it back, for each append, and build
their `ServeConfig`s last. -/
theorem run_lockstep (sh : WrapState FinishOption) (rA rB : Request) :
    run service ⟨sh, [⟨rA, .readKind, none⟩, ⟨rB, .readKind, none⟩]⟩
        (List.replicate 5 [.step 0, .step 1]).flatten =
      some ⟨{ sh with
          cfg := { sh.cfg with spanOpts := sh.cfg.spanOpts ++ [spanKindTag] ++ [componentTag] } },
        [⟨rA, .done, some ⟨service, sh.resource, sh.cfg.finishOpts,
          sh.cfg.spanOpts ++ [spanKindTag] ++ [componentTag], ""⟩⟩,
        ⟨rB, .done, some ⟨service, sh.resource, sh.cfg.finishOpts,
          sh.cfg.spanOpts ++ [spanKindTag] ++ [componentTag], ""⟩⟩]⟩ := rfl

end

/-- Under every interleaving of `WrapHandler`'s calls, once all return, `cfg.spanOpts` has grown
by at most two tags per traced request and at least two once one was traced; two interleaved
traced requests both get the second's name and keep one pair of tags. -/
theorem concurrent_calls_lose_appends (service : String) (sh₀ : WrapState FinishOption) :
    (∀ s, Reachable service sh₀ s → (∀ c ∈ s.calls, c.pc = .done) →
      ∃ ts, s.shared.cfg.spanOpts = sh₀.cfg.spanOpts ++ ts ∧
        ts.length ≤ 2 * s.calls.countP (fun c => c.out.isSome) ∧
        (0 < s.calls.countP (fun c => c.out.isSome) → 2 ≤ ts.length)) ∧
    ∀ rA rB, sh₀.cfg.ignoreRequest rA = false → sh₀.cfg.ignoreRequest rB = false →
      sh₀.cfg.resourceNamer rB ≠ "" →
      ∃ s, Reachable service sh₀ s ∧ s.calls.map Call.req = [rA, rB] ∧
        (∀ c ∈ s.calls, c.pc = .done ∧ ∃ sc, c.out = some sc ∧
          sc.resource = sh₀.cfg.resourceNamer rB ∧ sc.spanOpts = sh₀.cfg.spanOpts ++ serverTags) ∧
        s.shared.cfg.spanOpts = sh₀.cfg.spanOpts ++ serverTags := by
  refine ⟨fun s hs hd => ?_, fun rA rB hA hB hnB => ?_⟩
  · obtain ⟨ts, hts, -⟩ := (shapeInv_of_reachable hs).tagged
    have hi := appendsInv_of_reachable hs
    have hle := hi.le
    rw [totalWrites_of_done hd, hts, List.length_append] at hle
    refine ⟨ts, hts, by omega, fun hpos => ?_⟩
    obtain ⟨c, hc, hout⟩ := List.countP_pos_iff.1 hpos
    rcases hi.low ⟨c, hc, by simpa [Call.served, hd c hc] using hout⟩ with hlen | ⟨x, hx, hmid⟩
    · rw [hts, List.length_append] at hlen
      omega
    · simp [hd x hx, Pc.mid] at hmid
  · obtain ⟨cfg, resource⟩ := sh₀
    have hrun := Machine.run_append_of (@run_starts _ service resource cfg rA rB hA hB hnB)
      (run_lockstep ⟨cfg, cfg.resourceNamer rB⟩ rA rB)
    refine ⟨_, ⟨_, hrun⟩, rfl, ?_, by simp [serverTags_eq]⟩
    simp [serverTags_eq]

end DDTrace.NetHttp.ConcurrentHandler
