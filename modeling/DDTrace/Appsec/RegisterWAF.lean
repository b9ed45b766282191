import DDTrace.Appsec.Addresses

/-!
# `registerWAF`: the WAF listeners, registered whole or not at all

`registerWAF` checks the WAF's health, creates a handle for the rules, reads the rule's addresses
and registers one `dyngo` listener for the HTTP addresses and one for the gRPC addresses it
supports. It returns an unregister function that removes both listeners and closes the handle.
Every error return after the handle exists goes through the deferred `if err != nil
{ waf.Close() }`, which reads the named result `err`: the inner `err` of the `enableRCBlocking`
check is scoped to its `if`, so that failure is only logged.

The WAF library, `dyngo` and `enableRCBlocking` are not under src/. Their results are parameters
(`WAFLib`); `dyngo`'s registry and the handles are the state `World` that `registerWAF` changes.
-/

namespace DDTrace.Appsec

/-- The obfuscator regexes of the appsec configuration. -/
structure ObfuscatorConfig where
  keyRegex : String
  valueRegex : String

/-- The fields of the appsec configuration `registerWAF` reads. -/
structure Config where
  rules : List UInt8
  obfuscator : ObfuscatorConfig
  wafTimeout : Nat

/-- Modelled from the spec: the results of the collaborators that are not under src/.
`newHandle` gives the created handle's `Addresses()`; `enableRCBlocking` is given the handle. -/
structure WAFLib where
  health : Option String
  newHandle : List UInt8 → String → String → Except String (List String)
  enableRCBlocking : Nat → Option String

/-- The event listener built by `newHTTPWAFEventListener` or `newGRPCWAFEventListener`, with the
arguments the constructor keeps (the gRPC one ignores its addresses). -/
inductive Listener
  | http (handle : Nat) (addresses : List String) (timeout : Nat)
  | grpc (handle : Nat) (timeout : Nat)
  deriving DecidableEq, Repr

inductive LogEntry
  | debug (msg : String)
  | error (msg : String)
  deriving DecidableEq, Repr

/-- Modelled from the spec: `dyngo`'s registered listeners under the ids `Register` gave them,
the WAF handles by creation index with whether each is closed, and the log. Every id is below
`nextID`, so the next registration's id is fresh. -/
structure World where
  listeners : List (Nat × Listener)
  nextID : Nat
  handles : List Bool
  log : List LogEntry
  ids_lt : ∀ p ∈ listeners, p.1 < nextID

/-- `fmt`'s `%v` of a `[]string`: the elements between brackets, separated by spaces. -/
def formatStrings (xs : List String) : String := "[" ++ " ".intercalate xs ++ "]"

namespace World

def addLog (w : World) (e : LogEntry) : World := { w with log := w.log ++ [e] }

/-- `waf.NewHandle` succeeding: a new open handle, whose index is returned. -/
def newHandle (w : World) : Nat × World := (w.handles.length, { w with handles := w.handles ++ [false] })

/-- `(*waf.Handle).Close`. -/
def closeHandle (w : World) (h : Nat) : World := { w with handles := w.handles.set h true }

/-- The `UnregisterFunc` that `dyngo.Register` returns for the listener registered as `id`. -/
def unregister (id : Nat) (w : World) : World :=
  { w with
    listeners := w.listeners.filter fun p => p.1 ≠ id
    ids_lt := fun p hp => w.ids_lt p (List.mem_of_mem_filter hp) }

/-- `dyngo.Register`: the listener is added under a fresh id. -/
def register (w : World) (l : Listener) : (World → World) × World :=
  (unregister w.nextID,
    { w with
      listeners := w.listeners ++ [(w.nextID, l)]
      nextID := w.nextID + 1
      ids_lt := fun p hp => by
        rcases List.mem_append.1 hp with hp | hp
        · exact Nat.lt_succ_of_lt (w.ids_lt p hp)
        · rw [List.mem_singleton.1 hp]; exact Nat.lt_succ_self _ })

/-- `if len(addresses) > 0 { log.Debug(...); unregister = dyngo.Register(l) }`, for the HTTP and
the gRPC listener alike. -/
def registerIf (w : World) (kind : String) (addresses : List String) (l : Listener) :
    Option (World → World) × World :=
  if addresses.length > 0 then
    let r := (w.addLog (.debug ("appsec: registering " ++ kind ++ " waf listening to addresses " ++
      formatStrings addresses))).register l
    (some r.1, r.2)
  else (none, w)

/-- `else if len(notSupported) > 0 { log.Debug(...) }`. -/
def logNotSupported (w : World) (notSupported : List String) : World :=
  if notSupported.length > 0 then
    w.addLog (.debug ("appsec: the addresses present in the rule are partially supported: " ++
      "not supported=" ++ formatStrings notSupported))
  else w

/-- `if err := a.enableRCBlocking(...); err != nil { log.Error(...) }`: the `err` is the
`if`'s own. -/
def logRCBlocking (w : World) : Option String → World
  | some err => w.addLog (.error ("appsec: Remote config: cannot enable blocking, " ++
      "rules data won't be updated: " ++ err))
  | none => w

end World

section

variable (cfg : Config) (lib : WAFLib)

/-- The body of `registerWAF` from `ruleAddresses := waf.Addresses()` to its last return, with
the created handle `h`. -/
def registerListeners (h : Nat) (ruleAddresses : List String) (w : World) :
    Except String (World → World) × World :=
  if ruleAddresses.length = 0 then (.error "no addresses found in the rule", w) else
  let (httpAddresses, grpcAddresses, notSupported) := supportedAddresses ruleAddresses
  if httpAddresses.length = 0 && grpcAddresses.length = 0 then
    (.error ("the addresses present in the rule are not supported: " ++
      formatStrings notSupported), w)
  else
    let w := w.logNotSupported notSupported
    let (unregisterHTTP, w) :=
      w.registerIf "http" httpAddresses (.http h httpAddresses cfg.wafTimeout)
    let (unregisterGRPC, w) := w.registerIf "grpc" grpcAddresses (.grpc h cfg.wafTimeout)
    let w := w.logRCBlocking (lib.enableRCBlocking h)
    (.ok fun v => ((unregisterGRPC.getD id) ((unregisterHTTP.getD id) v)).closeHandle h, w)

/-- The deferred `if err != nil { waf.Close() }`, reading the named result. -/
def deferClose (h : Nat) : Except String (World → World) × World →
    Except String (World → World) × World
  | (.error err, w) => (.error err, w.closeHandle h)
  | (.ok unreg, w) => (.ok unreg, w)

def registerWAF (w : World) : Except String (World → World) × World :=
  match lib.health with
  | some err => (.error err, w)
  | none =>
    match lib.newHandle cfg.rules cfg.obfuscator.keyRegex cfg.obfuscator.valueRegex with
    | .error err => (.error err, w)
    | .ok ruleAddresses =>
      let (h, w) := w.newHandle
      deferClose h (registerListeners cfg lib h ruleAddresses w)

end

/-- No address of the rule is a supported HTTP or gRPC address. -/
def Unsupported (ruleAddresses : List String) : Prop :=
  ∀ a ∈ ruleAddresses, a ∉ httpAddressList ∧ a ∉ grpcAddressList

instance (ruleAddresses : List String) : Decidable (Unsupported ruleAddresses) :=
  inferInstanceAs (Decidable (∀ a ∈ ruleAddresses, _))

/-- The listeners `registerWAF` is to register for a rule's addresses, in order. -/
def wafListeners (cfg : Config) (h : Nat) (ruleAddresses : List String) : List Listener :=
  let http := ruleAddresses.filter (· ∈ httpAddressList)
  let grpc := ruleAddresses.filter fun a => a ∉ httpAddressList ∧ a ∈ grpcAddressList
  (if http = [] then [] else [.http h http cfg.wafTimeout]) ++
    if grpc = [] then [] else [.grpc h cfg.wafTimeout]

/-- `w'` is `w` with the listeners `regs` added under fresh ids and the handles untouched, and
`u` removes exactly those ids from any world. -/
structure Registers (w w' : World) (regs : List (Nat × Listener)) (u : World → World) : Prop where
  listeners : w'.listeners = w.listeners ++ regs
  handles : w'.handles = w.handles
  nextID_le : w.nextID ≤ w'.nextID
  fresh : ∀ p ∈ regs, w.nextID ≤ p.1
  unreg_listeners : ∀ v, (u v).listeners = v.listeners.filter fun p => p.1 ∉ regs.map Prod.fst
  unreg_handles : ∀ v, (u v).handles = v.handles

/-- `w'` is `w` with at most lines added to the log. -/
structure LogOnly (w w' : World) : Prop where
  listeners : w'.listeners = w.listeners
  handles : w'.handles = w.handles
  nextID : w'.nextID = w.nextID

theorem Registers.of_logOnly {w₀ w w' : World} {regs : List (Nat × Listener)}
    {u : World → World} (h₀ : LogOnly w₀ w) (h : Registers w w' regs u) : Registers w₀ w' regs u :=
  ⟨h.1.trans (by rw [h₀.1]), h.2.trans h₀.2, h₀.3 ▸ h.3, h₀.3 ▸ h.4, h.5, h.6⟩

theorem Registers.logOnly {w w' w'' : World} {regs : List (Nat × Listener)}
    {u : World → World} (h : Registers w w' regs u) (h₀ : LogOnly w' w'') : Registers w w'' regs u :=
  ⟨h₀.1.trans h.1, h₀.2.trans h.2, h₀.3 ▸ h.3, h.4, h.5, h.6⟩

namespace World

variable {w : World}

@[simp] theorem listeners_addLog (e : LogEntry) : (w.addLog e).listeners = w.listeners := rfl
@[simp] theorem handles_addLog (e : LogEntry) : (w.addLog e).handles = w.handles := rfl
@[simp] theorem nextID_addLog (e : LogEntry) : (w.addLog e).nextID = w.nextID := rfl
@[simp] theorem listeners_closeHandle (h : Nat) : (w.closeHandle h).listeners = w.listeners := rfl
@[simp] theorem handles_closeHandle (h : Nat) :
    (w.closeHandle h).handles = w.handles.set h true := rfl
@[simp] theorem nextID_closeHandle (h : Nat) : (w.closeHandle h).nextID = w.nextID := rfl
@[simp] theorem log_closeHandle (h : Nat) : (w.closeHandle h).log = w.log := rfl

theorem logOnly_addLog (e : LogEntry) : LogOnly w (w.addLog e) := ⟨rfl, rfl, rfl⟩

theorem logOnly_logNotSupported (notSupported : List String) :
    LogOnly w (w.logNotSupported notSupported) := by
  unfold logNotSupported; split
  · exact logOnly_addLog _
  · exact ⟨rfl, rfl, rfl⟩

theorem logOnly_logRCBlocking (err : Option String) : LogOnly w (w.logRCBlocking err) := by
  cases err
  · exact ⟨rfl, rfl, rfl⟩
  · exact logOnly_addLog _

theorem registers_register (l : Listener) :
    Registers w (w.register l).2 [(w.nextID, l)] (w.register l).1 where
  listeners := rfl
  handles := rfl
  nextID_le := Nat.le_succ _
  fresh := by simp
  unreg_listeners v := by simp [register, unregister]
  unreg_handles _ := rfl

theorem registers_registerIf (w : World) (kind : String) (addresses : List String) (l : Listener) :
    ∃ regs, regs.map Prod.snd = (if addresses = [] then [] else [l]) ∧
      Registers w (w.registerIf kind addresses l).2 regs ((w.registerIf kind addresses l).1.getD id) := by
  by_cases ha : addresses = []
  · refine ⟨[], by simp [ha], ?_⟩
    simp only [registerIf, ha, List.length_nil, gt_iff_lt, Nat.lt_irrefl, if_false]
    exact ⟨by simp, rfl, le_rfl, by simp, by simp, fun _ => rfl⟩
  · refine ⟨[(w.nextID, l)], by simp [ha], ?_⟩
    simp only [registerIf, List.length_pos.2 ha, if_true, Option.getD_some]
    exact (registers_register l).of_logOnly (logOnly_addLog _)

end World

namespace Registers

variable {w₁ w₂ w₃ : World} {r₁ r₂ : List (Nat × Listener)} {u₁ u₂ : World → World}

theorem trans (h₁ : Registers w₁ w₂ r₁ u₁) (h₂ : Registers w₂ w₃ r₂ u₂) :
    Registers w₁ w₃ (r₁ ++ r₂) (u₂ ∘ u₁) where
  listeners := by rw [h₂.listeners, h₁.listeners, List.append_assoc]
  handles := h₂.handles.trans h₁.handles
  nextID_le := h₁.nextID_le.trans h₂.nextID_le
  fresh p hp := by
    rcases List.mem_append.1 hp with hp | hp
    · exact h₁.fresh p hp
    · exact h₁.nextID_le.trans (h₂.fresh p hp)
  unreg_listeners v := by
    simp only [Function.comp, h₂.unreg_listeners, h₁.unreg_listeners, List.filter_filter,
      List.map_append, List.mem_append, not_or]
    congr 1
    funext p
    rw [Bool.decide_and, Bool.and_comm]
  unreg_handles v := (h₂.unreg_handles _).trans (h₁.unreg_handles v)

/-- Unregistering right after registering gives back the listeners there were before. -/
theorem unreg_restores {w w' : World} {regs : List (Nat × Listener)} {u : World → World}
    (h : Registers w w' regs u) : (u w').listeners = w.listeners := by
  rw [h.unreg_listeners, h.listeners, List.filter_append]
  have hold : w.listeners.filter (fun p => p.1 ∉ regs.map Prod.fst) = w.listeners :=
    List.filter_eq_self.2 fun p hp => by
      simp only [List.mem_map, not_exists, not_and, decide_eq_true_eq]
      intro q hq hqp
      exact absurd (hqp ▸ h.fresh q hq) (Nat.not_le.2 (w.ids_lt p hp))
  have hnew : regs.filter (fun p => p.1 ∉ regs.map Prod.fst) = [] :=
    List.filter_eq_nil_iff.2 fun p hp => by
      simp only [decide_eq_true_eq, not_not]
      exact List.mem_map_of_mem Prod.fst hp
  rw [hold, hnew, List.append_nil]

end Registers

theorem unsupported_iff (ruleAddresses : List String) :
    Unsupported ruleAddresses ↔ ruleAddresses.filter (· ∈ httpAddressList) = [] ∧
      ruleAddresses.filter (fun a => a ∉ httpAddressList ∧ a ∈ grpcAddressList) = [] := by
  simp only [Unsupported, List.filter_eq_nil_iff, decide_eq_true_eq, not_and, not_not]
  exact ⟨fun h => ⟨fun a ha => (h a ha).1, fun a ha _ => (h a ha).2⟩,
    fun h a ha => ⟨h.1 a ha, h.2 a ha (h.1 a ha)⟩⟩

section

variable (cfg : Config) (lib : WAFLib)

/-- The two error returns after the handle exists, with their texts: the world is unchanged. -/
theorem registerListeners_of_unsupported (h : Nat) (ruleAddresses : List String) (w : World)
    (hu : ruleAddresses = [] ∨ Unsupported ruleAddresses) :
    registerListeners cfg lib h ruleAddresses w =
      (.error (if ruleAddresses = [] then "no addresses found in the rule"
        else "the addresses present in the rule are not supported: " ++
          formatStrings ruleAddresses), w) := by
  by_cases hr : ruleAddresses = []
  · simp [registerListeners, hr]
  · have hu := hu.resolve_left hr
    have hns : ruleAddresses.filter (fun a => a ∉ httpAddressList ∧ a ∉ grpcAddressList) =
        ruleAddresses := List.filter_eq_self.2 fun a ha => by simpa using hu a ha
    obtain ⟨hh, hg⟩ := (unsupported_iff _).1 hu
    rw [registerListeners, if_neg (by simpa using hr), if_neg hr]
    simp only [supportedAddresses_eq, hh, hg, hns]
    rfl

/-- Past the checks, the listeners for the supported addresses are registered, and the function
returned unregisters them and closes the handle. -/
theorem registerListeners_ok (h : Nat) (ruleAddresses : List String) (w : World)
    (hr : ruleAddresses ≠ []) (hu : ¬ Unsupported ruleAddresses) :
    ∃ u regs, (registerListeners cfg lib h ruleAddresses w).1 = .ok (fun v => (u v).closeHandle h) ∧
      regs.map Prod.snd = wafListeners cfg h ruleAddresses ∧
      Registers w (registerListeners cfg lib h ruleAddresses w).2 regs u := by
  have hp := supportedAddresses_eq ruleAddresses
  rw [unsupported_iff] at hu
  unfold registerListeners
  rw [if_neg (by simpa using hr)]
  generalize supportedAddresses ruleAddresses = p at hp ⊢
  obtain ⟨hs, gs, ns⟩ := p
  simp only [Prod.mk.injEq] at hp
  obtain ⟨hhs, hgs, -⟩ := hp
  have hne : ¬ (decide (hs.length = 0) && decide (gs.length = 0)) = true := by
    simpa [hhs, hgs] using hu
  simp only [hne, if_false]
  obtain ⟨r₁, hm₁, h₁⟩ :=
    (w.logNotSupported ns).registers_registerIf "http" hs (.http h hs cfg.wafTimeout)
  obtain ⟨r₂, hm₂, h₂⟩ := ((w.logNotSupported ns).registerIf "http" hs
    (.http h hs cfg.wafTimeout)).2.registers_registerIf "grpc" gs (.grpc h cfg.wafTimeout)
  refine ⟨_, r₁ ++ r₂, rfl, ?_, ((h₁.trans h₂).of_logOnly (World.logOnly_logNotSupported _)).logOnly
    (World.logOnly_logRCBlocking _)⟩
  rw [List.map_append, hm₁, hm₂, wafListeners, hhs, hgs]

@[simp] theorem deferClose_error (h : Nat) (err : String) (w : World) :
    deferClose h (.error err, w) = (.error err, w.closeHandle h) := rfl

theorem deferClose_of_ok {h : Nat} {r : Except String (World → World) × World}
    {unreg : World → World} (hr : r.1 = .ok unreg) : deferClose h r = r := by
  obtain ⟨_ | _, _⟩ := r
  · cases hr
  · cases hr; rfl

/-- Whether `registerWAF` gets as far as creating a handle. -/
def handleCreated : Bool :=
  lib.health.isNone &&
    (lib.newHandle cfg.rules cfg.obfuscator.keyRegex cfg.obfuscator.valueRegex).toBool

/-- `registerWAF` fails exactly when the WAF is unhealthy, no handle is made or no address is
supported, and then registers nothing and closes its handle; otherwise the function it returns
unregisters exactly the listeners it registered and closes the handle. -/
theorem registerWAF_all_or_nothing (w : World) :
    let r := registerWAF cfg lib w
    let handle := lib.newHandle cfg.rules cfg.obfuscator.keyRegex cfg.obfuscator.valueRegex
    ((∃ err, r.1 = .error err) ↔ lib.health.isSome ∨ (∃ err, handle = .error err) ∨
        ∃ rs, handle = .ok rs ∧ (rs = [] ∨ Unsupported rs)) ∧
    (∀ err, r.1 = .error err → r.2.listeners = w.listeners ∧ r.2.nextID = w.nextID ∧
        r.2.log = w.log ∧ r.2.handles = w.handles ++ if handleCreated cfg lib then [true] else []) ∧
    (∀ unreg, r.1 = .ok unreg → ∃ rs regs, handle = .ok rs ∧
        regs.map Prod.snd = wafListeners cfg w.handles.length rs ∧
        r.2.listeners = w.listeners ++ regs ∧ r.2.handles = w.handles ++ [false] ∧
        (∀ v, (unreg v).listeners = v.listeners.filter (fun p => p.1 ∉ regs.map Prod.fst) ∧
          (unreg v).handles = v.handles.set w.handles.length true) ∧
        (unreg r.2).listeners = w.listeners) := by
  dsimp only
  cases hh : lib.health with
  | some err =>
    rw [show registerWAF cfg lib w = (.error err, w) by simp only [registerWAF, hh]]
    simp [handleCreated, hh]
  | none =>
    cases hn : lib.newHandle cfg.rules cfg.obfuscator.keyRegex cfg.obfuscator.valueRegex with
    | error err =>
      rw [show registerWAF cfg lib w = (.error err, w) by simp only [registerWAF, hh, hn]]
      simp [handleCreated, hh, hn, Except.toBool]
    | ok rs =>
      rw [show registerWAF cfg lib w = deferClose w.handles.length
          (registerListeners cfg lib w.handles.length rs w.newHandle.2) by
        simp only [registerWAF, hh, hn]; rfl]
      by_cases hu : rs = [] ∨ Unsupported rs
      · rw [registerListeners_of_unsupported cfg lib _ _ _ hu, deferClose_error]
        simp [hu, handleCreated, hh, hn, Except.toBool, World.newHandle,
          List.set_append_right _ _ (le_refl w.handles.length)]
      · obtain ⟨u, regs, hok, hmap, hreg⟩ := registerListeners_ok cfg lib w.handles.length rs
          w.newHandle.2 (fun h => hu (.inl h)) (fun h => hu (.inr h))
        rw [deferClose_of_ok hok, hok]
        refine ⟨by simpa using hu, fun err herr => (by cases herr), fun unreg hunreg => ?_⟩
        cases hunreg
        exact ⟨rs, regs, rfl, hmap, hreg.listeners, hreg.handles, fun v => by
          simp [hreg.unreg_listeners, hreg.unreg_handles], hreg.unreg_restores⟩

end

end DDTrace.Appsec
