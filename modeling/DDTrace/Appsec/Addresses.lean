import Mathlib.Data.List.Sort
import Mathlib.Data.List.GetD
import Mathlib.Data.String.Basic

/-!
# The rule addresses the WAF listeners support

`supportedAddresses` splits a rule's addresses into those an HTTP listener feeds, those a gRPC
listener feeds, and the rest. Each address is looked up with `sort.SearchStrings` in the two
tables, which `init` sorted with `sort.Strings`. Go compares strings bytewise; on UTF-8 text that
is the order of code points, which is `String`'s order here.
-/

namespace DDTrace.Appsec

/-- The loop of `sort.Search`: `f` is false below `i` and true from `j` on. -/
def searchLoop (f : Nat → Bool) (i j : Nat) : Nat :=
  if i < j then
    let h := (i + j) / 2
    if !f h then searchLoop f (h + 1) j else searchLoop f i h
  else i
termination_by j - i

/-- `sort.Search(n, f)`: the first index in `[0, n)` where `f` holds, or `n`. -/
def search (n : Nat) (f : Nat → Bool) : Nat := searchLoop f 0 n

/-- `sort.SearchStrings(a, x)`: where `x` is, or would be inserted, in the sorted `a`. -/
def searchStrings (a : List String) (x : String) : Nat :=
  search a.length fun i => decide (x ≤ a.getD i "")

/-- `sort.Strings`: any sort gives the one sorted permutation. -/
def sortStrings (a : List String) : List String := a.mergeSort

def serverRequestRawURIAddr : String := "server.request.uri.raw"
def serverRequestHeadersNoCookiesAddr : String := "server.request.headers.no_cookies"
def serverRequestCookiesAddr : String := "server.request.cookies"
def serverRequestQueryAddr : String := "server.request.query"
def serverRequestPathParams : String := "server.request.path_params"
def serverRequestBody : String := "server.request.body"
def serverResponseStatusAddr : String := "server.response.status"
def grpcServerRequestMessage : String := "grpc.server.request.message"
def grpcServerRequestMetadata : String := "grpc.server.request.metadata"

/-- The HTTP rule addresses in the order `httpAddresses` declares them. -/
def httpAddressList : List String :=
  [serverRequestRawURIAddr, serverRequestHeadersNoCookiesAddr, serverRequestCookiesAddr,
    serverRequestQueryAddr, serverRequestPathParams, serverRequestBody, serverResponseStatusAddr]

/-- The gRPC rule addresses in the order `grpcAddresses` declares them. -/
def grpcAddressList : List String := [grpcServerRequestMessage, grpcServerRequestMetadata]

/-- `httpAddresses` once `init` has sorted it. -/
def httpAddresses : List String := sortStrings httpAddressList

/-- `grpcAddresses` once `init` has sorted it. -/
def grpcAddresses : List String := sortStrings grpcAddressList

/-- `i := sort.SearchStrings(t, addr); i < len(t) && t[i] == addr`. -/
def lookup (t : List String) (addr : String) : Bool :=
  let i := searchStrings t addr
  decide (i < t.length) && t.getD i "" == addr

/-- One iteration of the loop of `supportedAddresses`. -/
def supportedAddressesStep (acc : List String × List String × List String) (addr : String) :
    List String × List String × List String :=
  if lookup httpAddresses addr then (acc.1 ++ [addr], acc.2.1, acc.2.2)
  else if lookup grpcAddresses addr then (acc.1, acc.2.1 ++ [addr], acc.2.2)
  else (acc.1, acc.2.1, acc.2.2 ++ [addr])

/-- `supportedAddresses`: `(supportedHTTP, supportedGRPC, notSupported)`. -/
def supportedAddresses (ruleAddresses : List String) : List String × List String × List String :=
  ruleAddresses.foldl supportedAddressesStep ([], [], [])

/-- The search loop keeps its invariant: on a predicate that is false and then true below `n`,
it returns the first index where it is true. -/
theorem searchLoop_spec (f : Nat → Bool) (n : Nat)
    (hf : ∀ k l, k ≤ l → l < n → f k = true → f l = true) (i j : Nat) (hij : i ≤ j) (hjn : j ≤ n)
    (hlo : ∀ k < i, f k = false) (hhi : ∀ k, j ≤ k → k < n → f k = true) :
    searchLoop f i j ≤ n ∧ (∀ k < searchLoop f i j, f k = false) ∧
      ∀ k, searchLoop f i j ≤ k → k < n → f k = true := by
  induction i, j using searchLoop.induct f with
  | case1 i j hlt m hfh ih =>
    have hm : m = (i + j) / 2 := rfl
    rw [searchLoop, if_pos hlt, if_pos hfh]
    simp only [Bool.not_eq_true'] at hfh
    refine ih (by omega) hjn (fun k hk => ?_) hhi
    rcases Nat.lt_or_ge k i with hki | hki
    · exact hlo k hki
    · cases hk' : f k
      · rfl
      · exact absurd (hf k m (by omega) (by omega) hk') (by simp [hfh])
  | case2 i j hlt m hfh ih =>
    have hm : m = (i + j) / 2 := rfl
    rw [searchLoop, if_pos hlt, if_neg hfh]
    simp only [Bool.not_eq_true', Bool.not_eq_false] at hfh
    refine ih (by omega) (by omega) hlo fun k hk hkn => ?_
    exact hf _ k hk hkn hfh
  | case3 i j hge =>
    rw [searchLoop, if_neg hge]
    exact ⟨by omega, hlo, fun k hk hkn => hhi k (by omega) hkn⟩

/-- On a sorted table, the lookup of `supportedAddresses` is membership. -/
theorem lookup_iff_mem {t : List String} (ht : t.Sorted (· ≤ ·)) (x : String) :
    lookup t x = true ↔ x ∈ t := by
  have hf : ∀ k l, k ≤ l → l < t.length → decide (x ≤ t.getD k "") = true →
      decide (x ≤ t.getD l "") = true := fun k l hkl hl hk => by
    have hk' : k < t.length := by omega
    simp only [decide_eq_true_eq, List.getD_eq_getElem _ _ hl, List.getD_eq_getElem _ _ hk'] at hk ⊢
    exact hk.trans (ht.rel_get_of_le (show (⟨k, hk'⟩ : Fin t.length) ≤ ⟨l, hl⟩ from hkl))
  obtain ⟨hn, hlo, hhi⟩ := searchLoop_spec _ _ hf 0 t.length (Nat.zero_le _) le_rfl
    (fun _ h => absurd h (Nat.not_lt_zero _)) (fun k hk hkn => absurd hkn (by omega))
  simp only [lookup, searchStrings, search, Bool.and_eq_true, decide_eq_true_eq, beq_iff_eq]
  generalize searchLoop (fun i => decide (x ≤ t.getD i "")) 0 t.length = r at hn hlo hhi ⊢
  constructor
  · rintro ⟨hr, hx⟩
    rw [List.getD_eq_getElem _ _ hr] at hx
    exact hx ▸ List.getElem_mem hr
  · intro hx
    obtain ⟨j, hj, rfl⟩ := List.getElem_of_mem hx
    have hrj : r ≤ j := Nat.le_of_not_lt fun hlt => by
      have := hlo j hlt
      simp only [List.getD_eq_getElem _ _ hj, decide_eq_false_iff_not] at this
      exact this le_rfl
    have hr : r < t.length := by omega
    have h₁ := hhi r le_rfl hr
    simp only [decide_eq_true_eq, List.getD_eq_getElem _ _ hr] at h₁ ⊢
    exact ⟨hr, le_antisymm (ht.rel_get_of_le (show (⟨r, hr⟩ : Fin t.length) ≤ ⟨j, hj⟩ from hrj)) h₁⟩

theorem sorted_sortStrings (a : List String) : (sortStrings a).Sorted (· ≤ ·) :=
  List.sorted_mergeSort' a

theorem mem_sortStrings {a : List String} {x : String} : x ∈ sortStrings a ↔ x ∈ a :=
  (List.mergeSort_perm a _).mem_iff

/-- After `init`, looking an address up in `httpAddresses` is membership in the declared list. -/
theorem lookup_httpAddresses (addr : String) :
    lookup httpAddresses addr = decide (addr ∈ httpAddressList) := by
  rw [Bool.eq_iff_iff, httpAddresses, lookup_iff_mem (sorted_sortStrings _), mem_sortStrings,
    decide_eq_true_iff]

theorem lookup_grpcAddresses (addr : String) :
    lookup grpcAddresses addr = decide (addr ∈ grpcAddressList) := by
  rw [Bool.eq_iff_iff, grpcAddresses, lookup_iff_mem (sorted_sortStrings _), mem_sortStrings,
    decide_eq_true_iff]

theorem foldl_supportedAddressesStep (ruleAddresses : List String)
    (acc : List String × List String × List String) :
    ruleAddresses.foldl supportedAddressesStep acc =
      (acc.1 ++ ruleAddresses.filter (· ∈ httpAddressList),
        acc.2.1 ++ ruleAddresses.filter (fun a => a ∉ httpAddressList ∧ a ∈ grpcAddressList),
        acc.2.2 ++ ruleAddresses.filter (fun a => a ∉ httpAddressList ∧ a ∉ grpcAddressList)) := by
  induction ruleAddresses generalizing acc with
  | nil => simp
  | cons addr rs ih =>
    rw [List.foldl_cons, ih, supportedAddressesStep, lookup_httpAddresses, lookup_grpcAddresses]
    by_cases hh : addr ∈ httpAddressList <;> by_cases hg : addr ∈ grpcAddressList <;>
      simp [hh, hg, List.filter_cons]

/-- `supportedAddresses` is the order-preserving three-way partition of the rule's addresses. -/
theorem supportedAddresses_eq (ruleAddresses : List String) :
    supportedAddresses ruleAddresses =
      (ruleAddresses.filter (· ∈ httpAddressList),
        ruleAddresses.filter (fun a => a ∉ httpAddressList ∧ a ∈ grpcAddressList),
        ruleAddresses.filter (fun a => a ∉ httpAddressList ∧ a ∉ grpcAddressList)) := by
  simp [supportedAddresses, foldl_supportedAddressesStep]

example : supportedAddresses ["server.request.query", "grpc.server.request.message", "x"] =
    (["server.request.query"], ["grpc.server.request.message"], ["x"]) := by
  simp [supportedAddresses_eq, httpAddressList, grpcAddressList, serverRequestRawURIAddr,
    serverRequestHeadersNoCookiesAddr, serverRequestCookiesAddr, serverRequestQueryAddr,
    serverRequestPathParams, serverRequestBody, serverResponseStatusAddr,
    grpcServerRequestMessage, grpcServerRequestMetadata]

/-- The partition, and the binary-search lookup on both sorted tables agreeing with membership. -/
theorem supportedAddresses_partition (ruleAddresses : List String) :
    supportedAddresses ruleAddresses =
      (ruleAddresses.filter (· ∈ httpAddressList),
        ruleAddresses.filter (fun a => a ∉ httpAddressList ∧ a ∈ grpcAddressList),
        ruleAddresses.filter (fun a => a ∉ httpAddressList ∧ a ∉ grpcAddressList)) ∧
    ∀ addr, (lookup httpAddresses addr = true ↔ addr ∈ httpAddresses) ∧
      (lookup grpcAddresses addr = true ↔ addr ∈ grpcAddresses) ∧
      (addr ∈ httpAddresses ↔ addr ∈ httpAddressList) ∧
      (addr ∈ grpcAddresses ↔ addr ∈ grpcAddressList) :=
  ⟨supportedAddresses_eq ruleAddresses, fun addr =>
    ⟨lookup_iff_mem (sorted_sortStrings _) addr, lookup_iff_mem (sorted_sortStrings _) addr,
      mem_sortStrings, mem_sortStrings⟩⟩

end DDTrace.Appsec
