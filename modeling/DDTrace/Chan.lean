import Mathlib.Data.List.Basic

/-!
# Go channels as their one receiver sees them

A channel is the list of values sent on it, how many of them its receiver has taken, and
whether it was closed. A receive takes the oldest value not yet taken; on a closed channel that
is drained it returns at once with `ok = false`; otherwise it blocks. Channels of any capacity
deliver the same sequence, so the capacity is left out: it only decides when a sender waits.
-/

namespace DDTrace

structure Chan (α : Type) where
  sent : List α
  taken : Nat
  closed : Bool
  taken_le : taken ≤ sent.length

namespace Chan

variable {α : Type}

def empty : Chan α := ⟨[], 0, false, le_rfl⟩

/-- `c <- a`. Sending on a closed channel panics, so a send is enabled only while it is open. -/
def send (c : Chan α) (a : α) : Option (Chan α) :=
  if c.closed then none
  else some ⟨c.sent ++ [a], c.taken, false, by simpa using Nat.le_succ_of_le c.taken_le⟩

/-- `close(c)`, enabled once. -/
def close (c : Chan α) : Option (Chan α) :=
  if c.closed then none else some { c with closed := true }

/-- `v, ok := <-c`: `some (some v, _)` takes the oldest pending value, `some (none, _)` is the
receive on a closed and drained channel, and `none` means the receiver blocks. -/
def recv (c : Chan α) : Option (Option α × Chan α) :=
  if h : c.taken < c.sent.length then some (some c.sent[c.taken], ⟨c.sent, c.taken + 1, c.closed, h⟩)
  else if c.closed then some (none, c) else none

/-- The oldest value sent and not yet taken. -/
def peek (c : Chan α) : Option α := c.sent[c.taken]?

/-- The values the receiver has taken, in order. -/
def received (c : Chan α) : List α := c.sent.take c.taken

/-- The values sent and never taken. -/
def pending (c : Chan α) : List α := c.sent.drop c.taken

@[simp] theorem received_empty : (empty : Chan α).received = [] := rfl

@[simp] theorem pending_empty : (empty : Chan α).pending = [] := rfl

theorem received_append_pending (c : Chan α) : c.received ++ c.pending = c.sent :=
  List.take_append_drop _ _

theorem send_eq_some {c c' : Chan α} {a : α} (h : c.send a = some c') :
    c.closed = false ∧ c'.sent = c.sent ++ [a] ∧ c'.taken = c.taken ∧ c'.closed = false := by
  unfold send at h
  split at h
  · cases h
  · cases h; simp_all

theorem close_eq_some {c c' : Chan α} (h : c.close = some c') :
    c.closed = false ∧ c'.sent = c.sent ∧ c'.taken = c.taken ∧ c'.closed = true := by
  unfold close at h
  split at h
  · cases h
  · cases h; simp_all

theorem recv_eq_some_some {c c' : Chan α} {a : α} (h : c.recv = some (some a, c')) :
    c.peek = some a ∧ c'.sent = c.sent ∧ c'.taken = c.taken + 1 ∧ c'.closed = c.closed := by
  unfold recv at h
  split at h
  · cases h; simp_all [peek]
  · split at h <;> cases h

theorem recv_eq_some_none {c c' : Chan α} (h : c.recv = some (none, c')) :
    c' = c ∧ c.closed = true ∧ c.pending = [] := by
  unfold recv at h
  split at h
  · cases h
  · split at h
    · cases h; simp_all [pending]
    · cases h

theorem recv_eq_some_of_peek {c : Chan α} {a : α} (h : c.peek = some a) :
    ∃ c', c.recv = some (some a, c') := by
  obtain ⟨hl, rfl⟩ := List.getElem?_eq_some_iff.1 h
  exact ⟨_, dif_pos hl⟩

theorem received_of_recv {c c' : Chan α} {a : α} (h : c.recv = some (some a, c')) :
    c'.received = c.received ++ [a] := by
  obtain ⟨hp, hs, ht, -⟩ := recv_eq_some_some h
  obtain ⟨hl, rfl⟩ := List.getElem?_eq_some_iff.1 hp
  rw [received, received, hs, ht, List.take_succ, List.getElem?_eq_getElem hl]
  rfl

theorem received_of_send {c c' : Chan α} {a : α} (h : c.send a = some c') :
    c'.received = c.received := by
  obtain ⟨-, hs, ht, -⟩ := send_eq_some h
  simp only [received, hs, ht, List.take_append_of_le_length c.taken_le]

theorem received_of_close {c c' : Chan α} (h : c.close = some c') : c'.received = c.received := by
  obtain ⟨-, hs, ht, -⟩ := close_eq_some h
  simp only [received, hs, ht]

@[simp] theorem length_received (c : Chan α) : c.received.length = c.taken := by
  simp [received, c.taken_le]

theorem recv_of_pending_nil {c : Chan α} (hc : c.closed = true) (hp : c.pending = []) :
    c.recv = some (none, c) := by
  have : ¬c.taken < c.sent.length := by simpa [pending] using hp
  simp [recv, this, hc]

theorem recv_of_pending_cons {c : Chan α} {a : α} {rest : List α} (hp : c.pending = a :: rest) :
    ∃ c', c.recv = some (some a, c') ∧ c'.pending = rest ∧ c'.closed = c.closed := by
  have hl : c.taken < c.sent.length := by
    by_contra h
    simp [pending, List.drop_eq_nil_of_le (Nat.le_of_not_lt h)] at hp
  rw [pending, List.drop_eq_getElem_cons hl, List.cons.injEq] at hp
  exact ⟨⟨c.sent, c.taken + 1, c.closed, hl⟩, by rw [recv, dif_pos hl, hp.1], hp.2, rfl⟩

end Chan

end DDTrace
