import Mathlib.Data.List.Basic

/-!
# A broadcast channel with a bounded ring

Every value that is sent gets the next position.  The channel retains the values at the last
`capacity` positions, and each receiver has a cursor, the position that it reads next.  A receiver
whose cursor points before the oldest retained value has lagged: it is told how many values it
missed, and goes on with the oldest retained one.

The log of all values is kept; reading never reaches below the oldest retained position.
-/

namespace Procinsh

/-- What a receiver finds. -/
inductive Received (ε : Type*)
  | value (e : ε)
  | empty
  /-- The receiver has missed this many values. -/
  | lagged (dropped : ℕ)

/-- A channel as the log of the values sent through it. -/
structure Broadcast (ε : Type*) where
  capacity : ℕ
  log : List ε
  deriving DecidableEq

namespace Broadcast

variable {ε : Type*}

/-- The position of the oldest retained value. -/
def oldest (channel : Broadcast ε) : ℕ := channel.log.length - channel.capacity

/-- Sending gives the value the next position; the oldest value is released when the ring is
full. -/
def send (channel : Broadcast ε) (e : ε) : Broadcast ε :=
  { channel with log := channel.log ++ [e] }

/-- What a receiver with the cursor finds, and its new cursor. -/
def tryRecv (channel : Broadcast ε) (cursor : ℕ) : Received ε × ℕ :=
  if cursor < channel.oldest then (.lagged (channel.oldest - cursor), channel.oldest)
  else
    match channel.log[cursor]? with
    | some e => (.value e, cursor + 1)
    | none => (.empty, cursor)

/-- The values that a receiver with the cursor can still find. -/
def unread (channel : Broadcast ε) (cursor : ℕ) : List ε :=
  channel.log.drop (max cursor channel.oldest)

@[simp] theorem log_send (channel : Broadcast ε) (e : ε) :
    (channel.send e).log = channel.log ++ [e] := rfl

/-- The ring only moves on. -/
theorem oldest_le_send (channel : Broadcast ε) (e : ε) :
    channel.oldest ≤ (channel.send e).oldest := by
  unfold oldest send
  dsimp only
  rw [List.length_append, List.length_singleton]
  omega

/-- After a send a receiver can find what it could find before and the new value, less what was
released. -/
theorem unread_send_sublist (channel : Broadcast ε) (cursor : ℕ) (e : ε) :
    ((channel.send e).unread cursor).Sublist (channel.unread cursor ++ [e]) := by
  have hle : max cursor channel.oldest ≤ max cursor (channel.send e).oldest := by
    have holdest := channel.oldest_le_send e
    omega
  unfold unread
  rw [log_send]
  refine (List.drop_sublist_drop_left _ hle).trans ?_
  rcases Nat.le_total (max cursor channel.oldest) channel.log.length with h | h
  · rw [List.drop_append_of_le_length h]
  · rw [List.drop_append, List.drop_eq_nil_of_le h, List.nil_append, List.nil_append]
    exact List.drop_sublist _ _

/-- What the three results of a receive say. -/
theorem tryRecv_cases (channel : Broadcast ε) (cursor : ℕ) :
    (∃ e, channel.tryRecv cursor = (.value e, cursor + 1) ∧ channel.log[cursor]? = some e ∧
        channel.unread cursor = e :: channel.unread (cursor + 1)) ∨
      (channel.tryRecv cursor = (.empty, cursor) ∧ channel.log.length ≤ cursor) ∨
      (channel.tryRecv cursor = (.lagged (channel.oldest - cursor), channel.oldest) ∧
        cursor < channel.oldest ∧ channel.unread channel.oldest = channel.unread cursor) := by
  unfold tryRecv
  by_cases hlag : cursor < channel.oldest
  · refine Or.inr (Or.inr ⟨if_pos hlag, hlag, ?_⟩)
    rw [unread, unread, Nat.max_self, Nat.max_eq_right (Nat.le_of_lt hlag)]
  · rw [if_neg hlag]
    cases he : channel.log[cursor]? with
    | some e =>
      refine Or.inl ⟨e, rfl, rfl, ?_⟩
      have hlt : cursor < channel.log.length := (List.getElem?_eq_some_iff.mp he).1
      have hge : channel.oldest ≤ cursor := Nat.le_of_not_lt hlag
      rw [unread, unread, Nat.max_eq_left hge, Nat.max_eq_left (Nat.le_succ_of_le hge),
        List.drop_eq_getElem_cons hlt, (List.getElem?_eq_some_iff.mp he).2]
    | none => exact Or.inr (Or.inl ⟨rfl, List.getElem?_eq_none_iff.mp he⟩)

end Broadcast

end Procinsh
