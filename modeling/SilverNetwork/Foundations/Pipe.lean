import Mathlib.Data.List.Infix

/-! One direction of a connection. The writer gets on with what it writes bit by bit, and a read
returns some of what has been written and not been read yet. -/

namespace SilverNetwork

structure Pipe (α : Type) where
  written : List α
  taken : ℕ
  closed : Bool

namespace Pipe

variable {α : Type} {p p' : Pipe α} {data : List α} {size count : ℕ}

def empty : Pipe α := ⟨[], 0, false⟩

def pending (p : Pipe α) : List α := p.written.drop p.taken

/-- The writer of `data` gets on by some items. -/
def send (data : List α) (count : ℕ) (p : Pipe α) : Pipe α :=
  { p with written := data.take (p.written.length + count) }

/-- The writer of `data` is done with it. -/
def flush (data : List α) (p : Pipe α) : Pipe α := { p with written := data }

def close (closed : Bool) (p : Pipe α) : Pipe α := { p with closed }

/-- A read returns some items, as many as the buffer holds at most, and none at the end of a pipe
that is closed. With nothing to read it waits. -/
def read [DecidableEq α] (size count : ℕ) (p : Pipe α) : Option (List α × Pipe α) :=
  if p.pending = [] then
    if p.closed then some ([], p) else none
  else if 0 < count ∧ count ≤ size ∧ count ≤ p.pending.length then
    some (p.pending.take count, { p with taken := p.taken + count })
  else none

@[simp] theorem send_taken (data : List α) (count : ℕ) (p : Pipe α) :
    (p.send data count).taken = p.taken := rfl

@[simp] theorem flush_taken (data : List α) (p : Pipe α) : (p.flush data).taken = p.taken := rfl

@[simp] theorem flush_written (data : List α) (p : Pipe α) : (p.flush data).written = data := rfl

@[simp] theorem close_taken (closed : Bool) (p : Pipe α) : (p.close closed).taken = p.taken := rfl

@[simp] theorem close_written (closed : Bool) (p : Pipe α) :
    (p.close closed).written = p.written := rfl

@[simp] theorem close_pending (closed : Bool) (p : Pipe α) :
    (p.close closed).pending = p.pending := rfl

theorem send_prefix (data : List α) (count : ℕ) (p : Pipe α) :
    (p.send data count).written <+: data := List.take_prefix _ data

/-- A writer that is done stays done. -/
theorem send_of_written (h : p.written = data) (count : ℕ) : p.send data count = p := by
  obtain ⟨written, taken, closed⟩ := p
  obtain rfl : written = data := h
  simp [send]

theorem flush_of_written (h : p.written = data) : p.flush data = p := by
  obtain ⟨written, taken, closed⟩ := p
  obtain rfl : written = data := h
  rfl

variable [DecidableEq α]

/-- What a read returns is the beginning of what is pending, and leaves the rest of it. -/
theorem read_eq_some {items : List α} (h : p.read size count = some (items, p')) :
    items <+: p.pending ∧ items.length ≤ size ∧ p'.written = p.written ∧
      p'.taken = p.taken + items.length ∧ p'.closed = p.closed := by
  unfold read at h
  split at h
  · split at h
    · obtain ⟨rfl, rfl⟩ := Prod.mk.inj (Option.some.inj h)
      simp
    · cases h
  · split at h
    · rename_i hcount
      obtain ⟨rfl, rfl⟩ := Prod.mk.inj (Option.some.inj h)
      have hlength : (p.pending.take count).length = count := by
        rw [List.length_take]
        omega
      exact ⟨List.take_prefix _ _, by omega, rfl, by rw [hlength], rfl⟩
    · cases h

/-- With nothing pending a read can only come to the end. -/
theorem read_of_drained {items : List α} (hdrained : p.pending = [])
    (h : p.read size count = some (items, p')) : items = [] ∧ p' = p := by
  rw [read, if_pos hdrained] at h
  split at h
  · obtain ⟨rfl, rfl⟩ := Prod.mk.inj (Option.some.inj h)
    exact ⟨rfl, rfl⟩
  · cases h

/-- The first read of a pipe returns the beginning of what is written to it. -/
theorem read_first {items : List α} (htaken : p.taken = 0) (hwritten : p.written <+: data)
    (h : p.read size count = some (items, p')) :
    items <+: data ∧ items.length ≤ size ∧ p'.written = p.written ∧ p'.taken = items.length := by
  obtain ⟨hfront, hlength, hwritten', htaken', _⟩ := read_eq_some h
  rw [pending, htaken, List.drop_zero] at hfront
  exact ⟨hfront.trans hwritten, hlength, hwritten', by rw [htaken', htaken, Nat.zero_add]⟩

/-- All that has been written may be read at once, where the buffer holds it. -/
theorem read_written (hdata : data ≠ []) (hfits : data.length ≤ size) (closed : Bool) :
    (⟨data, 0, closed⟩ : Pipe α).read size data.length =
      some (data, ⟨data, data.length, closed⟩) := by
  have hpos := List.length_pos_iff.mpr hdata
  have hpending : (⟨data, 0, closed⟩ : Pipe α).pending = data := List.drop_zero
  rw [read, hpending, if_neg hdata, if_pos ⟨hpos, hfits, le_refl _⟩, List.take_length,
    Nat.zero_add]

theorem read_end (hdrained : p.pending = []) (hclosed : p.closed = true) :
    p.read size count = some ([], p) := by
  rw [read, if_pos hdrained, if_pos hclosed]

end Pipe

end SilverNetwork
