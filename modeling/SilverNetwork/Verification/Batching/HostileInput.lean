import SilverNetwork.Verification.Batching.Format

/-! `unbatch` on input from anywhere. No slice leaves the input and no step of the cursor
overflows, but the number of messages is taken at its word before anything is read. -/

namespace SilverNetwork

open MessageBatcher

/-- The number of messages that the first four bytes declare. -/
def declaredCount (batch : ByteSlice) : ℕ := ofLittleEndian (batch.bytes.take 4)

/-- The most messages for whose lengths there is room behind the count. -/
def messageRoom (batch : ByteSlice) : ℕ := (batch.bytes.length - 4) / 4

/-! ## The cursor -/

/-- A cursor within the input may be moved by any 32-bit length. -/
theorem cursor_add (checks : OverflowChecks) {batch : ByteSlice} {cursor n : UInt64}
    (hcursor : cursor.toNat ≤ batch.bytes.length) (hn : n.toNat < 2 ^ 32) :
    ∃ next, checks.add cursor n = some next ∧ next.toNat = cursor.toNat + n.toNat := by
  have hlength := batch.length_lt
  have hroom : cursor.toNat + n.toNat < 2 ^ 64 := by omega
  refine ⟨_, OverflowChecks.add_of_lt checks hroom, ?_⟩
  rw [UInt64.toNat_add, Nat.mod_eq_of_lt hroom]

theorem len_lt_iff {batch : ByteSlice} {cursor : UInt64} :
    batch.len < cursor ↔ batch.bytes.length < cursor.toNat := by
  rw [UInt64.lt_iff_toNat_lt, batch.toNat_len]

theorem readLength_eq_lengthAt (batch : ByteSlice) {cursor stop : UInt64}
    (hstop : stop.toNat = cursor.toNat + 4) (h : stop.toNat ≤ batch.bytes.length) :
    ∃ n : UInt32, lengthAt batch cursor stop = some n.toUInt64 ∧
      readLength batch.bytes cursor.toNat = some n.toNat := by
  have hslice := slice_of_le (hstop ▸ h)
  refine ⟨UInt32.ofNat (ofLittleEndian ((batch.bytes.drop cursor.toNat).take 4)), ?_, ?_⟩
  · rw [lengthAt, sliceAt, hstop, hslice]
    rfl
  · rw [readLength, hslice]
    rfl

/-- The loop on machine words returns what the loop on numbers does. Each iteration that stores
a message moves the cursor over its length at least, and never beyond the input. -/
theorem unbatchLoop_spec (checks : OverflowChecks) (batch : ByteSlice) (remaining : ℕ)
    (cursor : UInt64) (messages : List Bytes) (hcursor : cursor.toNat ≤ batch.bytes.length) :
    ∃ iterations result,
      unbatchLoop checks batch remaining cursor messages = some (iterations, result) ∧
      unbatchFrom batch.bytes remaining cursor.toNat messages = some result ∧
      4 * iterations + cursor.toNat ≤ batch.bytes.length + 4 * messages.length := by
  induction remaining generalizing cursor messages with
  | zero => exact ⟨_, _, rfl, rfl, by omega⟩
  | succ remaining ih =>
      obtain ⟨afterLength, hlengthEnd, hafterLength⟩ :=
        cursor_add checks hcursor (n := 4) (by decide)
      have hfour : afterLength.toNat = cursor.toNat + 4 := hafterLength
      by_cases hshort : batch.bytes.length < cursor.toNat + 4
      · refine ⟨messages.length, _, ?_, if_pos hshort, by omega⟩
        simp [unbatchLoop, hlengthEnd, len_lt_iff, hfour, hshort]
      · have hwithin : afterLength.toNat ≤ batch.bytes.length := by omega
        obtain ⟨n, hlengthAt, hread⟩ := readLength_eq_lengthAt batch hfour hwithin
        obtain ⟨afterMessage, hmessageEnd, hafterMessage⟩ :=
          cursor_add checks hwithin (n := n.toUInt64) n.toNat_lt
        have hend : afterMessage.toNat = cursor.toNat + 4 + n.toNat := by
          rw [hafterMessage, hfour, UInt32.toNat_toUInt64]
        by_cases hcut : batch.bytes.length < cursor.toNat + 4 + n.toNat
        · refine ⟨messages.length, .error ⟨.invalidData, "Incomplete message"⟩, ?_, ?_, by omega⟩
          · simp [unbatchLoop, hlengthEnd, len_lt_iff, hfour, hshort, hlengthAt, hmessageEnd,
              hend, hcut]
          · simp [unbatchFrom, hshort, hread, hcut]
        · have hslice := slice_of_le (Nat.le_of_not_lt hcut)
          have hsliceAt : sliceAt batch afterLength afterMessage =
              slice batch.bytes (cursor.toNat + 4) (cursor.toNat + 4 + n.toNat) := by
            rw [sliceAt, hfour, hend]
          obtain ⟨iterations, result, hloop, hfrom, hbound⟩ :=
            ih afterMessage (messages ++ [(batch.bytes.drop (cursor.toNat + 4)).take n.toNat])
              (by omega)
          rw [hend] at hfrom
          rw [List.length_append, List.length_singleton] at hbound
          refine ⟨iterations, result, ?_, ?_, by omega⟩
          · simp [unbatchLoop, hlengthEnd, len_lt_iff, hfour, hshort, hlengthAt, hmessageEnd,
              hend, hcut, hsliceAt, hslice, hloop]
          · simp [unbatchFrom, hshort, hread, hcut, hslice, hfrom]

theorem lengthAt_count {batch : ByteSlice} (h : 4 ≤ batch.bytes.length) :
    ∃ n : UInt32, lengthAt batch 0 4 = some n.toUInt64 ∧ readLength batch.bytes 0 = some n.toNat ∧
      n.toNat = declaredCount batch := by
  have hslice : slice batch.bytes 0 4 = some (batch.bytes.take 4) := if_pos ⟨Nat.zero_le _, h⟩
  have hlt := ofLittleEndian_lt (batch.bytes.take 4)
  rw [List.length_take_of_le h] at hlt
  have hcount : (UInt32.ofNat (declaredCount batch)).toNat = declaredCount batch :=
    UInt32.toNat_ofNat_of_lt' hlt
  refine ⟨UInt32.ofNat (declaredCount batch), ?_, ?_, hcount⟩
  · rw [lengthAt, sliceAt]
    exact congrArg (Option.map _) hslice
  · rw [readLength_zero h, hcount]
    rfl

/-- Whatever the input, `unbatch` returns on machine words what it does on numbers, and it has
one slot reserved for each message declared. -/
theorem unbatchOnWords_spec (checks : OverflowChecks) (batch : ByteSlice) :
    ∃ work, unbatchOnWords checks batch = some work ∧ unbatch batch.bytes = some work.result ∧
      work.iterations ≤ messageRoom batch ∧
      work.reserved = if batch.bytes.length < 4 then 0 else declaredCount batch := by
  by_cases hshort : batch.bytes.length < 4
  · have hlen : batch.len < 4 := len_lt_iff.mpr hshort
    exact ⟨_, if_pos hlen, if_pos hshort, Nat.zero_le _, (if_pos hshort).symm⟩
  · have hfour : 4 ≤ batch.bytes.length := Nat.le_of_not_lt hshort
    have hlen : ¬ batch.len < 4 := fun h => hshort (len_lt_iff.mp h)
    have hstart : checks.add 0 4 = some 4 := OverflowChecks.add_of_lt checks (by decide)
    obtain ⟨n, hlengthAt, hread, hcount⟩ := lengthAt_count hfour
    obtain ⟨iterations, result, hloop, hfrom, hbound⟩ :=
      unbatchLoop_spec checks batch n.toNat 4 [] hfour
    refine ⟨⟨n.toNat, iterations, result⟩, ?_, ?_, ?_, ?_⟩
    · simp [unbatchOnWords, hlen, hstart, hlengthAt, hloop]
    · have hloop' : unbatchFrom batch.bytes n.toNat 4 [] = some result := hfrom
      simp [unbatch, unbatchUnder, Allocator.unlimited, hshort, hread, hloop']
    · have hmoved : 4 * iterations + 4 ≤ batch.bytes.length + 4 * 0 := hbound
      change iterations ≤ messageRoom batch
      rw [messageRoom, Nat.le_div_iff_mul_le (by decide)]
      omega
    · rw [if_neg hshort, hcount]

/-! ## Safety -/

/-- No slice leaves the input and no overflow panics; the loop stores no more messages, and no
more slots are reserved, than the input has room for. -/
def UnbatchSafe (checks : OverflowChecks) (batch : ByteSlice) : Prop :=
  ∃ work, unbatchOnWords checks batch = some work ∧
    work.iterations ≤ messageRoom batch ∧ work.reserved ≤ messageRoom batch

/-- `unbatch` is safe on exactly the inputs that are too short for a count or that declare no
more messages than they have room for. On all others only the reservation is excessive. -/
theorem unbatch_safe_iff (batch : ByteSlice) :
    ((∀ checks, UnbatchSafe checks batch) ↔
        batch.bytes.length < 4 ∨ declaredCount batch ≤ messageRoom batch) ∧
      ∀ checks, ∃ work, unbatchOnWords checks batch = some work ∧
        unbatch batch.bytes = some work.result ∧ work.iterations ≤ messageRoom batch := by
  have hspec := fun checks => unbatchOnWords_spec checks batch
  refine ⟨⟨?_, ?_⟩, ?_⟩
  · intro hsafe
    obtain ⟨work, hwork, -, hreserved⟩ := hsafe .on
    obtain ⟨work', hwork', -, -, hcount⟩ := hspec .on
    obtain rfl := Option.some.inj (hwork.symm.trans hwork')
    by_cases hshort : batch.bytes.length < 4
    · exact .inl hshort
    · rw [hcount, if_neg hshort] at hreserved
      exact .inr hreserved
  · intro h checks
    obtain ⟨work, hwork, -, hiterations, hcount⟩ := hspec checks
    refine ⟨work, hwork, hiterations, ?_⟩
    rw [hcount]
    split
    · exact Nat.zero_le _
    · rename_i hlong
      exact h.resolve_left hlong
  · intro checks
    obtain ⟨work, hwork, hresult, hiterations, -⟩ := hspec checks
    exact ⟨work, hwork, hresult, hiterations⟩

/-- Four bytes that declare `2^32 - 1` messages have room for none. -/
theorem declared_count_reserved :
    ∃ (batch : ByteSlice) (work : UnbatchWork), batch.bytes = [255, 255, 255, 255] ∧
      unbatchOnWords .on batch = some work ∧ work.reserved = 2 ^ 32 - 1 ∧
      messageRoom batch = 0 ∧ ¬ UnbatchSafe .on batch := by
  refine ⟨⟨[255, 255, 255, 255], by decide⟩, _, rfl, rfl, by decide, by decide, ?_⟩
  rintro ⟨work, hwork, -, hreserved⟩
  obtain rfl := Option.some.inj hwork
  exact absurd hreserved (by decide)

end SilverNetwork
