import SilverNetwork.Foundations.Codec

/-! Codecs of what is smaller than a word: a byte, a short integer, a flag and a byte string
whose length the format fixes; and the codec of a type by way of another. -/

namespace SilverNetwork

namespace Codec

variable {α β : Type}

def u8 : Codec UInt8 where
  encode x := .ok (littleEndian 1 x.toNat)
  decode := (fun bytes => UInt8.ofNat (ofLittleEndian bytes)) <$> Decoder.take 1

def u16 : Codec UInt16 where
  encode x := .ok (littleEndian 2 x.toNat)
  decode := (fun bytes => UInt16.ofNat (ofLittleEndian bytes)) <$> Decoder.take 2

theorem u8_exact : u8.Exact :=
  littleEndian_exact (fun _ => UInt8.ofNat_toNat) (fun x => x.toNat_lt)
    fun _ h => UInt8.toNat_ofNat_of_lt' h

theorem u16_exact : u16.Exact :=
  littleEndian_exact (fun _ => UInt16.ofNat_toNat) (fun x => x.toNat_lt)
    fun _ h => UInt16.toNat_ofNat_of_lt' h

/-- One byte, zero or one. -/
def bool : Codec Bool where
  encode b := u8.encode (if b then 1 else 0)
  decode := do
    let x ← u8.decode
    if x = 0 then pure false
    else if x = 1 then pure true
    else throw (.custom "invalid u8 while decoding bool, expected 0 or 1")

theorem bool_exact : bool.Exact := by
  intro input b rest
  constructor
  · intro h
    obtain ⟨x, middle, hx, hflag⟩ := Decoder.bind_eq_ok.mp h
    obtain ⟨data, hdata, rfl⟩ := (u8_exact _ _ _).mp hx
    split at hflag
    · rename_i hzero
      obtain ⟨rfl, rfl⟩ := Prod.mk.inj (Except.ok.inj hflag)
      rw [hzero] at hdata
      exact ⟨data, hdata, rfl⟩
    · split at hflag
      · rename_i hone
        obtain ⟨rfl, rfl⟩ := Prod.mk.inj (Except.ok.inj hflag)
        rw [hone] at hdata
        exact ⟨data, hdata, rfl⟩
      · simp [throw, throwThe, MonadExceptOf.throw] at hflag
  · rintro ⟨data, hdata, rfl⟩
    refine Decoder.bind_eq_ok.mpr ⟨_, rest, (u8_exact _ _ _).mpr ⟨data, hdata, rfl⟩, ?_⟩
    cases b <;> rfl

/-- A byte string of a fixed length, which is not written. -/
def octets (n : ℕ) : Codec {bs : Bytes // bs.length = n} where
  encode bs := .ok bs.1
  decode input :=
    if h : n ≤ input.length then
      .ok (⟨input.take n, List.length_take_of_le h⟩, input.drop n)
    else .error .unexpectedEnd

theorem octets_exact (n : ℕ) : (octets n).Exact := by
  intro input bs rest
  constructor
  · intro h
    simp only [octets, StateT.run] at h
    split at h
    · obtain ⟨rfl, rfl⟩ := Prod.mk.inj (Except.ok.inj h)
      exact ⟨input.take n, rfl, (List.take_append_drop n input).symm⟩
    · cases h
  · rintro ⟨data, hdata, rfl⟩
    obtain rfl := Except.ok.inj hdata
    have hle : n ≤ (bs.1 ++ rest).length := by
      rw [List.length_append, bs.2]
      exact Nat.le_add_right n _
    simp only [octets, StateT.run, dif_pos hle, List.take_left' bs.2, List.drop_left' bs.2]

/-- A type is written as another that has the same values. -/
def imap (c : Codec α) (mk : α → β) (fields : β → α) : Codec β where
  encode x := c.encode (fields x)
  decode := mk <$> c.decode

theorem Exact.imap {c : Codec α} (hc : c.Exact) {mk : α → β} {fields : β → α}
    (hmk : ∀ x, mk (fields x) = x) (hfields : ∀ y, fields (mk y) = y) :
    (c.imap mk fields).Exact := by
  intro input x rest
  constructor
  · intro h
    obtain ⟨y, hy, rfl⟩ := Decoder.map_eq_ok.mp h
    obtain ⟨data, hdata, rfl⟩ := (hc _ _ _).mp hy
    exact ⟨data, by simp only [Codec.imap, hfields, hdata], rfl⟩
  · rintro ⟨data, hdata, rfl⟩
    exact Decoder.map_eq_ok.mpr ⟨fields x, (hc _ _ _).mpr ⟨data, hdata, rfl⟩, hmk x⟩

end Codec

end SilverNetwork
