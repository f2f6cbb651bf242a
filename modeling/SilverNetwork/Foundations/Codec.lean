import Mathlib.Data.UInt

/-! Fixed-width, little-endian binary formats. A decoder reads one value off the front of
its input and returns what is left; a codec joins it to an encoder. The combinators carry
the laws of a codec from the parts of a value to the whole. -/

namespace SilverNetwork

abbrev Bytes : Type := List UInt8

inductive CodecError where
  | unexpectedEnd
  | invalidVariant (index : ℕ)
  | sequenceTooLong
  | custom (text : String)
  deriving DecidableEq, Repr

abbrev Decoder (α : Type) : Type := StateT Bytes (Except CodecError) α

structure Codec (α : Type) where
  encode : α → Except CodecError Bytes
  decode : Decoder α

/-! ## Laws -/

/-- An encoded value is read back, whatever follows it. -/
def Codec.RoundTrips {α : Type} (c : Codec α) : Prop :=
  ∀ x data rest, c.encode x = .ok data → c.decode.run (data ++ rest) = .ok (x, rest)

/-- Reading a value consumes at least the bytes that its encoding takes. -/
def Codec.Measured {α : Type} (c : Codec α) : Prop :=
  ∀ input x rest, c.decode.run input = .ok (x, rest) →
    ∃ data, c.encode x = .ok data ∧ data.length + rest.length ≤ input.length

/-- A value is read exactly where its encoding stands at the front of the input. -/
def Codec.Exact {α : Type} (c : Codec α) : Prop :=
  ∀ input x rest, c.decode.run input = .ok (x, rest) ↔
    ∃ data, c.encode x = .ok data ∧ input = data ++ rest

theorem Codec.Exact.roundTrips {α : Type} {c : Codec α} (hc : c.Exact) : c.RoundTrips :=
  fun _ data _ h => (hc _ _ _).mpr ⟨data, h, rfl⟩

theorem Codec.Exact.measured {α : Type} {c : Codec α} (hc : c.Exact) : c.Measured := by
  intro input x rest h
  obtain ⟨data, hdata, rfl⟩ := (hc _ _ _).mp h
  exact ⟨data, hdata, by rw [List.length_append]⟩

/-- No part of an encoding but the whole of it is read as a value. -/
theorem Codec.Exact.whole {α : Type} {c : Codec α} (hc : c.Exact) {x y : α}
    {data part rest : Bytes} (h : c.encode x = .ok data) (hpart : part <+: data)
    (hread : c.decode.run part = .ok (y, rest)) : y = x ∧ part = data := by
  obtain ⟨more, rfl⟩ := hpart
  obtain ⟨data', hdata', rfl⟩ := (hc _ _ _).mp hread
  have hfirst := hc.roundTrips y data' (rest ++ more) hdata'
  have hwhole := hc.roundTrips x _ [] h
  rw [List.append_nil, List.append_assoc, hfirst] at hwhole
  obtain ⟨rfl, hnil⟩ := Prod.mk.inj (Except.ok.inj hwhole)
  obtain ⟨rfl, rfl⟩ := List.append_eq_nil_iff.mp hnil
  exact ⟨rfl, by rw [List.append_nil, List.append_nil]⟩

theorem Encoder.bind_eq_ok {α β : Type} {e : Except CodecError α} {f : α → Except CodecError β}
    {y : β} : (e >>= f) = .ok y ↔ ∃ x, e = .ok x ∧ f x = .ok y := by
  cases e with
  | error _ => simp [bind, Except.bind]
  | ok x => simp [bind, Except.bind]

namespace Decoder

variable {α β : Type}

theorem bind_eq_ok {d : Decoder α} {f : α → Decoder β} {input rest : Bytes} {y : β} :
    (d >>= f).run input = .ok (y, rest) ↔
      ∃ x middle, d.run input = .ok (x, middle) ∧ (f x).run middle = .ok (y, rest) := by
  rw [StateT.run_bind]
  cases h : d.run input with
  | error e => simp [bind, Except.bind]
  | ok p => simp [bind, Except.bind, Prod.ext_iff, eq_comm]

theorem map_eq_ok {d : Decoder α} {f : α → β} {input rest : Bytes} {y : β} :
    (f <$> d).run input = .ok (y, rest) ↔ ∃ x, d.run input = .ok (x, rest) ∧ f x = y := by
  rw [← bind_pure_comp, bind_eq_ok]
  constructor
  · rintro ⟨x, middle, hd, hy⟩
    obtain ⟨rfl, rfl⟩ := Prod.mk.inj (Except.ok.inj hy)
    exact ⟨x, hd, rfl⟩
  · rintro ⟨x, hd, rfl⟩
    exact ⟨x, rest, hd, rfl⟩

/-- The first `n` bytes of the input. -/
def take (n : ℕ) : Decoder Bytes := fun input =>
  if n ≤ input.length then .ok (input.take n, input.drop n) else .error .unexpectedEnd

theorem take_of_le {n : ℕ} {input : Bytes} (h : n ≤ input.length) :
    (take n).run input = .ok (input.take n, input.drop n) := if_pos h

theorem take_append (bytes rest : Bytes) :
    (take bytes.length).run (bytes ++ rest) = .ok (bytes, rest) := by
  simp [take, StateT.run]

theorem take_eq_ok {n : ℕ} {input bytes rest : Bytes}
    (h : (take n).run input = .ok (bytes, rest)) : bytes.length = n ∧ input = bytes ++ rest := by
  simp only [take, StateT.run] at h
  split at h
  · rename_i hle
    obtain ⟨rfl, rfl⟩ := Prod.mk.inj (Except.ok.inj h)
    exact ⟨List.length_take_of_le hle, (List.take_append_drop n input).symm⟩
  · simp at h

end Decoder

/-! ## Integers -/

def littleEndian : ℕ → ℕ → Bytes
  | 0, _ => []
  | width + 1, n => UInt8.ofNat n :: littleEndian width (n / 256)

def ofLittleEndian : Bytes → ℕ
  | [] => 0
  | b :: bs => b.toNat + 256 * ofLittleEndian bs

@[simp] theorem littleEndian_length (width n : ℕ) : (littleEndian width n).length = width := by
  induction width generalizing n with
  | zero => rfl
  | succ width ih => simp [littleEndian, ih]

theorem ofLittleEndian_littleEndian {width n : ℕ} (h : n < 256 ^ width) :
    ofLittleEndian (littleEndian width n) = n := by
  induction width generalizing n with
  | zero =>
      simp only [Nat.pow_zero, Nat.lt_one_iff] at h
      simp [littleEndian, ofLittleEndian, h]
  | succ width ih =>
      have hdiv : n / 256 < 256 ^ width := by
        rw [Nat.div_lt_iff_lt_mul (by decide), ← Nat.pow_succ]
        exact h
      rw [littleEndian, ofLittleEndian, ih hdiv, UInt8.toNat_ofNat']
      exact Nat.mod_add_div n 256

theorem littleEndian_ofLittleEndian (bs : Bytes) :
    littleEndian bs.length (ofLittleEndian bs) = bs := by
  induction bs with
  | nil => rfl
  | cons b bs ih =>
      have hb := b.toNat_lt
      have hhead : UInt8.ofNat (b.toNat + 256 * ofLittleEndian bs) = b := by
        apply UInt8.toNat_inj.mp
        rw [UInt8.toNat_ofNat']
        omega
      have htail : (b.toNat + 256 * ofLittleEndian bs) / 256 = ofLittleEndian bs := by
        omega
      rw [List.length_cons, ofLittleEndian, littleEndian, hhead, htail, ih]

theorem ofLittleEndian_lt (bs : Bytes) : ofLittleEndian bs < 256 ^ bs.length := by
  induction bs with
  | nil => decide
  | cons b bs ih =>
      have hb := b.toNat_lt
      rw [List.length_cons, ofLittleEndian, Nat.pow_succ]
      omega

/-- The most significant byte first. -/
def bigEndian (width n : ℕ) : Bytes := (littleEndian width n).reverse

def ofBigEndian (bs : Bytes) : ℕ := ofLittleEndian bs.reverse

@[simp] theorem bigEndian_length (width n : ℕ) : (bigEndian width n).length = width := by
  simp [bigEndian]

theorem ofBigEndian_bigEndian {width n : ℕ} (h : n < 256 ^ width) :
    ofBigEndian (bigEndian width n) = n := by
  rw [ofBigEndian, bigEndian, List.reverse_reverse, ofLittleEndian_littleEndian h]

namespace Codec

variable {α β : Type}

def u32 : Codec UInt32 where
  encode x := .ok (littleEndian 4 x.toNat)
  decode := (fun bytes => UInt32.ofNat (ofLittleEndian bytes)) <$> Decoder.take 4

def u64 : Codec UInt64 where
  encode x := .ok (littleEndian 8 x.toNat)
  decode := (fun bytes => UInt64.ofNat (ofLittleEndian bytes)) <$> Decoder.take 8

@[simp] theorem u32_encode (x : UInt32) : u32.encode x = .ok (littleEndian 4 x.toNat) := rfl

@[simp] theorem u64_encode (x : UInt64) : u64.encode x = .ok (littleEndian 8 x.toNat) := rfl

/-- Integers of a fixed width, the least significant byte first. -/
theorem littleEndian_exact {width : ℕ} {ofNat : ℕ → α} {toNat : α → ℕ}
    (hround : ∀ x, ofNat (toNat x) = x) (hlt : ∀ x, toNat x < 256 ^ width)
    (hofNat : ∀ n < 256 ^ width, toNat (ofNat n) = n) :
    Codec.Exact ⟨fun x => .ok (littleEndian width (toNat x)),
      (fun bytes => ofNat (ofLittleEndian bytes)) <$> Decoder.take width⟩ := by
  intro input x rest
  constructor
  · intro h
    obtain ⟨bytes, htake, rfl⟩ := Decoder.map_eq_ok.mp h
    obtain ⟨hlength, rfl⟩ := Decoder.take_eq_ok htake
    have hbound := ofLittleEndian_lt bytes
    have hsame := littleEndian_ofLittleEndian bytes
    rw [hlength] at hbound hsame
    refine ⟨bytes, ?_, rfl⟩
    simp only [hofNat _ hbound, hsame]
  · rintro ⟨data, hdata, rfl⟩
    obtain rfl := Except.ok.inj hdata
    have htake := Decoder.take_append (littleEndian width (toNat x)) rest
    rw [littleEndian_length] at htake
    refine Decoder.map_eq_ok.mpr ⟨_, htake, ?_⟩
    rw [ofLittleEndian_littleEndian (hlt x), hround]

theorem u32_exact : u32.Exact :=
  littleEndian_exact (fun _ => UInt32.ofNat_toNat) (fun x => x.toNat_lt)
    fun _ h => UInt32.toNat_ofNat_of_lt' h

theorem u64_exact : u64.Exact :=
  littleEndian_exact (fun _ => UInt64.ofNat_toNat) (fun x => x.toNat_lt)
    fun _ h => UInt64.toNat_ofNat_of_lt' h

theorem u32_roundTrips : u32.RoundTrips := u32_exact.roundTrips

theorem u64_roundTrips : u64.RoundTrips := u64_exact.roundTrips

theorem u64_measured : u64.Measured := u64_exact.measured

/-- Reading a 32-bit integer takes four bytes off the input. -/
theorem u32_decode_length {input rest : Bytes} {x : UInt32}
    (h : u32.decode.run input = .ok (x, rest)) : input.length = 4 + rest.length := by
  obtain ⟨data, hdata, rfl⟩ := (u32_exact input x rest).mp h
  obtain rfl := Except.ok.inj hdata
  rw [List.length_append, littleEndian_length]

theorem u64_decode_length {input rest : Bytes} {x : UInt64}
    (h : u64.decode.run input = .ok (x, rest)) : input.length = 8 + rest.length := by
  obtain ⟨data, hdata, rfl⟩ := (u64_exact input x rest).mp h
  obtain rfl := Except.ok.inj hdata
  rw [List.length_append, littleEndian_length]

/-! ## Pairs -/

def prod (c : Codec α) (d : Codec β) : Codec (α × β) where
  encode p := do
    let first ← c.encode p.1
    let second ← d.encode p.2
    pure (first ++ second)
  decode := do
    let x ← c.decode
    let y ← d.decode
    pure (x, y)

theorem prod_encode {c : Codec α} {d : Codec β} {x : α} {y : β} {first second : Bytes}
    (hfirst : c.encode x = .ok first) (hsecond : d.encode y = .ok second) :
    (c.prod d).encode (x, y) = .ok (first ++ second) :=
  Encoder.bind_eq_ok.mpr ⟨first, hfirst, Encoder.bind_eq_ok.mpr ⟨second, hsecond, rfl⟩⟩

theorem RoundTrips.prod {c : Codec α} {d : Codec β} (hc : c.RoundTrips) (hd : d.RoundTrips) :
    (c.prod d).RoundTrips := by
  intro p data rest h
  obtain ⟨first, hfirst, h⟩ := Encoder.bind_eq_ok.mp h
  obtain ⟨second, hsecond, h⟩ := Encoder.bind_eq_ok.mp h
  obtain rfl := Except.ok.inj h
  rw [List.append_assoc]
  refine Decoder.bind_eq_ok.mpr ⟨p.1, second ++ rest, hc p.1 first _ hfirst, ?_⟩
  exact Decoder.bind_eq_ok.mpr ⟨p.2, rest, hd p.2 second rest hsecond, rfl⟩

theorem Exact.prod {c : Codec α} {d : Codec β} (hc : c.Exact) (hd : d.Exact) :
    (c.prod d).Exact := by
  intro input p rest
  constructor
  · intro h
    obtain ⟨x, middle, hx, h⟩ := Decoder.bind_eq_ok.mp h
    obtain ⟨y, rest', hy, h⟩ := Decoder.bind_eq_ok.mp h
    obtain ⟨rfl, rfl⟩ := Prod.mk.inj (Except.ok.inj h)
    obtain ⟨first, hfirst, rfl⟩ := (hc _ _ _).mp hx
    obtain ⟨second, hsecond, rfl⟩ := (hd _ _ _).mp hy
    refine ⟨first ++ second, ?_, (List.append_assoc _ _ _).symm⟩
    exact Encoder.bind_eq_ok.mpr
      ⟨first, hfirst, Encoder.bind_eq_ok.mpr ⟨second, hsecond, rfl⟩⟩
  · rintro ⟨data, hdata, rfl⟩
    exact hc.roundTrips.prod hd.roundTrips p data rest hdata

/-! ## Sequences: an eight-byte length, then the elements -/

def encodeLength (n : ℕ) : Except CodecError Bytes :=
  if n < 2 ^ 64 then .ok (littleEndian 8 n) else .error .sequenceTooLong

def decodeLength : Decoder ℕ := UInt64.toNat <$> u64.decode

theorem decodeLength_append {n : ℕ} {data : Bytes} (h : encodeLength n = .ok data) (rest : Bytes) :
    decodeLength.run (data ++ rest) = .ok (n, rest) := by
  unfold encodeLength at h
  split at h
  · rename_i hlt
    have hn : (UInt64.ofNat n).toNat = n := UInt64.toNat_ofNat_of_lt' hlt
    have hu := u64_roundTrips (UInt64.ofNat n) data rest (by rw [← h, u64_encode, hn])
    exact Decoder.map_eq_ok.mpr ⟨_, hu, hn⟩
  · simp at h

theorem decodeLength_eq_ok {input rest : Bytes} {n : ℕ}
    (h : decodeLength.run input = .ok (n, rest)) :
    input.length = 8 + rest.length ∧ encodeLength n = .ok (littleEndian 8 n) := by
  obtain ⟨x, hx, rfl⟩ := Decoder.map_eq_ok.mp h
  exact ⟨u64_decode_length hx, if_pos x.toNat_lt⟩

def bytes : Codec Bytes where
  encode xs := do
    let length ← encodeLength xs.length
    pure (length ++ xs)
  decode := do
    let length ← decodeLength
    Decoder.take length

theorem bytes_encode {xs : Bytes} (h : xs.length < 2 ^ 64) :
    bytes.encode xs = .ok (littleEndian 8 xs.length ++ xs) :=
  Encoder.bind_eq_ok.mpr ⟨littleEndian 8 xs.length, if_pos h, rfl⟩

theorem bytes_roundTrips : bytes.RoundTrips := by
  intro xs data rest h
  obtain ⟨length, hlength, h⟩ := Encoder.bind_eq_ok.mp h
  obtain rfl := Except.ok.inj h
  rw [List.append_assoc]
  exact Decoder.bind_eq_ok.mpr
    ⟨xs.length, xs ++ rest, decodeLength_append hlength _, Decoder.take_append xs rest⟩

theorem bytes_exact : bytes.Exact := by
  intro input xs rest
  constructor
  · intro h
    obtain ⟨n, middle, hn, htake⟩ := Decoder.bind_eq_ok.mp h
    obtain ⟨x, hx, rfl⟩ := Decoder.map_eq_ok.mp hn
    obtain ⟨length, hlength, rfl⟩ := (u64_exact _ _ _).mp hx
    obtain rfl := Except.ok.inj hlength
    obtain ⟨hsize, rfl⟩ := Decoder.take_eq_ok htake
    refine ⟨littleEndian 8 x.toNat ++ xs, ?_, (List.append_assoc _ _ _).symm⟩
    refine Encoder.bind_eq_ok.mpr ⟨littleEndian 8 x.toNat, ?_, rfl⟩
    rw [hsize]
    exact if_pos x.toNat_lt
  · rintro ⟨data, hdata, rfl⟩
    exact bytes_roundTrips xs data rest hdata

def encodeEach (c : Codec α) : List α → Except CodecError Bytes
  | [] => pure []
  | x :: xs => do
      let first ← c.encode x
      let others ← encodeEach c xs
      pure (first ++ others)

def decodeEach (c : Codec α) : ℕ → Decoder (List α)
  | 0 => pure []
  | n + 1 => do
      let x ← c.decode
      let xs ← decodeEach c n
      pure (x :: xs)

def list (c : Codec α) : Codec (List α) where
  encode xs := do
    let length ← encodeLength xs.length
    let elements ← encodeEach c xs
    pure (length ++ elements)
  decode := do
    let length ← decodeLength
    decodeEach c length

theorem RoundTrips.each {c : Codec α} (hc : c.RoundTrips) {xs : List α} {data : Bytes}
    (h : encodeEach c xs = .ok data) (rest : Bytes) :
    (decodeEach c xs.length).run (data ++ rest) = .ok (xs, rest) := by
  induction xs generalizing data with
  | nil =>
      obtain rfl := Except.ok.inj h
      rfl
  | cons x xs ih =>
      obtain ⟨first, hfirst, h⟩ := Encoder.bind_eq_ok.mp h
      obtain ⟨others, hothers, h⟩ := Encoder.bind_eq_ok.mp h
      obtain rfl := Except.ok.inj h
      rw [List.append_assoc]
      refine Decoder.bind_eq_ok.mpr ⟨x, others ++ rest, hc x first _ hfirst, ?_⟩
      exact Decoder.bind_eq_ok.mpr ⟨xs, rest, ih hothers, rfl⟩

theorem RoundTrips.list {c : Codec α} (hc : c.RoundTrips) : c.list.RoundTrips := by
  intro xs data rest h
  obtain ⟨length, hlength, h⟩ := Encoder.bind_eq_ok.mp h
  obtain ⟨elements, helements, h⟩ := Encoder.bind_eq_ok.mp h
  obtain rfl := Except.ok.inj h
  rw [List.append_assoc]
  exact Decoder.bind_eq_ok.mpr
    ⟨xs.length, elements ++ rest, decodeLength_append hlength _, hc.each helements rest⟩

/-- Elements are read exactly where their encodings stand one after the other. -/
theorem Exact.each {c : Codec α} (hc : c.Exact) {n : ℕ} {input rest : Bytes} {xs : List α} :
    (decodeEach c n).run input = .ok (xs, rest) ↔
      xs.length = n ∧ ∃ data, encodeEach c xs = .ok data ∧ input = data ++ rest := by
  constructor
  · intro h
    induction n generalizing input xs with
    | zero =>
        obtain ⟨rfl, rfl⟩ := Prod.mk.inj (Except.ok.inj h)
        exact ⟨rfl, [], rfl, rfl⟩
    | succ n ih =>
        obtain ⟨x, middle, hx, h⟩ := Decoder.bind_eq_ok.mp h
        obtain ⟨ys, rest', hys, h⟩ := Decoder.bind_eq_ok.mp h
        obtain ⟨rfl, rfl⟩ := Prod.mk.inj (Except.ok.inj h)
        obtain ⟨first, hfirst, rfl⟩ := (hc _ _ _).mp hx
        obtain ⟨hn, others, hothers, rfl⟩ := ih hys
        refine ⟨congrArg (· + 1) hn, first ++ others, ?_, (List.append_assoc _ _ _).symm⟩
        exact Encoder.bind_eq_ok.mpr
          ⟨first, hfirst, Encoder.bind_eq_ok.mpr ⟨others, hothers, rfl⟩⟩
  · rintro ⟨rfl, data, hdata, rfl⟩
    have hround : c.RoundTrips := fun x data rest h => (hc _ _ _).mpr ⟨data, h, rfl⟩
    exact hround.each hdata rest

theorem Measured.each {c : Codec α} (hc : c.Measured) {n : ℕ} {input rest : Bytes} {xs : List α}
    (h : (decodeEach c n).run input = .ok (xs, rest)) :
    xs.length = n ∧
      ∃ data, encodeEach c xs = .ok data ∧ data.length + rest.length ≤ input.length := by
  induction n generalizing input xs with
  | zero =>
      obtain ⟨rfl, rfl⟩ := Prod.mk.inj (Except.ok.inj h)
      exact ⟨rfl, [], rfl, by simp⟩
  | succ n ih =>
      obtain ⟨x, middle, hx, h⟩ := Decoder.bind_eq_ok.mp h
      obtain ⟨ys, rest', hys, h⟩ := Decoder.bind_eq_ok.mp h
      obtain ⟨rfl, rfl⟩ := Prod.mk.inj (Except.ok.inj h)
      obtain ⟨first, hfirst, hle⟩ := hc input x middle hx
      obtain ⟨hn, others, hothers, hle'⟩ := ih hys
      refine ⟨congrArg (· + 1) hn, first ++ others, ?_, ?_⟩
      · exact Encoder.bind_eq_ok.mpr
          ⟨first, hfirst, Encoder.bind_eq_ok.mpr ⟨others, hothers, rfl⟩⟩
      · rw [List.length_append]
        omega

theorem Measured.list {c : Codec α} (hc : c.Measured) : c.list.Measured := by
  intro input xs rest h
  obtain ⟨n, middle, hn, h⟩ := Decoder.bind_eq_ok.mp h
  obtain ⟨hinput, hlength⟩ := decodeLength_eq_ok hn
  obtain ⟨rfl, elements, helements, hle⟩ := hc.each h
  refine ⟨_, Encoder.bind_eq_ok.mpr
    ⟨_, hlength, Encoder.bind_eq_ok.mpr ⟨elements, helements, rfl⟩⟩, ?_⟩
  rw [List.length_append, littleEndian_length]
  omega

/-! ## Byte strings and sequences behind a four-byte length -/

def sized32 : Codec Bytes where
  encode xs :=
    if xs.length < 2 ^ 32 then .ok (littleEndian 4 xs.length ++ xs) else .error .sequenceTooLong
  decode := do
    let length ← u32.decode
    Decoder.take length.toNat

def counted32 (c : Codec α) : Codec (List α) where
  encode xs :=
    if xs.length < 2 ^ 32 then do
      let elements ← encodeEach c xs
      pure (littleEndian 4 xs.length ++ elements)
    else .error .sequenceTooLong
  decode := do
    let count ← u32.decode
    decodeEach c count.toNat

/-- A length is read exactly where its four bytes stand. -/
theorem u32_decode_eq_ok {input rest : Bytes} {n : UInt32} :
    u32.decode.run input = .ok (n, rest) ↔ input = littleEndian 4 n.toNat ++ rest := by
  rw [u32_exact input n rest]
  simp

theorem sized32_encode_eq_ok {xs data : Bytes} :
    sized32.encode xs = .ok data ↔
      xs.length < 2 ^ 32 ∧ data = littleEndian 4 xs.length ++ xs := by
  simp only [sized32]
  split
  · rename_i hlt
    rw [Except.ok.injEq, eq_comm, and_iff_right hlt]
  · rename_i hlong
    exact iff_of_false nofun fun h => hlong h.1

theorem counted32_encode_eq_ok {c : Codec α} {xs : List α} {data : Bytes} :
    c.counted32.encode xs = .ok data ↔ xs.length < 2 ^ 32 ∧
      ∃ elements, encodeEach c xs = .ok elements ∧ data = littleEndian 4 xs.length ++ elements := by
  simp only [counted32]
  split
  · rename_i hlt
    rw [Encoder.bind_eq_ok, and_iff_right hlt]
    refine exists_congr fun elements => and_congr_right fun _ => ?_
    exact ⟨fun h => (Except.ok.inj h).symm, fun h => h ▸ rfl⟩
  · rename_i hlong
    exact iff_of_false nofun fun h => hlong h.1

theorem sized32_exact : sized32.Exact := by
  intro input xs rest
  constructor
  · intro h
    obtain ⟨n, middle, hn, htake⟩ := Decoder.bind_eq_ok.mp h
    obtain rfl := u32_decode_eq_ok.mp hn
    obtain ⟨hlength, rfl⟩ := Decoder.take_eq_ok htake
    have hlt : xs.length < 2 ^ 32 := hlength ▸ n.toNat_lt
    refine ⟨littleEndian 4 xs.length ++ xs, sized32_encode_eq_ok.mpr ⟨hlt, rfl⟩, ?_⟩
    rw [hlength, List.append_assoc]
  · rintro ⟨data, hdata, rfl⟩
    obtain ⟨hlt, rfl⟩ := sized32_encode_eq_ok.mp hdata
    have hn : (UInt32.ofNat xs.length).toNat = xs.length := UInt32.toNat_ofNat_of_lt' hlt
    refine Decoder.bind_eq_ok.mpr ⟨UInt32.ofNat xs.length, xs ++ rest, ?_, ?_⟩
    · rw [u32_decode_eq_ok, hn, List.append_assoc]
    · rw [hn]
      exact Decoder.take_append xs rest

theorem Exact.counted32 {c : Codec α} (hc : c.Exact) : c.counted32.Exact := by
  intro input xs rest
  constructor
  · intro h
    obtain ⟨n, middle, hn, heach⟩ := Decoder.bind_eq_ok.mp h
    obtain rfl := u32_decode_eq_ok.mp hn
    obtain ⟨hlength, elements, helements, rfl⟩ := hc.each.mp heach
    have hlt : xs.length < 2 ^ 32 := hlength ▸ n.toNat_lt
    refine ⟨littleEndian 4 xs.length ++ elements, ?_, ?_⟩
    · exact counted32_encode_eq_ok.mpr ⟨hlt, elements, helements, rfl⟩
    · rw [hlength, List.append_assoc]
  · rintro ⟨data, hdata, rfl⟩
    obtain ⟨hlt, elements, helements, rfl⟩ := counted32_encode_eq_ok.mp hdata
    have hn : (UInt32.ofNat xs.length).toNat = xs.length := UInt32.toNat_ofNat_of_lt' hlt
    refine Decoder.bind_eq_ok.mpr ⟨UInt32.ofNat xs.length, elements ++ rest, ?_, ?_⟩
    · rw [u32_decode_eq_ok, hn, List.append_assoc]
    · rw [hn]
      exact hc.each.mpr ⟨rfl, elements, helements, rfl⟩

/-! ## Variants: a four-byte index, then the fields of that variant -/

def tagged (index : UInt32) (fields : Codec α) (x : α) : Except CodecError Bytes :=
  (u32.prod fields).encode (index, x)

def variants (select : ℕ → Decoder β) : Decoder β := do
  let index ← u32.decode
  select index.toNat

theorem tagged_eq_ok {index : UInt32} {fields : Codec α} {x : α} {data : Bytes} :
    tagged index fields x = .ok data ↔
      ∃ payload, fields.encode x = .ok payload ∧ data = littleEndian 4 index.toNat ++ payload := by
  constructor
  · intro h
    obtain ⟨tag, htag, h⟩ := Encoder.bind_eq_ok.mp h
    obtain ⟨payload, hpayload, h⟩ := Encoder.bind_eq_ok.mp h
    obtain rfl := Except.ok.inj htag
    exact ⟨payload, hpayload, (Except.ok.inj h).symm⟩
  · rintro ⟨payload, hpayload, rfl⟩
    exact Encoder.bind_eq_ok.mpr ⟨_, rfl, Encoder.bind_eq_ok.mpr ⟨payload, hpayload, rfl⟩⟩

/-- A variant whose index selects a decoder of its own fields reads back. -/
theorem variants_tagged {select : ℕ → Decoder β} {index : UInt32} {fields : Codec α}
    (hfields : fields.Exact) {mk : α → β} (hselect : select index.toNat = mk <$> fields.decode)
    {x : α} {data : Bytes} (h : tagged index fields x = .ok data) (rest : Bytes) :
    (variants select).run (data ++ rest) = .ok (mk x, rest) := by
  obtain ⟨payload, hpayload, rfl⟩ := tagged_eq_ok.mp h
  rw [List.append_assoc]
  refine Decoder.bind_eq_ok.mpr ⟨index, payload ++ rest, u32_decode_eq_ok.mpr rfl, ?_⟩
  rw [hselect]
  exact Decoder.map_eq_ok.mpr ⟨x, hfields.roundTrips x payload rest hpayload, rfl⟩

theorem variants_eq_ok {select : ℕ → Decoder β} {input rest : Bytes} {y : β}
    (h : (variants select).run input = .ok (y, rest)) :
    ∃ (index : UInt32) (payload : Bytes), input = littleEndian 4 index.toNat ++ payload ∧
      (select index.toNat).run payload = .ok (y, rest) := by
  obtain ⟨index, payload, hindex, hpayload⟩ := Decoder.bind_eq_ok.mp h
  exact ⟨index, payload, u32_decode_eq_ok.mp hindex, hpayload⟩

/-- What is read from the fields of a variant stands encoded behind its index. -/
theorem Exact.tagged {fields : Codec α} (hfields : fields.Exact) {mk : α → β} {index : UInt32}
    {payload rest : Bytes} {y : β} (h : (mk <$> fields.decode).run payload = .ok (y, rest)) :
    ∃ x data, y = mk x ∧ Codec.tagged index fields x = .ok data ∧
      littleEndian 4 index.toNat ++ payload = data ++ rest := by
  obtain ⟨x, hx, rfl⟩ := Decoder.map_eq_ok.mp h
  obtain ⟨data, hdata, rfl⟩ := (hfields _ _ _).mp hx
  exact ⟨x, _, rfl, tagged_eq_ok.mpr ⟨data, hdata, rfl⟩, (List.append_assoc _ _ _).symm⟩

end Codec

end SilverNetwork
