import SilverNetwork.Model.Compression

/-! The batch format. The cursor loop of `unbatch` refines the decoder of a counted
sequence of sized messages, so it accepts exactly the inputs that begin with a batch. -/

namespace SilverNetwork

open MessageBatcher

/-- A four-byte count of messages, each behind its own four-byte length. -/
def batchCodec : Codec (List Bytes) := Codec.sized32.counted32

/-- The input begins with the batch of the given messages, which fit their length fields. -/
def BeginsWithBatch (input : Bytes) (messages : List Bytes) : Prop :=
  messages.length < 2 ^ 32 ∧ (∀ m ∈ messages, m.length < 2 ^ 32) ∧
    littleEndian 4 messages.length ++
      messages.flatMap (fun m => littleEndian 4 m.length ++ m) <+: input

theorem encodeEach_sized32 {messages : List Bytes} {data : Bytes} :
    Codec.encodeEach .sized32 messages = .ok data ↔
      (∀ m ∈ messages, m.length < 2 ^ 32) ∧
        data = messages.flatMap fun m => littleEndian 4 m.length ++ m := by
  induction messages generalizing data with
  | nil => simp [Codec.encodeEach, pure, Except.pure, eq_comm]
  | cons m messages ih =>
      simp only [Codec.encodeEach, Encoder.bind_eq_ok, ih, List.forall_mem_cons,
        List.flatMap_cons]
      constructor
      · rintro ⟨first, hfirst, others, ⟨hall, rfl⟩, hdata⟩
        obtain rfl := Except.ok.inj hdata
        obtain ⟨hlt, rfl⟩ := Codec.sized32_encode_eq_ok.mp hfirst
        exact ⟨⟨hlt, hall⟩, rfl⟩
      · rintro ⟨⟨hlt, hall⟩, rfl⟩
        exact ⟨_, Codec.sized32_encode_eq_ok.mpr ⟨hlt, rfl⟩, _, ⟨hall, rfl⟩, rfl⟩

/-- Reading a batch off the front of the input succeeds exactly where one stands there. -/
theorem batchCodec_decode_iff {input : Bytes} {messages : List Bytes} :
    (∃ rest, batchCodec.decode.run input = .ok (messages, rest)) ↔
      BeginsWithBatch input messages := by
  have hexact := Codec.sized32_exact.counted32
  constructor
  · rintro ⟨rest, h⟩
    obtain ⟨data, hdata, rfl⟩ := (hexact _ _ _).mp h
    obtain ⟨hlt, elements, helements, rfl⟩ := Codec.counted32_encode_eq_ok.mp hdata
    obtain ⟨hall, rfl⟩ := encodeEach_sized32.mp helements
    exact ⟨hlt, hall, List.prefix_append _ _⟩
  · rintro ⟨hlt, hall, rest, rfl⟩
    have helements := encodeEach_sized32.mpr ⟨hall, rfl⟩
    exact ⟨rest, (hexact _ _ _).mpr
      ⟨_, Codec.counted32_encode_eq_ok.mpr ⟨hlt, _, helements, rfl⟩, rfl⟩⟩

/-! ## The cursor loop -/

theorem slice_of_le {batch : Bytes} {start size : ℕ} (h : start + size ≤ batch.length) :
    slice batch start (start + size) = some ((batch.drop start).take size) := by
  rw [slice, if_pos ⟨Nat.le_add_right _ _, h⟩, Nat.add_sub_cancel_left]

theorem readLength_of_le {batch : Bytes} {cursor : ℕ} (h : cursor + 4 ≤ batch.length) :
    ∃ n : UInt32, readLength batch cursor = some n.toNat ∧
      Codec.u32.decode.run (batch.drop cursor) = .ok (n, batch.drop (cursor + 4)) := by
  refine ⟨_, ?_, Decoder.map_eq_ok.mpr ⟨(batch.drop cursor).take 4, ?_, rfl⟩⟩
  · rw [readLength, slice_of_le h]
    rfl
  · have hlength : 4 ≤ (batch.drop cursor).length := by
      rw [List.length_drop]
      omega
    rw [Decoder.take_of_le hlength, List.drop_drop]

/-- What one step of the loop does to a message that is all there, cut short, or missing its
length. -/
theorem sized32_decode_drop (batch : Bytes) (cursor : ℕ) (hcursor : cursor ≤ batch.length) :
    (batch.length < cursor + 4 ∧
        ∀ m rest, Codec.sized32.decode.run (batch.drop cursor) ≠ .ok (m, rest)) ∨
      ∃ n, cursor + 4 ≤ batch.length ∧ readLength batch cursor = some n ∧
        ((batch.length < cursor + 4 + n ∧
            ∀ m rest, Codec.sized32.decode.run (batch.drop cursor) ≠ .ok (m, rest)) ∨
          ∃ m, cursor + 4 + n ≤ batch.length ∧
            slice batch (cursor + 4) (cursor + 4 + n) = some m ∧
            Codec.sized32.decode.run (batch.drop cursor) =
              .ok (m, batch.drop (cursor + 4 + n))) := by
  by_cases hshort : batch.length < cursor + 4
  · refine Or.inl ⟨hshort, ?_⟩
    intro m rest h
    obtain ⟨n, middle, hn, _⟩ := Decoder.bind_eq_ok.mp h
    have hlength := Codec.u32_decode_length hn
    rw [List.length_drop] at hlength
    omega
  · have hfour : cursor + 4 ≤ batch.length := Nat.le_of_not_lt hshort
    obtain ⟨n, hread, hdecode⟩ := readLength_of_le hfour
    refine Or.inr ⟨n.toNat, hfour, hread, ?_⟩
    by_cases hcut : batch.length < cursor + 4 + n.toNat
    · refine Or.inl ⟨hcut, ?_⟩
      intro m rest h
      obtain ⟨n', middle, hn', htake⟩ := Decoder.bind_eq_ok.mp h
      obtain ⟨rfl, rfl⟩ := Prod.mk.inj (Except.ok.inj (hdecode.symm.trans hn'))
      obtain ⟨hlength, heq⟩ := Decoder.take_eq_ok htake
      have htotal := congrArg List.length heq
      rw [List.length_drop, List.length_append] at htotal
      omega
    · have hwhole : cursor + 4 + n.toNat ≤ batch.length := Nat.le_of_not_lt hcut
      refine Or.inr ⟨_, hwhole, slice_of_le hwhole, ?_⟩
      refine Decoder.bind_eq_ok.mpr ⟨n, _, hdecode, ?_⟩
      have hlength : n.toNat ≤ (batch.drop (cursor + 4)).length := by
        rw [List.length_drop]
        omega
      rw [Decoder.take_of_le hlength, List.drop_drop]

/-- The loop returns, and returns messages exactly where the decoder reads them. -/
theorem unbatchFrom_spec (batch : Bytes) (remaining cursor : ℕ) (messages : List Bytes)
    (hcursor : cursor ≤ batch.length) :
    (∃ new rest, (Codec.decodeEach .sized32 remaining).run (batch.drop cursor) = .ok (new, rest) ∧
        unbatchFrom batch remaining cursor messages = some (.ok (messages ++ new))) ∨
      (∀ new rest, (Codec.decodeEach .sized32 remaining).run (batch.drop cursor) ≠
          .ok (new, rest)) ∧
        ∃ e, unbatchFrom batch remaining cursor messages = some (.error e) := by
  induction remaining generalizing cursor messages with
  | zero => exact Or.inl ⟨[], batch.drop cursor, rfl, by simp [unbatchFrom]⟩
  | succ remaining ih =>
      rcases sized32_decode_drop batch cursor hcursor with
        ⟨hshort, hnone⟩ | ⟨n, hfour, hread, ⟨hcut, hnone⟩ | ⟨m, hwhole, hslice, hone⟩⟩
      · refine Or.inr ⟨?_, _, if_pos hshort⟩
        intro new rest h
        obtain ⟨m, middle, hm, _⟩ := Decoder.bind_eq_ok.mp h
        exact hnone m middle hm
      · refine Or.inr ⟨?_, ⟨.invalidData, "Incomplete message"⟩, ?_⟩
        · intro new rest h
          obtain ⟨m, middle, hm, _⟩ := Decoder.bind_eq_ok.mp h
          exact hnone m middle hm
        · simp [unbatchFrom, Nat.not_lt.mpr hfour, hread, hcut]
      · have hstep : unbatchFrom batch (remaining + 1) cursor messages =
            unbatchFrom batch remaining (cursor + 4 + n) (messages ++ [m]) := by
          simp [unbatchFrom, Nat.not_lt.mpr hfour, hread, Nat.not_lt.mpr hwhole, hslice]
        rw [hstep]
        rcases ih (cursor + 4 + n) (messages ++ [m]) hwhole with
          ⟨new, rest, hnew, hloop⟩ | ⟨hnone, e, hloop⟩
        · refine Or.inl ⟨m :: new, rest, ?_, ?_⟩
          · exact Decoder.bind_eq_ok.mpr ⟨m, _, hone, Decoder.bind_eq_ok.mpr ⟨new, rest, hnew, rfl⟩⟩
          · rw [hloop, List.append_assoc]
            rfl
        · refine Or.inr ⟨?_, e, hloop⟩
          intro new rest h
          obtain ⟨m', middle, hm', h⟩ := Decoder.bind_eq_ok.mp h
          obtain ⟨rfl, rfl⟩ := Prod.mk.inj (Except.ok.inj (hone.symm.trans hm'))
          obtain ⟨new', rest', hnew', _⟩ := Decoder.bind_eq_ok.mp h
          exact hnone new' rest' hnew'

/-- `unbatch` returns on every input, with the messages that the decoder reads or an error. -/
theorem unbatch_spec (batch : Bytes) :
    (∃ messages rest, batchCodec.decode.run batch = .ok (messages, rest) ∧
        unbatch batch = some (.ok messages)) ∨
      (∀ messages rest, batchCodec.decode.run batch ≠ .ok (messages, rest)) ∧
        ∃ e, unbatch batch = some (.error e) := by
  by_cases hshort : batch.length < 4
  · refine Or.inr ⟨?_, _, if_pos hshort⟩
    intro messages rest h
    obtain ⟨n, middle, hn, _⟩ := Decoder.bind_eq_ok.mp h
    have hlength := Codec.u32_decode_length hn
    omega
  · have hfour : 0 + 4 ≤ batch.length := by omega
    obtain ⟨n, hread, hdecode⟩ := readLength_of_le hfour
    have hloop : unbatch batch = unbatchFrom batch n.toNat 4 [] := by
      simp [unbatch, unbatchUnder, Allocator.unlimited, hshort, hread]
    rw [hloop]
    rcases unbatchFrom_spec batch n.toNat 4 [] (by omega) with
      ⟨new, rest, hnew, hfound⟩ | ⟨hnone, e, hfailed⟩
    · exact Or.inl ⟨new, rest, Decoder.bind_eq_ok.mpr ⟨n, _, hdecode, hnew⟩, hfound⟩
    · refine Or.inr ⟨?_, e, hfailed⟩
      intro messages rest h
      obtain ⟨n', middle, hn', h⟩ := Decoder.bind_eq_ok.mp h
      obtain ⟨rfl, rfl⟩ := Prod.mk.inj (Except.ok.inj (hdecode.symm.trans hn'))
      exact hnone messages rest h

theorem unbatch_eq_ok_iff {input : Bytes} {messages : List Bytes} :
    unbatch input = some (.ok messages) ↔ BeginsWithBatch input messages := by
  rw [← batchCodec_decode_iff]
  rcases unbatch_spec input with ⟨found, rest, hdecode, hunbatch⟩ | ⟨hnone, e, hunbatch⟩
  · rw [hunbatch]
    constructor
    · intro heq
      obtain rfl := Except.ok.inj (Option.some.inj heq)
      exact ⟨rest, hdecode⟩
    · rintro ⟨rest', hdecode'⟩
      obtain ⟨rfl, _⟩ := Prod.mk.inj (Except.ok.inj (hdecode.symm.trans hdecode'))
      rfl
  · rw [hunbatch]
    constructor
    · intro heq
      cases heq
    · rintro ⟨rest, hdecode⟩
      exact absurd hdecode (hnone messages rest)

/-! ## The memory for the messages -/

theorem readLength_zero {batch : Bytes} (h : 4 ≤ batch.length) :
    readLength batch 0 = some (ofLittleEndian (batch.take 4)) := by
  have hlt := ofLittleEndian_lt (batch.take 4)
  rw [List.length_take_of_le h] at hlt
  have hslice : slice batch 0 4 = some (batch.take 4) := if_pos ⟨Nat.zero_le _, h⟩
  rw [readLength, Nat.zero_add, hslice, Option.map_some, UInt32.toNat_ofNat_of_lt' hlt]

/-- What `Vec::with_capacity` is asked for. -/
def reservation (batch : Bytes) : ℕ := messageSlot * ofLittleEndian (batch.take 4)

theorem unbatchUnder_of_served {allocator : Allocator} {input : Bytes}
    (h : input.length < 4 ∨ allocator.serves (reservation input) = true) :
    unbatchUnder allocator input = unbatch input := by
  unfold unbatch unbatchUnder
  by_cases hshort : input.length < 4
  · rw [if_pos hshort, if_pos hshort]
  · have hserved : allocator.serves (messageSlot * ofLittleEndian (input.take 4)) = true :=
      h.resolve_left hshort
    rw [if_neg hshort, if_neg hshort, readLength_zero (Nat.le_of_not_lt hshort)]
    simp only [Option.bind_eq_bind, Option.bind_some, hserved, Allocator.unlimited]

theorem unbatchUnder_of_refused {allocator : Allocator} {input : Bytes}
    (hlong : ¬ input.length < 4) (h : ¬ allocator.serves (reservation input) = true) :
    unbatchUnder allocator input = none := by
  unfold unbatchUnder
  rw [if_neg hlong, readLength_zero (Nat.le_of_not_lt hlong)]
  exact if_neg h

/-- Exactly the inputs that begin with a batch are accepted, with the messages of that batch, and
every other input gets an error. -/
def AcceptsFormat (allocator : Allocator) (input : Bytes) : Prop :=
  (∀ messages, unbatchUnder allocator input = some (.ok messages) ↔
      BeginsWithBatch input messages) ∧
    ((∀ messages, ¬ BeginsWithBatch input messages) →
      ∃ e, unbatchUnder allocator input = some (.error e))

theorem acceptsFormat_unlimited (input : Bytes) : AcceptsFormat .unlimited input := by
  refine ⟨fun messages => unbatch_eq_ok_iff, ?_⟩
  intro hno
  rcases unbatch_spec input with ⟨found, rest, hdecode, _⟩ | ⟨_, herror⟩
  · exact absurd (batchCodec_decode_iff.mp ⟨rest, hdecode⟩) (hno found)
  · exact herror

/-- The inputs on which `unbatch` accepts the format are those whose reservation is served: on any
other it neither accepts nor refuses. -/
theorem unbatch_accepts_iff (allocator : Allocator) (input : Bytes) :
    AcceptsFormat allocator input ↔
      input.length < 4 ∨ allocator.serves (reservation input) = true := by
  constructor
  · rintro ⟨haccepts, hrefuses⟩
    by_contra hneither
    obtain ⟨hlong, hrefused⟩ := not_or.mp hneither
    have haborts := unbatchUnder_of_refused hlong hrefused
    by_cases hbatch : ∃ messages, BeginsWithBatch input messages
    · obtain ⟨messages, hbegins⟩ := hbatch
      cases haborts.symm.trans ((haccepts messages).mpr hbegins)
    · obtain ⟨e, herror⟩ := hrefuses (not_exists.mp hbatch)
      cases haborts.symm.trans herror
  · intro hserved
    rw [AcceptsFormat, unbatchUnder_of_served hserved]
    exact acceptsFormat_unlimited input

/-- Four bytes that declare `2 ^ 32 - 1` messages ask for 96 GiB. Where up to 64 GiB can be had, they
end the process instead of getting an error. -/
theorem declared_count_aborts :
    unbatchUnder (.upTo (2 ^ 36)) [255, 255, 255, 255] = none ∧
      ¬ AcceptsFormat (.upTo (2 ^ 36)) [255, 255, 255, 255] := by
  have haborts : unbatchUnder (.upTo (2 ^ 36)) [255, 255, 255, 255] = none := rfl
  refine ⟨haborts, ?_⟩
  rintro ⟨-, hrefuses⟩
  have hno : ∀ messages, ¬ BeginsWithBatch [255, 255, 255, 255] messages := by
    intro messages hbegins
    cases unbatch_eq_ok_iff.mpr hbegins
  obtain ⟨e, herror⟩ := hrefuses hno
  cases haborts.symm.trans herror

example : unbatch [2, 0, 0, 0, 1, 0, 0, 0, 9, 0, 0, 0, 0, 5] = some (.ok [[9], []]) := by decide

end SilverNetwork
