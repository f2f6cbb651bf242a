import SilverNetwork.Model.Message

/-! The format of gossip messages: every message reads back as itself, and what reads as
a message is four bytes longer than the payload it carries. -/

namespace SilverNetwork.NetworkMessage

variable {P : Payloads}

/-! ## Round trip -/

theorem workPackageFields_roundTrips : workPackageFields.RoundTrips :=
  Codec.u64_roundTrips.prod (Codec.bytes_roundTrips.prod
    (Codec.u64_roundTrips.prod Codec.u32_roundTrips))

theorem minerShareFields_roundTrips : minerShareFields.RoundTrips :=
  Codec.u64_roundTrips.prod (Codec.u64_roundTrips.prod Codec.bytes_roundTrips)

theorem batchRequestFields_roundTrips : batchRequestFields.RoundTrips :=
  Codec.u64_roundTrips.prod Codec.u64_roundTrips

/-- A variant whose fields read back as themselves, and whose index selects a decoder of
just these fields, reads back as itself. -/
theorem variant_reads_back {α : Type} {index : UInt32} {fields : Codec α}
    (hfields : fields.RoundTrips) {mk : α → NetworkMessage P}
    (hindex : decodeVariant index.toNat = mk <$> fields.decode) {x : α} {data : Bytes}
    (h : encodeVariant index fields x = .ok data) (rest : Bytes) :
    codec.decode.run (data ++ rest) = .ok (mk x, rest) := by
  obtain ⟨tag, htag, h⟩ := Encoder.bind_eq_ok.mp h
  obtain ⟨payload, hpayload, h⟩ := Encoder.bind_eq_ok.mp h
  obtain rfl := Except.ok.inj h
  rw [List.append_assoc]
  refine Decoder.bind_eq_ok.mpr
    ⟨index, payload ++ rest, Codec.u32_roundTrips index tag _ htag, ?_⟩
  rw [hindex]
  exact Decoder.map_eq_ok.mpr ⟨x, hfields x payload rest hpayload, rfl⟩

theorem codec_roundTrips (htx : P.transaction.RoundTrips)
    (hbatch : P.transactionBatch.RoundTrips) : (codec (P := P)).RoundTrips := by
  intro m data rest h
  cases m with
  | transaction tx => exact variant_reads_back htx rfl h rest
  | batch b => exact variant_reads_back hbatch rfl h rest
  | workPackage => exact variant_reads_back workPackageFields_roundTrips rfl h rest
  | minerShare => exact variant_reads_back minerShareFields_roundTrips rfl h rest
  | batchRequest => exact variant_reads_back batchRequestFields_roundTrips rfl h rest
  | batchResponse => exact variant_reads_back hbatch.list rfl h rest
  | ping => exact variant_reads_back Codec.u64_roundTrips rfl h rest
  | pong => exact variant_reads_back Codec.u64_roundTrips rfl h rest

theorem fromBytes_toBytes (htx : P.transaction.RoundTrips)
    (hbatch : P.transactionBatch.RoundTrips) {m : NetworkMessage P} {data : Bytes}
    (h : m.toBytes = .ok data) : fromBytes data = .ok m := by
  have hdecode := codec_roundTrips htx hbatch m data [] h
  rw [List.append_nil] at hdecode
  rw [fromBytes, hdecode]
  rfl

/-! ## The variant index -/

theorem fromBytes_eq_ok {data : Bytes} {m : NetworkMessage P} (h : fromBytes data = .ok m) :
    ∃ index payload rest, data.length = 4 + payload.length ∧
      (decodeVariant index).run payload = .ok (m, rest) := by
  unfold fromBytes at h
  cases hrun : codec.decode.run data with
  | error e =>
      rw [hrun] at h
      simp [Functor.map, Except.map] at h
  | ok p =>
      obtain ⟨m', rest⟩ := p
      rw [hrun] at h
      obtain rfl : m' = m := Except.ok.inj h
      obtain ⟨index, payload, hindex, hpayload⟩ := Decoder.bind_eq_ok.mp hrun
      exact ⟨_, payload, rest, Codec.u32_decode_length hindex, hpayload⟩

/-- A transaction or a batch is read from the whole payload of its variant. -/
theorem decodeVariant_payload {index : ℕ} {payload rest : Bytes} {m : NetworkMessage P}
    (h : (decodeVariant index).run payload = .ok (m, rest)) :
    match m with
    | .transaction tx => P.transaction.decode.run payload = .ok (tx, rest)
    | .batch b => P.transactionBatch.decode.run payload = .ok (b, rest)
    | _ => True := by
  unfold decodeVariant at h
  split at h
  case h_9 => simp [throw, throwThe, MonadExceptOf.throw] at h
  all_goals obtain ⟨x, hx, rfl⟩ := Decoder.map_eq_ok.mp h
  case h_1 | h_2 => exact hx
  all_goals trivial

/-- What reads as a transaction is longer than the transaction's own encoding. -/
theorem length_lt_of_reads_transaction (hmeasured : P.transaction.Measured) {data : Bytes}
    {tx : P.Transaction} (h : fromBytes data = .ok (.transaction tx)) :
    ∃ own, P.transaction.encode tx = .ok own ∧ own.length < data.length := by
  obtain ⟨index, payload, rest, hlength, hpayload⟩ := fromBytes_eq_ok h
  obtain ⟨own, hown, hle⟩ := hmeasured payload tx rest (decodeVariant_payload hpayload)
  exact ⟨own, hown, by omega⟩

/-- What reads as a batch is longer than the batch's own encoding. -/
theorem length_lt_of_reads_batch (hmeasured : P.transactionBatch.Measured) {data : Bytes}
    {batch : P.TransactionBatch} (h : fromBytes data = .ok (.batch batch)) :
    ∃ own, P.transactionBatch.encode batch = .ok own ∧ own.length < data.length := by
  obtain ⟨index, payload, rest, hlength, hpayload⟩ := fromBytes_eq_ok h
  obtain ⟨own, hown, hle⟩ := hmeasured payload batch rest (decodeVariant_payload hpayload)
  exact ⟨own, hown, by omega⟩

end SilverNetwork.NetworkMessage
