import SilverNetwork.Model.ValidatorMessage

/-! The frames of validator messages. A frame of less than 4 GiB reads as its message whatever
follows it, no part of it reads as anything, and what reads as a message is no shorter than the
frame of that message. -/

namespace SilverNetwork

namespace ValidatorSync

namespace NetworkMessage

/-! ## The payload -/

theorem validatorSetChangeFields_exact : validatorSetChangeFields.Exact :=
  Codec.bytes_exact.prod Codec.u32_exact

theorem snapshotCertificateFields_exact : snapshotCertificateFields.Exact :=
  Codec.bytes_exact.prod (Codec.u64_exact.prod Codec.u32_exact)

theorem transactionBatchFields_exact : transactionBatchFields.Exact :=
  Codec.bytes_exact.prod (Codec.bytes_exact.prod (Codec.u64_exact.prod Codec.u32_exact))

theorem pingFields_exact : pingFields.Exact := Codec.u64_exact.prod Codec.u64_exact

theorem handshakeFields_exact : handshakeFields.Exact :=
  Codec.bytes_exact.prod (Codec.u32_exact.prod Codec.bytes_exact)

theorem ackFields_exact : ackFields.Exact := Codec.bytes_exact.prod Codec.u64_exact

/-- A variant whose index selects a decoder of its own fields reads back. -/
theorem variant_reads_back {α : Type} {index : UInt32} {fields : Codec α} (hfields : fields.Exact)
    {mk : α → NetworkMessage} (hselect : decodeVariant index.toNat = mk <$> fields.decode) {x : α}
    {data : Bytes} (h : Codec.tagged index fields x = .ok data) (rest : Bytes) :
    codec.decode.run (data ++ rest) = .ok (mk x, rest) :=
  Codec.variants_tagged hfields hselect h rest

theorem codec_roundTrips : codec.RoundTrips := by
  intro m data rest h
  cases m with
  | validatorSetChange => exact variant_reads_back validatorSetChangeFields_exact rfl h rest
  | snapshotCertificate => exact variant_reads_back snapshotCertificateFields_exact rfl h rest
  | transactionBatch => exact variant_reads_back transactionBatchFields_exact rfl h rest
  | ping => exact variant_reads_back pingFields_exact rfl h rest
  | pong => exact variant_reads_back pingFields_exact rfl h rest
  | handshake => exact variant_reads_back handshakeFields_exact rfl h rest
  | ack => exact variant_reads_back ackFields_exact rfl h rest

/-- What is read from the fields of a variant is a message that encodes them. -/
theorem encodes_variant {α : Type} {index : UInt32} {fields : Codec α} (hfields : fields.Exact)
    {mk : α → NetworkMessage} (hmk : ∀ x, codec.encode (mk x) = Codec.tagged index fields x)
    {payload rest : Bytes} {m : NetworkMessage}
    (h : (mk <$> fields.decode).run payload = .ok (m, rest)) :
    ∃ data, codec.encode m = .ok data ∧ littleEndian 4 index.toNat ++ payload = data ++ rest := by
  obtain ⟨x, data, rfl, hdata, hpayload⟩ := hfields.tagged h
  exact ⟨data, (hmk x).trans hdata, hpayload⟩

/-- A payload reads as a message exactly where the encoding of that message stands. -/
theorem codec_exact : codec.Exact := by
  intro input m rest
  constructor
  · intro h
    obtain ⟨index, payload, rfl, hselect⟩ := Codec.variants_eq_ok h
    generalize hn : index.toNat = n at hselect
    obtain rfl : index = UInt32.ofNat n := by rw [← hn, UInt32.ofNat_toNat]
    rw [← hn]
    unfold decodeVariant at hselect
    split at hselect
    · exact encodes_variant validatorSetChangeFields_exact (fun _ => rfl) hselect
    · exact encodes_variant snapshotCertificateFields_exact (fun _ => rfl) hselect
    · exact encodes_variant transactionBatchFields_exact (fun _ => rfl) hselect
    · exact encodes_variant pingFields_exact (fun _ => rfl) hselect
    · exact encodes_variant pingFields_exact (fun _ => rfl) hselect
    · exact encodes_variant handshakeFields_exact (fun _ => rfl) hselect
    · exact encodes_variant ackFields_exact (fun _ => rfl) hselect
    · simp [throw, throwThe, MonadExceptOf.throw] at hselect
  · rintro ⟨data, hdata, rfl⟩
    exact codec_roundTrips m data rest hdata

/-! ## The frame -/

variable {Address : Type} {texts : Texts Address} {m : NetworkMessage} {f : Bytes}

theorem toBytes_eq_ok :
    toBytes texts m = .ok f ↔ ∃ payload, codec.encode m = .ok payload ∧ f = frame payload := by
  unfold toBytes
  cases codec.encode m with
  | error e => simp
  | ok payload => simp [eq_comm]

@[simp] theorem frame_length (payload : Bytes) : (frame payload).length = 4 + payload.length := by
  simp [frame]

theorem frame_ne_nil (payload : Bytes) : frame payload ≠ [] := by
  intro h
  have hlength := congrArg List.length h
  rw [frame_length, List.length_nil] at hlength
  omega

theorem ofBigEndian_frame {payload : Bytes} (h : payload.length < 2 ^ 32) :
    ofBigEndian ((frame payload).take 4) = payload.length := by
  have htoNat : (UInt32.ofNat payload.length).toNat = payload.length :=
    UInt32.toNat_ofNat_of_lt' h
  rw [frame, htoNat, List.take_left' (bigEndian_length 4 _)]
  exact ofBigEndian_bigEndian h

section Frame

variable {payload : Bytes}

theorem frame_header (hsmall : payload.length < 2 ^ 32) (rest : Bytes) :
    ofBigEndian ((frame payload ++ rest).take 4) = payload.length := by
  rw [List.take_append_of_le_length (by simp)]
  exact ofBigEndian_frame hsmall

theorem frame_body (payload rest : Bytes) (n : ℕ) :
    ((frame payload ++ rest).drop 4).take n = (payload ++ rest).take n := by
  rw [frame, List.append_assoc, List.drop_left' (bigEndian_length 4 _)]

/-- A frame reads as its message, whatever follows it. -/
theorem fromBytes_frame (hencode : codec.encode m = .ok payload) (hsmall : payload.length < 2 ^ 32)
    (rest : Bytes) : fromBytes texts (frame payload ++ rest) = .ok m := by
  have hdecode := codec_roundTrips m payload [] hencode
  rw [List.append_nil] at hdecode
  simp only [fromBytes, frame_header hsmall, frame_body, List.take_left, hdecode]
  rw [if_neg (by simp; omega), if_neg (by simp)]

/-- No proper part of a frame reads as a message. -/
theorem fromBytes_frame_take (hsmall : payload.length < 2 ^ 32) {k : ℕ}
    (hk : k < 4 + payload.length) :
    ∃ e, fromBytes texts ((frame payload).take k) = .error e := by
  have hlength : ((frame payload).take k).length = k := by
    rw [List.length_take, frame_length]
    omega
  unfold fromBytes
  by_cases hshort : k < 4
  · exact ⟨_, if_pos (by rwa [hlength])⟩
  · have hheader : ofBigEndian (((frame payload).take k).take 4) = payload.length := by
      rw [List.take_take, Nat.min_eq_left (Nat.le_of_not_lt hshort)]
      exact ofBigEndian_frame hsmall
    rw [if_neg (by rwa [hlength]), hheader]
    exact ⟨_, if_pos (by rwa [hlength])⟩

/-- A frame is the frame of one message only. -/
theorem toBytes_injective {m m' : NetworkMessage} (h : toBytes texts m = .ok f)
    (h' : toBytes texts m' = .ok f) : m = m' := by
  obtain ⟨payload, hpayload, rfl⟩ := toBytes_eq_ok.mp h
  obtain ⟨payload', hpayload', hframe⟩ := toBytes_eq_ok.mp h'
  obtain ⟨_, rfl⟩ := List.append_inj hframe (by simp)
  have hread := codec_roundTrips m payload [] hpayload
  rw [codec_roundTrips m' payload [] hpayload'] at hread
  exact (Prod.mk.inj (Except.ok.inj hread)).1.symm

end Frame

theorem fromBytes_append (h : toBytes texts m = .ok f) (hsmall : f.length < 2 ^ 32)
    (rest : Bytes) : fromBytes texts (f ++ rest) = .ok m := by
  obtain ⟨payload, hpayload, rfl⟩ := toBytes_eq_ok.mp h
  rw [frame_length] at hsmall
  exact fromBytes_frame hpayload (by omega) rest

theorem fromBytes_take (h : toBytes texts m = .ok f) (hsmall : f.length < 2 ^ 32) {k : ℕ}
    (hk : k < f.length) : ∃ e, fromBytes texts (f.take k) = .error e := by
  obtain ⟨payload, hpayload, rfl⟩ := toBytes_eq_ok.mp h
  rw [frame_length] at hsmall hk
  exact fromBytes_frame_take (by omega) hk

/-- What reads as a message is long enough for its header, and decodes behind it. -/
theorem fromBytes_eq_ok {data : Bytes} (h : fromBytes texts data = .ok m) :
    4 + ofBigEndian (data.take 4) ≤ data.length ∧ ∃ rest,
      codec.decode.run ((data.drop 4).take (ofBigEndian (data.take 4))) = .ok (m, rest) := by
  simp only [fromBytes] at h
  split at h
  · cases h
  · split at h
    · cases h
    · rename_i _ hincomplete
      split at h
      · cases h
      · rename_i message rest hdecode
        obtain rfl := Except.ok.inj h
        exact ⟨Nat.le_of_not_lt hincomplete, rest, hdecode⟩

/-- What reads as a message is at least as long as the frame of that message. -/
theorem length_le_of_fromBytes {data : Bytes} (h : fromBytes texts data = .ok m) :
    ∃ f, toBytes texts m = .ok f ∧ f.length ≤ data.length := by
  obtain ⟨hlong, rest, hdecode⟩ := fromBytes_eq_ok h
  obtain ⟨payload, hpayload, hbody⟩ := (codec_exact _ _ _).mp hdecode
  have hlength := congrArg List.length hbody
  rw [List.length_take, List.length_drop, List.length_append] at hlength
  refine ⟨frame payload, toBytes_eq_ok.mpr ⟨payload, hpayload, rfl⟩, ?_⟩
  rw [frame_length]
  omega

/-- A message that the length of a frame can count goes through the wire whole or not at all: its
frame reads as it, no part of the frame reads, and no other message has that frame. -/
theorem wire_codec {payload : Bytes} (hencode : codec.encode m = .ok payload)
    (hsmall : payload.length < 2 ^ 32) :
    ∃ frame, toBytes texts m = .ok frame ∧
      (∀ rest, fromBytes texts (frame ++ rest) = .ok m) ∧
      (∀ part, part <+: frame → part ≠ frame → ∃ e, fromBytes texts part = .error e) ∧
      ∀ m', toBytes texts m' = toBytes texts m → m' = m := by
  have hbytes : toBytes texts m = .ok (frame payload) := toBytes_eq_ok.mpr ⟨payload, hencode, rfl⟩
  refine ⟨frame payload, hbytes, fromBytes_frame hencode hsmall, ?_, ?_⟩
  · intro part hpart hne
    have hlength : part.length < (frame payload).length :=
      Nat.lt_of_le_of_ne hpart.length_le fun h => hne (hpart.eq_of_length h)
    rw [List.prefix_iff_eq_take.mp hpart]
    rw [frame_length] at hlength
    exact fromBytes_frame_take hsmall hlength
  · intro m' h
    exact toBytes_injective (h.trans hbytes) hbytes

theorem wire_codec_plain :
    ∃ frame, toBytes Texts.plain (.handshake [7] 1 [1, 2]) = .ok frame ∧
      (∀ rest, fromBytes Texts.plain (frame ++ rest) = .ok (.handshake [7] 1 [1, 2])) ∧
      (∀ part, part <+: frame → part ≠ frame →
        ∃ e, fromBytes Texts.plain part = .error e) ∧
      ∀ m', toBytes Texts.plain m' = toBytes Texts.plain (.handshake [7] 1 [1, 2]) →
        m' = .handshake [7] 1 [1, 2] :=
  wire_codec rfl (by decide)

end NetworkMessage

end ValidatorSync

end SilverNetwork
