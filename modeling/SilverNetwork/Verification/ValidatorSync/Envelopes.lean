import SilverNetwork.Model.ValidatorEnvelope
import SilverNetwork.Verification.ValidatorSync.Parties

/-! The two ways to send a message. What one of them writes is the frame of the message, which the
message loop of the receiver decodes. What the other writes is an envelope around that frame: as
an envelope it reads back, verified and with the message in it, but the loop takes its type and
the length of its data for the index of a variant that no message has. -/

namespace SilverNetwork

namespace ValidatorSync

/-! ## Envelopes read back -/

theorem SocketAddr.v4Fields_exact : SocketAddr.v4Fields.Exact :=
  (Codec.octets_exact 4).prod Codec.u16_exact

theorem SocketAddr.v6Fields_exact : SocketAddr.v6Fields.Exact :=
  (Codec.octets_exact 16).prod Codec.u16_exact

theorem SocketAddr.variant_reads_back {α : Type} {index : UInt32} {fields : Codec α}
    (hfields : fields.Exact) {mk : α → SocketAddr}
    (hselect : decodeVariant index.toNat = mk <$> fields.decode) {x : α} {data : Bytes}
    (h : Codec.tagged index fields x = .ok data) (rest : Bytes) :
    codec.decode.run (data ++ rest) = .ok (mk x, rest) :=
  Codec.variants_tagged hfields hselect h rest

theorem SocketAddr.codec_roundTrips : SocketAddr.codec.RoundTrips := by
  intro address data rest h
  cases address with
  | v4 => exact variant_reads_back v4Fields_exact rfl h rest
  | v6 => exact variant_reads_back v6Fields_exact rfl h rest

theorem SocketAddr.encodes (address : SocketAddr) :
    ∃ data, codec.encode address = .ok data ∧ data.length ≤ 22 := by
  cases address with
  | v4 ip port =>
      have hip := ip.2
      exact ⟨_, rfl, by simp [hip]⟩
  | v6 ip port =>
      have hip := ip.2
      exact ⟨_, rfl, by simp [hip]⟩

namespace MessageEnvelope

variable {Address : Type} {texts : Texts Address} {e : MessageEnvelope} {f : Bytes}

theorem fieldsCodec_roundTrips : fieldsCodec.RoundTrips :=
  Codec.u8_exact.roundTrips.prod (Codec.bytes_roundTrips.prod (Codec.u64_roundTrips.prod
    (SocketAddr.codec_roundTrips.prod (Codec.u64_roundTrips.prod
      (Codec.bytes_roundTrips.prod Codec.bool_exact.roundTrips)))))

theorem codec_roundTrips : codec.RoundTrips := by
  intro e data rest h
  exact Decoder.map_eq_ok.mpr ⟨_, fieldsCodec_roundTrips _ data rest h, rfl⟩

theorem toBytes_eq_ok :
    e.toBytes texts = .ok f ↔
      ∃ payload, codec.encode e = .ok payload ∧ f = NetworkMessage.frame payload := by
  unfold toBytes
  cases codec.encode e with
  | error e => simp
  | ok payload => simp [eq_comm]

theorem fromBytes_toBytes (h : e.toBytes texts = .ok f) (hsmall : f.length < 2 ^ 32) :
    fromBytes texts f = .ok e := by
  obtain ⟨payload, hpayload, rfl⟩ := toBytes_eq_ok.mp h
  rw [NetworkMessage.frame_length] at hsmall
  have hdecode := codec_roundTrips e payload [] hpayload
  have hcounted : payload.length < 2 ^ 32 := by omega
  have hheader := NetworkMessage.frame_header hcounted []
  have hbody := NetworkMessage.frame_body payload [] payload.length
  rw [List.append_nil] at hdecode hheader hbody
  rw [List.append_nil, List.take_length] at hbody
  simp only [fromBytes, hheader, hbody, hdecode]
  rw [if_neg (by simp), if_neg (by simp)]

/-- An envelope of data that a length can count is written. -/
theorem encodes (hdata : e.data.length < 2 ^ 64) (hhash : e.hash.length < 2 ^ 64) :
    ∃ payload, codec.encode e = .ok payload ∧
      payload.length ≤ 56 + e.data.length + e.hash.length := by
  obtain ⟨address, haddress, hlength⟩ := e.senderAddr.encodes
  refine ⟨_, Codec.prod_encode rfl (Codec.prod_encode (Codec.bytes_encode hdata)
    (Codec.prod_encode rfl (Codec.prod_encode haddress (Codec.prod_encode rfl
      (Codec.prod_encode (Codec.bytes_encode hhash) rfl))))), ?_⟩
  simp only [List.length_append, littleEndian_length]
  omega

/-- The encoding begins with the type of the message and the length of its data. -/
theorem encode_begins {payload : Bytes} (h : codec.encode e = .ok payload) :
    ∃ tail, payload =
      littleEndian 1 e.messageType.toNat ++ (littleEndian 8 e.data.length ++ tail) := by
  obtain ⟨first, hfirst, h⟩ := Encoder.bind_eq_ok.mp h
  obtain ⟨second, hsecond, h⟩ := Encoder.bind_eq_ok.mp h
  obtain ⟨data, hdata, hsecond⟩ := Encoder.bind_eq_ok.mp hsecond
  obtain ⟨others, _, hsecond⟩ := Encoder.bind_eq_ok.mp hsecond
  obtain ⟨length, hlength, hdata⟩ := Encoder.bind_eq_ok.mp hdata
  obtain rfl := Except.ok.inj hfirst
  obtain rfl := Except.ok.inj h
  obtain rfl := Except.ok.inj hsecond
  obtain rfl := Except.ok.inj hdata
  unfold Codec.encodeLength at hlength
  split at hlength
  · obtain rfl := Except.ok.inj hlength
    exact ⟨e.data ++ others, by rw [List.append_assoc]⟩
  · cases hlength

end MessageEnvelope

/-! ## Envelopes do not read as messages -/

theorem NetworkMessage.decodeVariant_lt {n : ℕ} {input rest : Bytes} {m : NetworkMessage}
    (h : (decodeVariant n).run input = .ok (m, rest)) : n < 7 := by
  unfold decodeVariant at h
  split at h
  case h_8 => simp [throw, throwThe, MonadExceptOf.throw] at h
  all_goals decide

theorem length_low_bytes {index size : ℕ} {type : UInt8} {tail rest : Bytes} (hindex : index < 7)
    (h : littleEndian 4 index ++ rest = littleEndian 1 type.toNat ++ (littleEndian 8 size ++ tail)) :
    size % 2 ^ 24 = 0 := by
  simp only [littleEndian, List.cons_append, List.nil_append, List.cons.injEq,
    ← UInt8.toNat_inj, UInt8.toNat_ofNat'] at h
  omega

/-- Taken for the index of a variant, the type and the length of the data are too much. -/
theorem fromBytes_envelope {Address : Type} {texts : Texts Address} {e : MessageEnvelope}
    {f : Bytes} (h : e.toBytes texts = .ok f) (hpos : 0 < e.data.length)
    (hsmall : e.data.length < 2 ^ 24) : ∃ error, NetworkMessage.fromBytes texts f = .error error := by
  obtain ⟨payload, hpayload, rfl⟩ := MessageEnvelope.toBytes_eq_ok.mp h
  obtain ⟨tail, hbegins⟩ := MessageEnvelope.encode_begins hpayload
  cases hread : NetworkMessage.fromBytes texts (NetworkMessage.frame payload) with
  | error error => exact ⟨error, rfl⟩
  | ok m =>
      obtain ⟨_, rest, hdecode⟩ := NetworkMessage.fromBytes_eq_ok hread
      have hbody := NetworkMessage.frame_body payload []
        (ofBigEndian ((NetworkMessage.frame payload).take 4))
      rw [List.append_nil, List.append_nil] at hbody
      rw [hbody] at hdecode
      obtain ⟨index, fields, hindex, hselect⟩ := Codec.variants_eq_ok hdecode
      have hwhole : littleEndian 4 index.toNat ++ (fields ++
          payload.drop (ofBigEndian ((NetworkMessage.frame payload).take 4))) = payload := by
        rw [← List.append_assoc, ← hindex, List.take_append_drop]
      have hsize := length_low_bytes (NetworkMessage.decodeVariant_lt hselect)
        (hwhole.trans hbegins)
      omega

/-! ## What is written -/

variable {checks : OverflowChecks} {texts : Texts SocketAddr} {sha256 : Bytes → Bytes}
  {address : SocketAddr} {m : NetworkMessage} {maxRetries : ℕ} {bytes : Bytes}

/-- `send_message_with_retry_real` comes to write these bytes. -/
def RetryWrites (checks : OverflowChecks) (texts : Texts SocketAddr) (address : SocketAddr)
    (m : NetworkMessage) (maxRetries : ℕ) (bytes : Bytes) : Prop :=
  ∃ s calls number s', (sendMachine texts checks address m maxRetries).Run (.attempt 0 none, s)
    calls (.writing number bytes, s')

/-- `send_message_real` writes these bytes, for some clock, counter and outcomes. -/
def RealWrites (texts : Texts SocketAddr) (sha256 : Bytes → Bytes) (address : SocketAddr)
    (m : NetworkMessage) (bytes : Bytes) : Prop :=
  ∃ io wall messageSequence,
    (sendMessageReal texts sha256 address m io wall messageSequence).written = some bytes

/-- A message loop that reads the bytes, whatever its state, decodes the message from them. -/
def LoopDecodes (checks : OverflowChecks) (texts : Texts SocketAddr) (address : SocketAddr)
    (bytes : Bytes) (m : NetworkMessage) : Prop :=
  ∀ s now phase message s', listen checks texts address .receiving (.read (.data bytes) now) s =
    some (phase, message, s') → message = some m

/-- A frame that an attempt holds is the message's, and within the limit. -/
def SendPhase.Prepared (texts : Texts SocketAddr) (m : NetworkMessage) : SendPhase → Prop
  | .connecting _ frame | .writing _ frame =>
      m.toBytes texts = .ok frame ∧ frame.length ≤ maxMessageSize
  | .attempt _ _ | .finished _ => True

theorem send_prepared {phase phase' : SendPhase} {io : SendIo} {s s' : NetworkState SocketAddr}
    (h : send checks texts address m maxRetries phase io s = some (phase', s'))
    (hphase : phase.Prepared texts m) : phase'.Prepared texts m := by
  cases attemptRule_of_send h with
  | start number lastError frame remains encodes fits => exact ⟨encodes, fits⟩
  | connect => exact hphase
  | refuse | giveUp | unconnected | succeed | unwritten => trivial

/-- The path with retries writes the frame of the message, if that is within the limit. -/
theorem RetryWrites.frame (h : RetryWrites checks texts address m maxRetries bytes) :
    m.toBytes texts = .ok bytes ∧ bytes.length ≤ maxMessageSize := by
  obtain ⟨s, calls, number, s', hrun⟩ := h
  refine hrun.invariant (I := fun s => s.1.Prepared texts m) trivial ?_
  intro c hmakes hpre
  obtain ⟨⟨phase, s⟩, hsend, hpost⟩ := Option.map_eq_some_iff.mp hmakes
  obtain ⟨_, hpair⟩ := Prod.mk.inj hpost
  rw [← hpair]
  exact send_prepared hsend hpre

theorem prepareEnvelope_eq_ok {wall : SystemTime} {messageSequence advanced : UInt64} :
    prepareEnvelope texts sha256 address m wall messageSequence = (.ok bytes, advanced) ↔
      ∃ f, m.toBytes texts = .ok f ∧ f.length ≤ maxMessageSize ∧
        (MessageEnvelope.new sha256 (messageTypeFromNetworkMessage m) f address messageSequence
          wall).toBytes texts = .ok bytes ∧ Saturating.add64 messageSequence 1 = advanced := by
  unfold prepareEnvelope
  cases m.toBytes texts with
  | error e => simp
  | ok f =>
      by_cases hlimit : maxMessageSize < f.length
      · simp [hlimit, Nat.not_le.mpr hlimit]
      · simp [hlimit, Nat.le_of_not_lt hlimit, drawSequence]

/-- The path without retries writes an envelope around the frame, if that is within the limit. -/
theorem RealWrites.envelope (h : RealWrites texts sha256 address m bytes) :
    ∃ f sequence wall, m.toBytes texts = .ok f ∧ f.length ≤ maxMessageSize ∧
      (MessageEnvelope.new sha256 (messageTypeFromNetworkMessage m) f address sequence
        wall).toBytes texts = .ok bytes := by
  obtain ⟨io, wall, messageSequence, hwritten⟩ := h
  unfold sendMessageReal at hwritten
  split at hwritten
  · cases hwritten
  · rename_i envelopeData advanced hprepared
    obtain ⟨f, hframe, hlimit, henvelope, _⟩ := prepareEnvelope_eq_ok.mp hprepared
    split at hwritten
    · cases hwritten
    · obtain rfl := Option.some.inj hwritten
      exact ⟨f, messageSequence, wall, hframe, hlimit, henvelope⟩

/-! ## What is decoded -/

theorem listen_receiving {now : Instant} {s s' : NetworkState SocketAddr} {phase : ConnectionPhase}
    {message : Option NetworkMessage} (hne : bytes ≠ [])
    (h : listen checks texts address .receiving (.read (.data bytes) now) s =
      some (phase, message, s')) :
    message = (NetworkMessage.fromBytes texts bytes).toOption := by
  cases bytes with
  | nil => exact absurd rfl hne
  | cons b bytes =>
      obtain ⟨⟨found, after⟩, hreceive, hpair⟩ := Option.map_eq_some_iff.mp h
      obtain ⟨_, hpair⟩ := Prod.mk.inj hpair
      obtain ⟨hfound, _⟩ := Prod.mk.inj hpair
      unfold receive at hreceive
      cases hread : NetworkMessage.fromBytes texts (b :: bytes) with
      | error e =>
          simp only [hread, Option.some.injEq, Prod.mk.injEq] at hreceive
          rw [← hfound, ← hreceive.1]
          rfl
      | ok m =>
          simp only [hread, Option.bind_eq_bind, Option.bind_eq_some_iff, Option.some.injEq,
            Prod.mk.injEq] at hreceive
          obtain ⟨_, _, _, _, _, _, hsame, _⟩ := hreceive
          rw [← hfound, ← hsame]
          rfl

/-- What does not read as a message is passed over. -/
theorem listen_passes {e : CoreError} (hne : bytes ≠ [])
    (h : NetworkMessage.fromBytes texts bytes = .error e) (checks : OverflowChecks)
    (address : SocketAddr) (now : Instant) (s : NetworkState SocketAddr) :
    listen checks texts address .receiving (.read (.data bytes) now) s =
      some (.receiving, none, s) := by
  cases bytes with
  | nil => exact absurd rfl hne
  | cons b bytes => simp [listen, receive, h]

/-- The loop decodes what the path with retries writes. -/
theorem retry_path_decoded (h : RetryWrites checks texts address m maxRetries bytes)
    (listener : SocketAddr) : LoopDecodes checks texts listener bytes m := by
  obtain ⟨hframe, hlimit⟩ := h.frame
  obtain ⟨payload, _, rfl⟩ := NetworkMessage.toBytes_eq_ok.mp hframe
  have hread := NetworkMessage.fromBytes_append hframe
    (Nat.lt_of_le_of_lt hlimit (by decide)) []
  rw [List.append_nil] at hread
  intro s now phase message s' hlisten
  rw [listen_receiving (NetworkMessage.frame_ne_nil payload) hlisten, hread]
  rfl

/-- The loop decodes nothing from an envelope. -/
theorem real_path_not_decoded (h : RealWrites texts sha256 address m bytes)
    (listener : SocketAddr) : ¬ LoopDecodes checks texts listener bytes m := by
  obtain ⟨f, sequence, wall, hframe, hlimit, henvelope⟩ := h.envelope
  obtain ⟨message, _, rfl⟩ := NetworkMessage.toBytes_eq_ok.mp hframe
  obtain ⟨error, herror⟩ := fromBytes_envelope henvelope
    (List.length_pos_iff.mpr (NetworkMessage.frame_ne_nil message))
    (Nat.lt_of_le_of_lt hlimit (by decide))
  obtain ⟨payload, _, rfl⟩ := MessageEnvelope.toBytes_eq_ok.mp henvelope
  intro hdecodes
  have hpasses := listen_passes (NetworkMessage.frame_ne_nil payload) herror checks listener 0
    ⟨∅, .zero⟩
  cases hdecodes _ _ _ _ _ hpasses

/-- A frame within the limit is put into an envelope and written. -/
theorem real_path_writes {f : Bytes} (hsha : ∀ data, (sha256 data).length = 32)
    (hframe : m.toBytes texts = .ok f) (hlimit : f.length ≤ maxMessageSize)
    (address : SocketAddr) : ∃ bytes, RealWrites texts sha256 address m bytes := by
  have hdata : f.length < 2 ^ 64 := Nat.lt_of_le_of_lt hlimit (by decide)
  have hhash : (sha256 f).length < 2 ^ 64 := by
    rw [hsha]
    decide
  obtain ⟨payload, hpayload, _⟩ := MessageEnvelope.encodes
    (e := .new sha256 (messageTypeFromNetworkMessage m) f address 0 0) hdata hhash
  have hprepared := prepareEnvelope_eq_ok.mpr
    ⟨f, hframe, hlimit, MessageEnvelope.toBytes_eq_ok.mpr ⟨payload, hpayload, rfl⟩, rfl⟩
  refine ⟨NetworkMessage.frame payload, ⟨.ok, .ok, .ok, .timeout⟩, 0, 0, ?_⟩
  rw [sendMessageReal, hprepared]
  rfl

/-- Read as an envelope, what is written holds the message, and verifies. -/
theorem envelope_holds_message (hsha : ∀ data, (sha256 data).length = 32)
    (h : RealWrites texts sha256 address m bytes) :
    ∃ e, MessageEnvelope.fromBytes texts bytes = .ok e ∧ e.verifyIntegrity sha256 ∧
      NetworkMessage.fromBytes texts e.data = .ok m := by
  obtain ⟨f, sequence, wall, hframe, hlimit, henvelope⟩ := h.envelope
  have hsmall : f.length < 2 ^ 32 := Nat.lt_of_le_of_lt hlimit (by decide)
  obtain ⟨payload, hpayload, rfl⟩ := MessageEnvelope.toBytes_eq_ok.mp henvelope
  obtain ⟨payload', hpayload', hlength⟩ := MessageEnvelope.encodes
    (e := .new sha256 (messageTypeFromNetworkMessage m) f address sequence wall)
    (Nat.lt_of_lt_of_le hsmall (by decide)) (by simp [MessageEnvelope.new, hsha])
  obtain rfl := Except.ok.inj (hpayload'.symm.trans hpayload)
  have hbound : payload'.length ≤ 56 + f.length + 32 := hsha f ▸ hlength
  have hlimit' : f.length ≤ 10485760 := hlimit
  have hread := NetworkMessage.fromBytes_append hframe hsmall []
  rw [List.append_nil] at hread
  refine ⟨_, MessageEnvelope.fromBytes_toBytes henvelope ?_, ?_, hread⟩
  · rw [NetworkMessage.frame_length]
    omega
  · simp [MessageEnvelope.verifyIntegrity, MessageEnvelope.new]

/-- Both paths write what the loop decodes only where they write nothing, the frame being beyond
the limit: of what is written, the loop decodes the frames and none of the envelopes. -/
theorem both_paths_decoded_iff (checks : OverflowChecks) (texts : Texts SocketAddr)
    (hsha : ∀ data, (sha256 data).length = 32) (m : NetworkMessage) (maxRetries : ℕ)
    (address listener : SocketAddr) :
    (∀ bytes, RetryWrites checks texts address m maxRetries bytes ∨
      RealWrites texts sha256 address m bytes → LoopDecodes checks texts listener bytes m) ↔
      ∀ f, m.toBytes texts = .ok f → maxMessageSize < f.length := by
  constructor
  · intro h f hframe
    by_contra hlimit
    obtain ⟨bytes, hwrites⟩ :=
      real_path_writes hsha hframe (Nat.le_of_not_lt hlimit) address
    exact real_path_not_decoded hwrites listener (h bytes (.inr hwrites))
  · intro h bytes hwrites
    cases hwrites with
    | inl hretry => exact retry_path_decoded hretry listener
    | inr hreal =>
        obtain ⟨f, _, _, hframe, hlimit, _⟩ := hreal.envelope
        exact absurd (h f hframe) (Nat.not_lt.mpr hlimit)

/-- What SHA-256 is on the frame of a ping with the timestamp 1 and the nonce 2. -/
def pingSha256 (_ : Bytes) : Bytes :=
  [245, 176, 162, 73, 183, 66, 160, 184, 160, 137, 74, 25, 236, 217, 170, 180,
    119, 176, 122, 233, 105, 150, 149, 239, 188, 138, 112, 23, 201, 65, 193, 118]

def SocketAddr.loopback : SocketAddr := .v4 ⟨[127, 0, 0, 1], rfl⟩ 9000

def Texts.plainAddresses : Texts SocketAddr where
  address _ := "127.0.0.1:9000"
  codecError := Texts.plain.codecError
  coreError := Texts.plain.coreError

theorem both_paths_decoded_iff_plain :
    (∀ bytes, RetryWrites .on .plainAddresses .loopback (.ping 1 2) 1 bytes ∨
      RealWrites .plainAddresses pingSha256 .loopback (.ping 1 2) bytes →
        LoopDecodes .on .plainAddresses .loopback bytes (.ping 1 2)) ↔
      ∀ f, (NetworkMessage.ping 1 2).toBytes .plainAddresses = .ok f →
        maxMessageSize < f.length :=
  both_paths_decoded_iff .on .plainAddresses (fun _ => rfl) (.ping 1 2) 1 .loopback .loopback

/-- An envelope with a ping is written, and the loop does not decode it. -/
theorem ping_envelope_not_decoded : ¬ ∀ (checks : OverflowChecks) (texts : Texts SocketAddr)
    (sha256 : Bytes → Bytes) (m : NetworkMessage) (maxRetries : ℕ)
    (address listener : SocketAddr), (∀ data, (sha256 data).length = 32) →
      ∀ bytes, RetryWrites checks texts address m maxRetries bytes ∨
        RealWrites texts sha256 address m bytes → LoopDecodes checks texts listener bytes m := by
  intro hall
  obtain ⟨bytes, hwrites⟩ : ∃ bytes,
      RealWrites .plainAddresses pingSha256 .loopback (.ping 1 2) bytes :=
    real_path_writes (fun _ => rfl) rfl (by decide) .loopback
  exact real_path_not_decoded hwrites .loopback
    (hall .on .plainAddresses pingSha256 (.ping 1 2) 1 .loopback .loopback
      (fun _ => rfl) bytes (.inr hwrites))

end ValidatorSync

end SilverNetwork
