import SilverNetwork.Model.Compression

/-! The message compressor, over the raw Snappy codec of the `snap` crate. An operation that
panics, by overflow of a counter or of the capacity of a vector, is `none`. -/

namespace SilverNetwork

/-- The encoders and decoders of `snap::raw`, which are reused from call to call. An error is
given by its message. -/
structure Snap where
  Encoder : Type
  Decoder : Type
  newEncoder : Encoder
  newDecoder : Decoder
  compressVec : Encoder → ByteSlice → Except String ByteSlice × Encoder
  decompressVec : Decoder → ByteSlice → Except String ByteSlice × Decoder

/-- What any encoder has compressed, every decoder restores. -/
def Snap.Lossless (S : Snap) : Prop :=
  ∀ encoder decoder data compressed, (S.compressVec encoder data).1 = .ok compressed →
    (S.decompressVec decoder compressed).1 = .ok data

def zeros : ByteSlice := ⟨List.replicate 1024 0, by rw [List.length_replicate]; decide⟩

/-- What Snappy writes for the zeros: their number, a first zero, and for the others fifteen
copies of 64 bytes and one of 63, each from one byte back. -/
def packedZeros : ByteSlice where
  bytes := [0x80, 0x08, 0x00, 0x00] ++ (List.replicate 15 [0xfe, 0x01, 0x00]).flatten ++
    [0xfa, 0x01, 0x00]
  length_lt := by decide

/-- A codec that knows one message. -/
abbrev Snap.sample : Snap where
  Encoder := Unit
  Decoder := Unit
  newEncoder := ()
  newDecoder := ()
  compressVec _ data := (if data.bytes = zeros.bytes then .ok packedZeros else .error "", ())
  decompressVec _ data := (if data.bytes = packedZeros.bytes then .ok zeros else .error "", ())

theorem Snap.sample_lossless : Snap.sample.Lossless := by
  intro _ _ data compressed h
  simp only at h ⊢
  split at h
  · rename_i hdata
    obtain rfl := Except.ok.inj h
    rw [if_pos rfl, ByteSlice.ext hdata]
  · simp at h

/-- Messages with fewer bytes are not compressed. -/
def compressionThreshold : ℕ := 1024

structure CompressionStats where
  bytesCompressed : UInt64
  bytesAfterCompression : UInt64
  bytesDecompressed : UInt64
  messagesCompressed : UInt64
  messagesDecompressed : UInt64
  messagesSkipped : UInt64
  deriving DecidableEq

namespace CompressionStats

def default : CompressionStats := ⟨0, 0, 0, 0, 0, 0⟩

def countSkipped (checks : OverflowChecks) (stats : CompressionStats) :
    Option CompressionStats :=
  (checks.add stats.messagesSkipped 1).map fun messagesSkipped => { stats with messagesSkipped }

def countCompressed (checks : OverflowChecks) (size compressedSize : UInt64)
    (stats : CompressionStats) : Option CompressionStats := do
  let bytesCompressed ← checks.add stats.bytesCompressed size
  let bytesAfterCompression ← checks.add stats.bytesAfterCompression compressedSize
  let messagesCompressed ← checks.add stats.messagesCompressed 1
  pure { stats with bytesCompressed, bytesAfterCompression, messagesCompressed }

def countDecompressed (checks : OverflowChecks) (size : UInt64) (stats : CompressionStats) :
    Option CompressionStats := do
  let bytesDecompressed ← checks.add stats.bytesDecompressed size
  let messagesDecompressed ← checks.add stats.messagesDecompressed 1
  pure { stats with bytesDecompressed, messagesDecompressed }

end CompressionStats

structure MessageCompressor (S : Snap) where
  encoder : S.Encoder
  decoder : S.Decoder
  stats : CompressionStats

namespace MessageCompressor

variable {S : Snap}

def new : MessageCompressor S where
  encoder := S.newEncoder
  decoder := S.newDecoder
  stats := .default

/-- The flag and the data behind it, in a vector of just that capacity. -/
def flagged (flag : UInt8) (data : ByteSlice) : Option ByteSlice :=
  if h : (flag :: data.bytes).length < 2 ^ 63 then some ⟨flag :: data.bytes, h⟩ else none

/-- Both branches that leave the data as it is. -/
def skip (checks : OverflowChecks) (data : ByteSlice) (c : MessageCompressor S) :
    Option (Except IoError ByteSlice × MessageCompressor S) := do
  let stats ← c.stats.countSkipped checks
  let result ← flagged 0x00 data
  pure (.ok result, { c with stats })

def compress (checks : OverflowChecks) (data : ByteSlice) (c : MessageCompressor S) :
    Option (Except IoError ByteSlice × MessageCompressor S) :=
  if data.bytes.length < compressionThreshold then c.skip checks data
  else
    match S.compressVec c.encoder data with
    | (.error e, encoder) => some (.error ⟨.other, e⟩, { c with encoder })
    | (.ok compressed, encoder) =>
        let c := { c with encoder }
        -- compression did not help
        if data.bytes.length ≤ compressed.bytes.length then c.skip checks data
        else do
          let stats ← c.stats.countCompressed checks data.len compressed.len
          let result ← flagged 0x01 compressed
          pure (.ok result, { c with stats })

/-- `&data[1..]` of data that is not empty. -/
def payload (data : ByteSlice) : ByteSlice where
  bytes := data.bytes.tail
  length_lt := by
    rw [List.length_tail]
    exact Nat.lt_of_le_of_lt (Nat.sub_le _ _) data.length_lt

/-- Every flag but `0x01` stands for data that was not compressed. -/
def decompress (checks : OverflowChecks) (data : ByteSlice) (c : MessageCompressor S) :
    Option (Except IoError ByteSlice × MessageCompressor S) :=
  if data.bytes = [] then some (.error ⟨.invalidData, "Empty message"⟩, c)
  else if data.bytes.head? ≠ some 0x01 then some (.ok (payload data), c)
  else
    match S.decompressVec c.decoder (payload data) with
    | (.error e, decoder) => some (.error ⟨.other, e⟩, { c with decoder })
    | (.ok decompressed, decoder) =>
        (c.stats.countDecompressed checks decompressed.len).map fun stats =>
          (.ok decompressed, { c with decoder, stats })

def resetStats (c : MessageCompressor S) : MessageCompressor S :=
  { c with stats := .default }

end MessageCompressor

/-! ## The machine -/

inductive CompressorEvent where
  | compress (data : ByteSlice)
  | decompress (data : ByteSlice)
  | resetStats

/-- A reset returns nothing. -/
def compressorStep {S : Snap} (checks : OverflowChecks) (c : MessageCompressor S) :
    CompressorEvent → Option (Option (Except IoError ByteSlice) × MessageCompressor S)
  | .compress data => (c.compress checks data).map (Prod.map some id)
  | .decompress data => (c.decompress checks data).map (Prod.map some id)
  | .resetStats => some (none, c.resetStats)

def compressorMachine (S : Snap) (checks : OverflowChecks) :
    Machine (MessageCompressor S) CompressorEvent (Option (Except IoError ByteSlice)) where
  step := compressorStep checks

abbrev CompressorCall (S : Snap) : Type :=
  Call (MessageCompressor S) CompressorEvent (Option (Except IoError ByteSlice))

end SilverNetwork
