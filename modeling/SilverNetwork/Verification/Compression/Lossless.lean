import SilverNetwork.Model.Compressor

/-! Compression without loss. Whatever a compressor returns, every other one restores, and it
is longer by a flag at most. The counters are exact as long as they do not overflow. -/

namespace SilverNetwork

open MessageCompressor

variable {S : Snap} {checks : OverflowChecks}

/-! ## Counters -/

/-- The counter holds the number, which is exact under overflow checks. -/
structure Counts (checks : OverflowChecks) (n : ℕ) (counter : UInt64) : Prop where
  wraps : counter = UInt64.ofNat n
  exact_on : checks = .on → counter.toNat = n

namespace Counts

theorem zero : Counts checks 0 0 := ⟨rfl, fun _ => rfl⟩

theorem add {n m : ℕ} {counter amount counter' : UInt64} (h : Counts checks n counter)
    (hm : amount.toNat = m) (hadd : checks.add counter amount = some counter') :
    Counts checks (n + m) counter' := by
  constructor
  · rw [OverflowChecks.add_eq_some hadd, h.wraps, UInt64.ofNat_add, ← hm, UInt64.ofNat_toNat]
  · intro hon
    have hexact := OverflowChecks.toNat_of_add hadd fun hoff => by simp [hon] at hoff
    rw [hexact, h.exact_on hon, hm]

theorem toNat_eq {n : ℕ} {counter : UInt64} (h : Counts checks n counter)
    (hroom : checks = .off → n < 2 ^ 64) : counter.toNat = n := by
  cases checks with
  | on => exact h.exact_on rfl
  | off =>
      rw [h.wraps]
      exact UInt64.toNat_ofNat_of_lt' (hroom rfl)

end Counts

/-! ## One call -/

/-- The ways in which a call of `compress` returns: it fails, or the result carries the data or
its compression behind a flag. -/
inductive CompressOutcome (checks : OverflowChecks) (data : ByteSlice) (c : MessageCompressor S) :
    Except IoError ByteSlice → CompressionStats → Prop where
  | failed (e : IoError) : CompressOutcome checks data c (.error e) c.stats
  | skipped (result stats) (hresult : flagged 0x00 data = some result)
      (hstats : c.stats.countSkipped checks = some stats) :
      CompressOutcome checks data c (.ok result) stats
  | compressed (compressed result stats)
      (hencoded : (S.compressVec c.encoder data).1 = .ok compressed)
      (hshorter : compressed.bytes.length < data.bytes.length)
      (hresult : flagged 0x01 compressed = some result)
      (hstats : c.stats.countCompressed checks data.len compressed.len = some stats) :
      CompressOutcome checks data c (.ok result) stats

theorem skip_outcome {data : ByteSlice} {c c₁ c' : MessageCompressor S}
    {r : Except IoError ByteSlice} (h : c₁.skip checks data = some (r, c'))
    (hstats : c₁.stats = c.stats) : CompressOutcome checks data c r c'.stats := by
  simp only [skip, Option.bind_eq_bind, Option.bind_eq_some_iff] at h
  obtain ⟨stats, hcount, result, hresult, heq⟩ := h
  obtain ⟨rfl, rfl⟩ := Prod.mk.inj (Option.some.inj heq)
  exact .skipped result stats hresult (hstats ▸ hcount)

theorem compress_outcome {data : ByteSlice} {c c' : MessageCompressor S}
    {r : Except IoError ByteSlice} (h : c.compress checks data = some (r, c')) :
    CompressOutcome checks data c r c'.stats := by
  unfold compress at h
  split at h
  · exact skip_outcome h rfl
  · split at h
    · obtain ⟨rfl, rfl⟩ := Prod.mk.inj (Option.some.inj h)
      exact .failed _
    · rename_i compressed encoder hencoded
      simp only at h
      split at h
      · exact skip_outcome h rfl
      · rename_i hlong
        simp only [Option.bind_eq_bind, Option.bind_eq_some_iff] at h
        obtain ⟨stats, hcount, result, hresult, heq⟩ := h
        obtain ⟨rfl, rfl⟩ := Prod.mk.inj (Option.some.inj heq)
        exact .compressed compressed result stats (congrArg Prod.fst hencoded)
          (Nat.lt_of_not_le hlong) hresult hcount

theorem flagged_bytes {flag : UInt8} {data result : ByteSlice}
    (h : flagged flag data = some result) : result.bytes = flag :: data.bytes := by
  unfold flagged at h
  split at h
  · exact congrArg ByteSlice.bytes (Option.some.inj h).symm
  · simp at h

theorem payload_of_flagged {flag : UInt8} {data result : ByteSlice}
    (h : flagged flag data = some result) : payload result = data := by
  ext1
  exact congrArg List.tail (flagged_bytes h)

/-- The counters for decompressed data have room for some more. -/
def MessageCompressor.RoomToCount (c : MessageCompressor S) (data : ByteSlice) : Prop :=
  c.stats.bytesDecompressed.toNat + data.len.toNat < 2 ^ 64 ∧
    c.stats.messagesDecompressed.toNat + 1 < 2 ^ 64

theorem countDecompressed_of_room {c : MessageCompressor S} {data : ByteSlice}
    (h : checks = .on → c.RoomToCount data) :
    ∃ stats, c.stats.countDecompressed checks data.len = some stats := by
  have hbytes := OverflowChecks.add_of_room fun hon => (h hon).1
  have hmessages := OverflowChecks.add_of_room (b := 1) fun hon => (h hon).2
  simp [CompressionStats.countDecompressed, hbytes, hmessages]

theorem decompress_uncompressed {result data : ByteSlice} (h : flagged 0x00 data = some result)
    (c : MessageCompressor S) : c.decompress checks result = some (.ok data, c) := by
  have hbytes := flagged_bytes h
  simp [decompress, hbytes, payload_of_flagged h]

theorem decompress_compressed {result compressed data : ByteSlice}
    (h : flagged 0x01 compressed = some result) {c : MessageCompressor S}
    (hdecoded : (S.decompressVec c.decoder compressed).1 = .ok data)
    (hroom : checks = .on → c.RoomToCount data) :
    ∃ c', c.decompress checks result = some (.ok data, c') := by
  have hbytes := flagged_bytes h
  obtain ⟨stats, hstats⟩ := countDecompressed_of_room hroom
  have hdecode : S.decompressVec c.decoder compressed =
      (.ok data, (S.decompressVec c.decoder compressed).2) := Prod.ext hdecoded rfl
  refine ⟨{ c with decoder := (S.decompressVec c.decoder compressed).2, stats }, ?_⟩
  rw [decompress, payload_of_flagged h, hdecode]
  simp [hbytes, hstats]

/-- Whatever `compress` returns is longer by the flag at most, and every decompressor whose
counters have room restores the data. -/
theorem CompressOutcome.restored (hsnap : S.Lossless) {data result : ByteSlice}
    {c : MessageCompressor S} {stats : CompressionStats}
    (h : CompressOutcome checks data c (.ok result) stats) :
    result.bytes.length ≤ data.bytes.length + 1 ∧
      ∀ d : MessageCompressor S,
        (checks = .on → result.bytes.head? = some 0x01 → d.RoomToCount data) →
        ∃ d', d.decompress checks result = some (.ok data, d') := by
  cases h with
  | skipped _ _ hresult hstats =>
      refine ⟨?_, fun d _ => ⟨d, decompress_uncompressed hresult d⟩⟩
      rw [flagged_bytes hresult, List.length_cons]
  | compressed compressed _ _ hencoded hshorter hresult hstats =>
      have hbytes := flagged_bytes hresult
      refine ⟨?_, ?_⟩
      · rw [hbytes, List.length_cons]
        omega
      · intro d hroom
        have hdecoded := hsnap c.encoder d.decoder data compressed hencoded
        refine decompress_compressed hresult hdecoded fun hon => hroom hon ?_
        rw [hbytes, List.head?_cons]

/-- Decompression moves no counter of the compressor. -/
theorem decompress_stats {data : ByteSlice} {c c' : MessageCompressor S}
    {r : Except IoError ByteSlice} (h : c.decompress checks data = some (r, c')) :
    ∃ bytesDecompressed messagesDecompressed,
      c'.stats = { c.stats with bytesDecompressed, messagesDecompressed } := by
  unfold decompress at h
  split at h
  · obtain ⟨-, rfl⟩ := Prod.mk.inj (Option.some.inj h)
    exact ⟨_, _, rfl⟩
  · split at h
    · obtain ⟨-, rfl⟩ := Prod.mk.inj (Option.some.inj h)
      exact ⟨_, _, rfl⟩
    · split at h
      · obtain ⟨-, rfl⟩ := Prod.mk.inj (Option.some.inj h)
        exact ⟨_, _, rfl⟩
      · obtain ⟨stats, hstats, heq⟩ := Option.map_eq_some_iff.mp h
        obtain ⟨-, rfl⟩ := Prod.mk.inj heq
        simp only [CompressionStats.countDecompressed, Option.bind_eq_bind,
          Option.bind_eq_some_iff] at hstats
        obtain ⟨_, -, _, -, hstats⟩ := hstats
        exact ⟨_, _, (Option.some.inj hstats).symm⟩

/-! ## The calls since the last reset -/

def sinceReset (calls : List (CompressorCall S)) : List (CompressorCall S) :=
  calls.foldl (fun kept c =>
    match c.event with
    | .resetStats => []
    | _ => kept ++ [c]) []

/-- The call is one of `compress` that succeeds. -/
def hasCompressed (c : CompressorCall S) : Bool :=
  match c.event, c.result with
  | .compress _, some (.ok _) => true
  | _, _ => false

/-- The bytes that a call gives to `compress`. -/
def CompressorEvent.size : CompressorEvent → ℕ
  | .compress data => data.bytes.length
  | _ => 0

def successes (calls : List (CompressorCall S)) : ℕ := (sinceReset calls).countP hasCompressed

def bytesGiven (calls : List (CompressorCall S)) : ℕ :=
  ((sinceReset calls).map (·.event.size)).sum

/-- The numbers that the counters of a compressor stand for. -/
structure Tally where
  bytesIn : ℕ
  bytesOut : ℕ
  compressed : ℕ
  skipped : ℕ

/-- The counters agree with the tally, and the tally with the calls. -/
structure Tallied (checks : OverflowChecks) (calls : List (CompressorCall S))
    (stats : CompressionStats) (tally : Tally) : Prop where
  bytesIn : Counts checks tally.bytesIn stats.bytesCompressed
  bytesOut : Counts checks tally.bytesOut stats.bytesAfterCompression
  compressed : Counts checks tally.compressed stats.messagesCompressed
  skipped : Counts checks tally.skipped stats.messagesSkipped
  successes : tally.compressed + tally.skipped = successes calls
  shrinks : tally.bytesOut + tally.compressed ≤ tally.bytesIn
  given : tally.bytesIn ≤ bytesGiven calls

theorem sinceReset_concat {c : CompressorCall S} (h : c.event ≠ .resetStats)
    (calls : List (CompressorCall S)) : sinceReset (calls ++ [c]) = sinceReset calls ++ [c] := by
  rw [sinceReset, List.foldl_append, List.foldl_cons, List.foldl_nil]
  split
  · rename_i hreset
    exact absurd hreset h
  · rfl

theorem sinceReset_reset {c : CompressorCall S} (h : c.event = .resetStats)
    (calls : List (CompressorCall S)) : sinceReset (calls ++ [c]) = [] := by
  rw [sinceReset, List.foldl_append, List.foldl_cons, List.foldl_nil, h]

theorem successes_concat {c : CompressorCall S} (h : c.event ≠ .resetStats)
    (calls : List (CompressorCall S)) :
    successes (calls ++ [c]) = successes calls + if hasCompressed c then 1 else 0 := by
  rw [successes, sinceReset_concat h, List.countP_append, List.countP_singleton, successes]

theorem bytesGiven_concat {c : CompressorCall S} (h : c.event ≠ .resetStats)
    (calls : List (CompressorCall S)) :
    bytesGiven (calls ++ [c]) = bytesGiven calls + c.event.size := by
  simp [bytesGiven, sinceReset_concat h]

theorem tallied_default {calls : List (CompressorCall S)} (h : sinceReset calls = []) :
    Tallied checks calls .default ⟨0, 0, 0, 0⟩ :=
  ⟨.zero, .zero, .zero, .zero, by simp [successes, h], le_rfl, Nat.zero_le _⟩

/-- A call that compresses nothing keeps the tally. -/
theorem Tallied.unchanged {calls : List (CompressorCall S)} {stats stats' : CompressionStats}
    {tally : Tally} (h : Tallied checks calls stats tally) {c : CompressorCall S}
    (hreset : c.event ≠ .resetStats) (hnone : hasCompressed c = false)
    (hstats : ∃ bytesDecompressed messagesDecompressed,
      stats' = { stats with bytesDecompressed, messagesDecompressed }) :
    Tallied checks (calls ++ [c]) stats' tally := by
  obtain ⟨_, _, rfl⟩ := hstats
  refine ⟨h.bytesIn, h.bytesOut, h.compressed, h.skipped, ?_, h.shrinks, ?_⟩
  · rw [successes_concat hreset, hnone]
    exact h.successes
  · rw [bytesGiven_concat hreset]
    exact h.given.trans (Nat.le_add_right _ _)

/-- A call of `compress` adds what it did to the tally. -/
theorem CompressOutcome.tallied {calls : List (CompressorCall S)} {data : ByteSlice}
    {c c' : MessageCompressor S} {r : Except IoError ByteSlice} {stats : CompressionStats}
    {tally : Tally} (hstep : CompressOutcome checks data c r stats)
    (h : Tallied checks calls c.stats tally) :
    ∃ tally', Tallied checks (calls ++ [⟨c, .compress data, some r, c'⟩]) stats tally' := by
  have hreset : CompressorEvent.compress data ≠ .resetStats := nofun
  cases hstep with
  | failed e => exact ⟨tally, h.unchanged hreset rfl ⟨_, _, rfl⟩⟩
  | skipped result _ hresult hstats =>
      obtain ⟨messagesSkipped, hadd, rfl⟩ := Option.map_eq_some_iff.mp hstats
      refine ⟨{ tally with skipped := tally.skipped + 1 }, h.bytesIn, h.bytesOut, h.compressed,
        h.skipped.add rfl hadd, ?_, h.shrinks, ?_⟩
      · rw [successes_concat hreset, ← h.successes]
        exact (Nat.add_assoc _ _ _).symm
      · rw [bytesGiven_concat hreset]
        exact h.given.trans (Nat.le_add_right _ _)
  | compressed compressed result _ hencoded hshorter hresult hstats =>
      simp only [CompressionStats.countCompressed, Option.bind_eq_bind,
        Option.bind_eq_some_iff] at hstats
      obtain ⟨bytesIn, hin, bytesOut, hout, messages, hmessages, hstats⟩ := hstats
      obtain rfl := Option.some.inj hstats
      refine ⟨⟨tally.bytesIn + data.bytes.length, tally.bytesOut + compressed.bytes.length,
          tally.compressed + 1, tally.skipped⟩,
        h.bytesIn.add data.toNat_len hin, h.bytesOut.add compressed.toNat_len hout,
        h.compressed.add rfl hmessages, h.skipped, ?_, ?_, ?_⟩
      · rw [successes_concat hreset, ← h.successes]
        exact Nat.add_right_comm _ _ _
      -- the compressed message is shorter by at least the one byte that counts the message
      · have hshrinks := h.shrinks
        simp only
        omega
      · rw [bytesGiven_concat hreset]
        exact Nat.add_le_add_right h.given _

theorem run_tallied {calls : List (CompressorCall S)} {c : MessageCompressor S}
    (h : (compressorMachine S checks).Run .new calls c) :
    ∃ tally, Tallied checks calls c.stats tally := by
  induction h with
  | start => exact ⟨_, tallied_default rfl⟩
  | @call calls call _ hmakes ih =>
      obtain ⟨tally, htally⟩ := ih
      obtain ⟨pre, e, r, post⟩ := call
      cases e with
      | compress data =>
          obtain ⟨⟨result, c'⟩, hcall, heq⟩ := Option.map_eq_some_iff.mp hmakes
          obtain ⟨rfl, rfl⟩ := Prod.mk.inj heq
          exact (compress_outcome hcall).tallied htally
      | decompress data =>
          obtain ⟨⟨result, c'⟩, hcall, heq⟩ := Option.map_eq_some_iff.mp hmakes
          obtain ⟨rfl, rfl⟩ := Prod.mk.inj heq
          exact ⟨tally, htally.unchanged nofun rfl (decompress_stats hcall)⟩
      | resetStats =>
          obtain ⟨-, hpost⟩ := Prod.mk.inj (Option.some.inj hmakes)
          obtain rfl : post = pre.resetStats := hpost.symm
          exact ⟨_, tallied_default (sinceReset_reset rfl calls)⟩

/-- Every compressor restores what any compressor returned, which is longer by the flag at
most. The counters of a compressor agree with its successful calls since the last reset, and
each message it compressed saved a byte at least, unless the counters have wrapped. -/
theorem compression_lossless (hsnap : S.Lossless) {calls : List (CompressorCall S)}
    {c : MessageCompressor S} (h : (compressorMachine S checks).Run .new calls c) :
    (∀ data result c', c.compress checks data = some (.ok result, c') →
      result.bytes.length ≤ data.bytes.length + 1 ∧
      ∀ d : MessageCompressor S,
        (checks = .on → result.bytes.head? = some 0x01 → d.RoomToCount data) →
        ∃ d', d.decompress checks result = some (.ok data, d')) ∧
    ((checks = .off → successes calls < 2 ^ 64) →
      c.stats.messagesCompressed.toNat + c.stats.messagesSkipped.toNat = successes calls) ∧
    ((checks = .off → bytesGiven calls < 2 ^ 64) →
      c.stats.bytesAfterCompression.toNat + c.stats.messagesCompressed.toNat ≤
        c.stats.bytesCompressed.toNat) := by
  obtain ⟨tally, htally⟩ := run_tallied h
  have hsuccesses := htally.successes
  have hshrinks := htally.shrinks
  have hgiven := htally.given
  refine ⟨?_, ?_, ?_⟩
  · intro data result c' hcall
    exact (compress_outcome hcall).restored hsnap
  · intro hroom
    rw [htally.compressed.toNat_eq fun hoff => by have := hroom hoff; omega,
      htally.skipped.toNat_eq fun hoff => by have := hroom hoff; omega]
    exact hsuccesses
  · intro hroom
    rw [htally.bytesOut.toNat_eq fun hoff => by have := hroom hoff; omega,
      htally.compressed.toNat_eq fun hoff => by have := hroom hoff; omega,
      htally.bytesIn.toNat_eq fun hoff => by have := hroom hoff; omega]
    exact hshrinks

/-- The zeros when they are compressed. -/
def flaggedZeros : ByteSlice := ⟨0x01 :: packedZeros.bytes, by decide⟩

theorem compress_zeros (c : MessageCompressor .sample) :
    c.compress .off zeros = some (.ok flaggedZeros, { c with
      stats := { c.stats with
        bytesCompressed := c.stats.bytesCompressed + 1024
        bytesAfterCompression := c.stats.bytesAfterCompression + 52
        messagesCompressed := c.stats.messagesCompressed + 1 } }) := by
  have hlarge : ¬ zeros.bytes.length < compressionThreshold := by
    rw [zeros, List.length_replicate]
    decide
  have hhelped : ¬ zeros.bytes.length ≤ packedZeros.bytes.length := by
    rw [zeros, List.length_replicate]
    decide
  have hzeros : zeros.len = 1024 := by
    rw [ByteSlice.len, zeros, List.length_replicate]
    rfl
  have hresult : flagged 0x01 packedZeros = some flaggedZeros := rfl
  simp only [compress, if_neg hlarge, ↓reduceIte, if_neg hhelped, hresult, hzeros]
  rfl

theorem makes_zeros (c : MessageCompressor .sample) :
    (compressorMachine .sample .off).step c (.compress zeros) =
      some (some (.ok flaggedZeros), { c with
        stats := { c.stats with
          bytesCompressed := c.stats.bytesCompressed + 1024
          bytesAfterCompression := c.stats.bytesAfterCompression + 52
          messagesCompressed := c.stats.messagesCompressed + 1 } }) := by
  simp only [compressorMachine, compressorStep, compress_zeros, Option.map_some, Prod.map, id_eq]

/-- A message that is compressed, restored and counted, and one more after a reset that is too small
for it. -/
theorem compression_lossless_plain :
    ∃ calls c, (compressorMachine .sample .off).Run .new calls c ∧
      calls.map (·.event) =
        [.compress zeros, .resetStats, .compress ⟨[7, 8], by decide⟩, .compress zeros] ∧
      calls.map (·.result) = [some (.ok flaggedZeros), none,
        some (.ok ⟨[0, 7, 8], by decide⟩), some (.ok flaggedZeros)] ∧
      (∃ d, (MessageCompressor.new (S := .sample)).decompress .off flaggedZeros =
        some (.ok zeros, d)) ∧
      c.stats.messagesCompressed.toNat + c.stats.messagesSkipped.toNat = 2 ∧
      c.stats.bytesAfterCompression.toNat + c.stats.messagesCompressed.toNat ≤
        c.stats.bytesCompressed.toNat := by
  have hrun := Machine.Run.start.of_step (M := compressorMachine .sample .off) (makes_zeros .new)
    |>.of_step (e := .resetStats) rfl
    |>.of_step (e := .compress ⟨[7, 8], by decide⟩) rfl |>.of_step (makes_zeros _)
  obtain ⟨hrestored, hcount, hshrinks⟩ := compression_lossless Snap.sample_lossless hrun
  refine ⟨_, _, hrun, rfl, rfl, ?_, hcount ?_, hshrinks ?_⟩
  · exact (hrestored zeros flaggedZeros _ (compress_zeros _)).2 .new nofun
  · intro _
    exact (by decide : 2 < 2 ^ 64)
  · intro _
    have hzeros : zeros.bytes.length = 1024 := List.length_replicate
    simp [bytesGiven, sinceReset, CompressorEvent.size, hzeros]

/-! ## Counters that wrap -/

theorem run_zeros (n : ℕ) :
    ∃ calls c, (compressorMachine .sample .off).Run .new calls c ∧ calls.length = n ∧
      (∀ call ∈ calls, call.event = .compress zeros) ∧
      c.stats = ⟨UInt64.ofNat (1024 * n), UInt64.ofNat (52 * n), 0, UInt64.ofNat n, 0, 0⟩ := by
  induction n with
  | zero => exact ⟨[], _, .start, rfl, by simp, rfl⟩
  | succ n ih =>
      obtain ⟨calls, c, hrun, hlength, hevents, hstats⟩ := ih
      have hstep := makes_zeros c
      refine ⟨_, _, hrun.of_step hstep, by simp [hlength], ?_, ?_⟩
      · intro call hmem
        rcases List.mem_append.mp hmem with hmem | hmem
        · exact hevents call hmem
        · rw [List.mem_singleton.mp hmem]
      · simp [hstats, Nat.mul_succ, UInt64.ofNat_add]

/-- Without overflow checks the bytes of `2^54` compressed messages wrap to nothing. -/
theorem statistics_wrap :
    Snap.sample.Lossless ∧ ∃ calls c, (compressorMachine .sample .off).Run .new calls c ∧
      calls.length = 2 ^ 54 ∧ (∀ call ∈ calls, call.event = .compress zeros) ∧
      c.stats.bytesCompressed = 0 ∧ c.stats.messagesCompressed = UInt64.ofNat (2 ^ 54) ∧
      ¬ c.stats.bytesAfterCompression.toNat + c.stats.messagesCompressed.toNat ≤
        c.stats.bytesCompressed.toNat := by
  obtain ⟨calls, c, hrun, hlength, hevents, hstats⟩ := run_zeros (2 ^ 54)
  refine ⟨Snap.sample_lossless, calls, c, hrun, hlength, hevents, ?_, ?_, ?_⟩
  · rw [hstats]
    rfl
  · rw [hstats]
  · rw [hstats]
    decide

end SilverNetwork
