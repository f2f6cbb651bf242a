import SilverNetwork.Foundations.Framing
import SilverNetwork.Model.ValidatorSync
import SilverNetwork.Verification.ValidatorSync.Frames

/-! What the message loop makes of a stream. It takes each read for one frame, so that it finds
every message exactly when the stream happens to be cut at the frames. -/

namespace SilverNetwork

namespace ValidatorSync

variable {Address : Type} [DecidableEq Address] {checks : OverflowChecks} {texts : Texts Address}
  {address : Address} {s s' : NetworkState Address} {m : NetworkMessage} {bytes : Bytes}
  {now : Instant} {n size : ℕ}

/-! ## Counters -/

/-- The totals of the statistics have grown by so many messages and bytes. -/
structure Grows (n size : ℕ) (s s' : NetworkState Address) : Prop where
  messages : s'.stats.totalMessagesReceived.toNat = s.stats.totalMessagesReceived.toNat + n
  bytes : s'.stats.totalBytesReceived.toNat = s.stats.totalBytesReceived.toNat + size

/-- The counters of the peer have room for so many messages and bytes. -/
def PeerRoom (address : Address) (s : NetworkState Address) (n size : ℕ) : Prop :=
  ∀ peer, s.peers.lookup address = some peer →
    peer.messagesReceived.toNat + n < 2 ^ 64 ∧ peer.bytesReceived.toNat + size < 2 ^ 64

/-- No counter overflows; those of the peer only matter where an overflow panics. -/
structure Room (checks : OverflowChecks) (address : Address) (s : NetworkState Address)
    (n size : ℕ) : Prop where
  messages : s.stats.totalMessagesReceived.toNat + n < 2 ^ 64
  bytes : s.stats.totalBytesReceived.toNat + size < 2 ^ 64
  peer : checks = .on → PeerRoom address s n size

omit [DecidableEq Address] in
theorem recordReceived_eq_some {peer peer' : PeerInfo Address} {size : UInt64}
    (h : peer.recordReceived checks size now = some peer') :
    checks.add peer.messagesReceived 1 = some peer'.messagesReceived ∧
      checks.add peer.bytesReceived size = some peer'.bytesReceived := by
  simp only [PeerInfo.recordReceived, Option.bind_eq_bind, Option.bind_eq_some_iff,
    Option.some.injEq] at h
  obtain ⟨messages, hmessages, total, htotal, rfl⟩ := h
  exact ⟨hmessages, htotal⟩

theorem withPeer_stats {body : PeerInfo Address → Option (PeerInfo Address)}
    (h : s.withPeer address body = some s') : s'.stats = s.stats := by
  unfold NetworkState.withPeer at h
  split at h
  · obtain rfl := Option.some.inj h
    rfl
  · obtain ⟨_, _, rfl⟩ := Option.map_eq_some_iff.mp h
    rfl

/-- What counting a message does to the statistics and to the peer. -/
structure Counts (checks : OverflowChecks) (address : Address) (size : UInt64) (now : Instant)
    (s s' : NetworkState Address) : Prop where
  messages : checks.add s.stats.totalMessagesReceived 1 = some s'.stats.totalMessagesReceived
  bytes : checks.add s.stats.totalBytesReceived size = some s'.stats.totalBytesReceived
  unknown : s.peers.lookup address = none → s'.peers.lookup address = none
  known : ∀ peer, s.peers.lookup address = some peer → ∃ peer',
    s'.peers.lookup address = some peer' ∧ peer.recordReceived checks size now = some peer'

theorem receive_of_error {e : CoreError} (hread : NetworkMessage.fromBytes texts bytes = .error e) :
    receive checks texts address bytes now s = some (none, s) := by
  rw [receive, hread]

/-- A message is counted, if it does not panic. -/
theorem receive_of_ok {found : Option NetworkMessage}
    (hread : NetworkMessage.fromBytes texts bytes = .ok m)
    (h : receive checks texts address bytes now s = some (found, s')) :
    found = some m ∧ Counts checks address (UInt64.ofNat bytes.length) now s s' := by
  simp only [receive, hread, Option.bind_eq_bind, Option.bind_eq_some_iff, Option.some.injEq,
    Prod.mk.injEq] at h
  obtain ⟨s₁, hpeer, messages, hmessages, total, htotal, rfl, rfl⟩ := h
  rw [withPeer_stats hpeer] at hmessages htotal
  refine ⟨rfl, hmessages, htotal, ?_, ?_⟩
  · intro hlookup
    rw [NetworkState.withPeer, hlookup] at hpeer
    obtain rfl := Option.some.inj hpeer
    exact hlookup
  · intro peer hlookup
    rw [NetworkState.withPeer, hlookup] at hpeer
    obtain ⟨peer', hpeer', rfl⟩ := Option.map_eq_some_iff.mp hpeer
    exact ⟨peer', AList.lookup_insert _, hpeer'⟩

/-- A message is counted where its counters have room. -/
theorem receive_of_room (hread : NetworkMessage.fromBytes texts bytes = .ok m)
    (hlength : bytes.length < 2 ^ 64)
    (hroom : Room checks address s (n + 1) (bytes.length + size)) (now : Instant) :
    ∃ s₁, receive checks texts address bytes now s = some (some m, s₁) := by
  have hsize : (UInt64.ofNat bytes.length).toNat = bytes.length :=
    UInt64.toNat_ofNat_of_lt' hlength
  have hmessages := hroom.messages
  have hbytes := hroom.bytes
  have hone : (1 : UInt64).toNat = 1 := rfl
  have hpeer : ∃ s₁, s.withPeer address
      (PeerInfo.recordReceived checks (UInt64.ofNat bytes.length) now) = some s₁ := by
    unfold NetworkState.withPeer
    cases hlookup : s.peers.lookup address with
    | none => exact ⟨s, rfl⟩
    | some peer =>
        have hfirst : checks.add peer.messagesReceived 1 = some (peer.messagesReceived + 1) := by
          apply OverflowChecks.add_of_room
          intro hon
          have hpeer := hroom.peer hon peer hlookup
          omega
        have hsecond : checks.add peer.bytesReceived (UInt64.ofNat bytes.length) =
            some (peer.bytesReceived + UInt64.ofNat bytes.length) := by
          apply OverflowChecks.add_of_room
          intro hon
          have hpeer := hroom.peer hon peer hlookup
          omega
        simp only [PeerInfo.recordReceived, hfirst, hsecond, Option.bind_eq_bind,
          Option.bind_some, Option.map_some]
        exact ⟨_, rfl⟩
  obtain ⟨s₁, hs₁⟩ := hpeer
  have hstats : s₁.stats = s.stats := withPeer_stats hs₁
  have hfirst := OverflowChecks.add_of_lt checks (a := s.stats.totalMessagesReceived) (b := 1)
    (by omega)
  have hsecond := OverflowChecks.add_of_lt checks (a := s.stats.totalBytesReceived)
    (b := UInt64.ofNat bytes.length) (by omega)
  simp only [receive, hread, hs₁, hstats, hfirst, hsecond, Option.bind_eq_bind, Option.bind_some]
  exact ⟨_, rfl⟩

/-- Where the peer's counters cannot wrap, a counted message takes its share of their room. -/
theorem Counts.peerRoom_iff {size' : UInt64} (h : Counts .on address size' now s s') :
    PeerRoom address s (n + 1) (size'.toNat + size) ↔ PeerRoom address s' n size := by
  unfold PeerRoom
  cases hlookup : s.peers.lookup address with
  | none => simp [h.unknown hlookup]
  | some peer =>
      obtain ⟨peer', hlookup', hrecord⟩ := h.known peer hlookup
      obtain ⟨hmessages, hbytes⟩ := recordReceived_eq_some hrecord
      have hmessages := OverflowChecks.toNat_of_add hmessages (by simp)
      have hbytes := OverflowChecks.toNat_of_add hbytes (by simp)
      have hone : (1 : UInt64).toNat = 1 := rfl
      simp only [hlookup', Option.some.injEq, forall_eq']
      omega

theorem Counts.grows {size' : UInt64} (h : Counts checks address size' now s s')
    (hmessages : s.stats.totalMessagesReceived.toNat + 1 < 2 ^ 64)
    (hbytes : s.stats.totalBytesReceived.toNat + size'.toNat < 2 ^ 64) :
    Grows 1 size'.toNat s s' where
  messages := OverflowChecks.toNat_of_add h.messages fun _ => hmessages
  bytes := OverflowChecks.toNat_of_add h.bytes fun _ => hbytes

/-- A counted message takes its share of the room. -/
theorem Counts.room_iff {size' : UInt64} (h : Counts checks address size' now s s') (n size : ℕ)
    (hmessages : s.stats.totalMessagesReceived.toNat + 1 < 2 ^ 64)
    (hbytes : s.stats.totalBytesReceived.toNat + size'.toNat < 2 ^ 64) :
    Room checks address s (n + 1) (size'.toNat + size) ↔ Room checks address s' n size := by
  have hgrows := h.grows hmessages hbytes
  have hpeer : (checks = .on → PeerRoom address s (n + 1) (size'.toNat + size)) ↔
      (checks = .on → PeerRoom address s' n size) := by
    apply imp_congr_right
    rintro rfl
    exact h.peerRoom_iff
  constructor
  · intro hroom
    have hm := hroom.messages
    have hb := hroom.bytes
    exact ⟨by rw [hgrows.messages]; omega, by rw [hgrows.bytes]; omega, hpeer.mp hroom.peer⟩
  · intro hroom
    have hm := hroom.messages
    have hb := hroom.bytes
    rw [hgrows.messages] at hm
    rw [hgrows.bytes] at hb
    exact ⟨by omega, by omega, hpeer.mpr hroom.peer⟩

/-! ## The loop -/

/-- A read that returns the bytes at the time. -/
def chunk (read : Bytes × Instant) : ListenIo := .read (.data read.1) read.2

theorem listen_chunk {read : Bytes × Instant} (hread : read.1 ≠ []) :
    listen checks texts address .receiving (chunk read) s =
      (receive checks texts address read.1 read.2 s).map fun p => (.receiving, p.1, p.2) := by
  obtain ⟨bytes, now⟩ := read
  cases bytes with
  | nil => exact absurd rfl hread
  | cons b bytes => rfl

/-- The message that a read is taken for. -/
def decoded (texts : Texts Address) (read : Bytes × Instant) : Option NetworkMessage :=
  (NetworkMessage.fromBytes texts read.1).toOption

/-- The loop goes on, and has found the messages that the reads are taken for. -/
theorem listenAll_chunks {reads : List (Bytes × Instant)} {phase : ConnectionPhase}
    {messages : List NetworkMessage} (hreads : ∀ read ∈ reads, read.1 ≠ [])
    (h : listenAll checks texts address (reads.map chunk) .receiving s =
      some (phase, messages, s')) :
    phase = .receiving ∧ messages = reads.filterMap (decoded texts) := by
  induction reads generalizing s messages with
  | nil =>
      simp only [List.map_nil, listenAll, Option.some.injEq, Prod.mk.injEq] at h
      obtain ⟨rfl, rfl, rfl⟩ := h
      exact ⟨rfl, rfl⟩
  | cons read reads ih =>
      simp only [List.map_cons, listenAll, listen_chunk (hreads read List.mem_cons_self),
        Option.bind_eq_bind, Option.bind_eq_some_iff, Option.map_eq_some_iff, Prod.exists,
        Prod.mk.injEq, Option.some.injEq] at h
      obtain ⟨_, found, s₁, ⟨_, _, hreceive, rfl, rfl, rfl⟩, _, rest, _, hrest, rfl, rfl, rfl⟩ := h
      obtain ⟨rfl, rfl⟩ := ih (fun r hr => hreads r (List.mem_cons_of_mem read hr)) hrest
      refine ⟨rfl, ?_⟩
      cases hread : NetworkMessage.fromBytes texts read.1 with
      | error e =>
          rw [receive_of_error hread] at hreceive
          obtain ⟨rfl, rfl⟩ := Prod.mk.inj (Option.some.inj hreceive)
          simp [decoded, hread, Except.toOption]
      | ok m =>
          obtain ⟨rfl, _⟩ := receive_of_ok hread hreceive
          simp [decoded, hread, Except.toOption]

/-- The bytes of the reads. -/
def totalSize (reads : List (Bytes × Instant)) : ℕ := (reads.map Prod.fst).flatten.length

/-- The read is the frame of a message, of a size that a counter holds. -/
structure ReadsAs (texts : Texts Address) (read : Bytes × Instant) (m : NetworkMessage) : Prop where
  nonempty : read.1 ≠ []
  decodes : NetworkMessage.fromBytes texts read.1 = .ok m
  fits : read.1.length < 2 ^ 64

/-- Reads that are messages are all counted exactly when the counters have room for them. -/
theorem counted_iff_room {reads : List (Bytes × Instant)} {messages : List NetworkMessage}
    (hreads : List.Forall₂ (ReadsAs texts) reads messages) :
    (∃ s', listenAll checks texts address (reads.map chunk) .receiving s =
        some (.receiving, messages, s') ∧ Grows messages.length (totalSize reads) s s') ↔
      Room checks address s messages.length (totalSize reads) := by
  induction hreads generalizing s with
  | nil =>
      constructor
      · intro _
        refine ⟨UInt64.toNat_lt _, UInt64.toNat_lt _, ?_⟩
        intro _ peer _
        exact ⟨UInt64.toNat_lt _, UInt64.toNat_lt _⟩
      · intro _
        exact ⟨s, rfl, rfl, rfl⟩
  | @cons read m reads messages hread hrest ih =>
      have hsize : (UInt64.ofNat read.1.length).toNat = read.1.length :=
        UInt64.toNat_ofNat_of_lt' hread.fits
      have htotal : totalSize (read :: reads) = read.1.length + totalSize reads := by
        simp [totalSize]
      rw [htotal, List.length_cons]
      constructor
      · rintro ⟨s', hloop, hgrows⟩
        simp only [List.map_cons, listenAll, listen_chunk hread.nonempty, Option.bind_eq_bind,
          Option.bind_eq_some_iff, Option.map_eq_some_iff, Prod.exists, Prod.mk.injEq,
          Option.some.injEq] at hloop
        obtain ⟨_, found, s₁, ⟨_, _, hreceive, rfl, rfl, rfl⟩, _, others, s₂, hothers, rfl,
          hmessages, rfl⟩ := hloop
        obtain ⟨rfl, hcounts⟩ := receive_of_ok hread.decodes hreceive
        obtain rfl : others = messages := by simpa using hmessages
        have hm := hgrows.messages
        have hb := hgrows.bytes
        have hm' := s₂.stats.totalMessagesReceived.toNat_lt
        have hb' := s₂.stats.totalBytesReceived.toNat_lt
        have hfirst := hcounts.grows (by omega) (by omega)
        rw [hsize] at hfirst
        have hroom := hcounts.room_iff others.length (totalSize reads) (by omega) (by omega)
        rw [hsize] at hroom
        apply hroom.mpr
        apply ih.mp
        refine ⟨s₂, hothers, ?_, ?_⟩
        · rw [hm, hfirst.messages]
          omega
        · rw [hb, hfirst.bytes]
          omega
      · intro hroom
        have hm := hroom.messages
        have hb := hroom.bytes
        obtain ⟨s₁, hreceive⟩ := receive_of_room hread.decodes hread.fits hroom read.2
        obtain ⟨_, hcounts⟩ := receive_of_ok hread.decodes hreceive
        have hfirst := hcounts.grows (by omega) (by omega)
        have hrest := hcounts.room_iff messages.length (totalSize reads) (by omega) (by omega)
        rw [hsize] at hfirst hrest
        obtain ⟨s', hothers, hgrows⟩ := ih.mpr (hrest.mp hroom)
        refine ⟨s', ?_, ?_, ?_⟩
        · simp [listenAll, listen_chunk hread.nonempty, hreceive, hothers]
        · rw [hgrows.messages, hfirst.messages]
          omega
        · rw [hgrows.bytes, hfirst.bytes]
          omega

/-! ## Streams -/

/-- The loop finds the messages in the stream, and counts them and their bytes. -/
def Recovered (checks : OverflowChecks) (texts : Texts Address) (address : Address)
    (messages : List NetworkMessage) (frames : List Bytes) (reads : List (Bytes × Instant))
    (s : NetworkState Address) : Prop :=
  ∃ s', listenAll checks texts address (reads.map chunk) .receiving s =
    some (.receiving, messages, s') ∧ Grows messages.length frames.flatten.length s s'

/-- The size of the frame of a message. -/
def frameSize (texts : Texts Address) (m : NetworkMessage) : ℕ :=
  match m.toBytes texts with
  | .ok frame => frame.length
  | .error _ => 0

omit [DecidableEq Address] in
/-- Reads that are taken for all the messages are their frames. -/
theorem reads_eq_frames {messages : List NetworkMessage} {frames : List Bytes}
    {reads : List (Bytes × Instant)}
    (hframes : List.Forall₂ (fun m frame => NetworkMessage.toBytes texts m = .ok frame)
      messages frames)
    (hreads : ∀ read ∈ reads, read.1 ≠ [])
    (hcut : (reads.map Prod.fst).flatten = frames.flatten)
    (hfound : messages = reads.filterMap (decoded texts)) :
    reads.map Prod.fst = frames := by
  have hcost : ∀ (read : Bytes × Instant) m, decoded texts read = some m →
      frameSize texts m ≤ read.1.length := by
    intro read m hdecoded
    unfold decoded at hdecoded
    cases hread : NetworkMessage.fromBytes texts read.1 with
    | error e => simp [hread, Except.toOption] at hdecoded
    | ok m' =>
        rw [hread] at hdecoded
        obtain rfl := Option.some.inj hdecoded
        obtain ⟨frame, hframe, hle⟩ := NetworkMessage.length_le_of_fromBytes hread
        simpa [frameSize, hframe] using hle
  have hsizes : messages.map (frameSize texts) = frames.map List.length := by
    clear hcut hfound
    induction hframes with
    | nil => rfl
    | cons hframe _ ih => simp [frameSize, hframe, ih]
  have hsum : ((reads.filterMap (decoded texts)).map (frameSize texts)).sum =
      (reads.map fun read => read.1.length).sum := by
    rw [← hfound, hsizes, ← List.length_flatten, ← hcut, List.length_flatten, List.map_map]
    rfl
  have heach := Framing.forall₂_of_sum_eq hcost
    (fun read hread => List.length_pos_of_ne_nil (hreads read hread)) hsum
  rw [← hfound] at heach
  apply Framing.eq_of_flatten_eq _ hcut
  rw [List.forall₂_map_left_iff]
  clear hcut hfound hsum hsizes hreads hcost
  induction heach generalizing frames with
  | nil =>
      cases hframes
      exact .nil
  | cons hread _ ih =>
      cases hframes with
      | cons hframe hrest =>
          refine .cons ?_ (ih hrest)
          rw [hread.2, frameSize, hframe]

omit [DecidableEq Address] in
theorem readsAs_of_frames {messages : List NetworkMessage} {reads : List (Bytes × Instant)}
    (hframes : List.Forall₂ (fun m frame => NetworkMessage.toBytes texts m = .ok frame)
      messages (reads.map Prod.fst))
    (hreads : ∀ read ∈ reads, read.1 ≠ [] ∧ read.1.length ≤ 10 * 1024 * 1024) :
    List.Forall₂ (ReadsAs texts) reads messages := by
  induction reads generalizing messages with
  | nil =>
      cases hframes
      exact .nil
  | cons read reads ih =>
      cases hframes with
      | cons hframe hrest =>
          obtain ⟨hne, hlimit⟩ := hreads read List.mem_cons_self
          have hdecodes := NetworkMessage.fromBytes_append hframe (by omega) []
          rw [List.append_nil] at hdecodes
          refine .cons ⟨hne, hdecodes, by omega⟩ (ih hrest ?_)
          intro r hr
          exact hreads r (List.mem_cons_of_mem read hr)

/-- The loop recovers every message of a stream exactly when each read returns one frame and the
counters have room for all of them. -/
theorem stream_recovered_iff {messages : List NetworkMessage} {frames : List Bytes}
    {reads : List (Bytes × Instant)}
    (hframes : List.Forall₂ (fun m frame => NetworkMessage.toBytes texts m = .ok frame)
      messages frames)
    (hreads : ∀ read ∈ reads, read.1 ≠ [] ∧ read.1.length ≤ 10 * 1024 * 1024)
    (hcut : (reads.map Prod.fst).flatten = frames.flatten) :
    Recovered checks texts address messages frames reads s ↔
      reads.map Prod.fst = frames ∧
        Room checks address s messages.length frames.flatten.length := by
  have hnonempty : ∀ read ∈ reads, read.1 ≠ [] := fun read hread => (hreads read hread).1
  have hsize : frames.flatten.length = totalSize reads := by rw [totalSize, hcut]
  rw [Recovered, hsize]
  constructor
  · rintro ⟨s', hloop, hgrows⟩
    obtain ⟨_, hfound⟩ := listenAll_chunks hnonempty hloop
    have hexact := reads_eq_frames hframes hnonempty hcut hfound
    have heach := readsAs_of_frames (hexact ▸ hframes) hreads
    exact ⟨hexact, (counted_iff_room heach).mp ⟨s', hloop, hgrows⟩⟩
  · rintro ⟨hexact, hroom⟩
    have heach := readsAs_of_frames (hexact ▸ hframes) hreads
    exact (counted_iff_room heach).mpr hroom

/-- The frame of a ping. -/
def pingFrame : Bytes :=
  [0, 0, 0, 20, 3, 0, 0, 0, 1, 0, 0, 0, 0, 0, 0, 0, 2, 0, 0, 0, 0, 0, 0, 0]

/-- The frame of another. -/
def laterPingFrame : Bytes :=
  [0, 0, 0, 20, 3, 0, 0, 0, 3, 0, 0, 0, 0, 0, 0, 0, 4, 0, 0, 0, 0, 0, 0, 0]

/-- Two pings that two reads return are recovered, and counted for the peer that is known. -/
theorem stream_recovered_iff_plain :
    Recovered .on .plain 0 [.ping 1 2, .ping 3 4] [pingFrame, laterPingFrame]
      [(pingFrame, 7), (laterPingFrame, 8)] ⟨AList.insert 0 (.new 0 0) ∅, .zero⟩ := by
  have hiff : Recovered .on .plain 0 [.ping 1 2, .ping 3 4] [pingFrame, laterPingFrame]
      [(pingFrame, 7), (laterPingFrame, 8)] ⟨AList.insert 0 (.new 0 0) ∅, .zero⟩ ↔ _ :=
    stream_recovered_iff (.cons rfl (.cons rfl .nil)) (by decide) rfl
  refine hiff.mpr ⟨rfl, by decide, by decide, ?_⟩
  intro _ peer hpeer
  obtain rfl := Option.some.inj hpeer
  decide

/-- Of two pings that one read returns, the second is lost. -/
theorem second_ping_lost :
    (∃ s', listenAll .on .plain 0 [chunk (pingFrame ++ pingFrame, 7)] .receiving ⟨∅, .zero⟩ =
        some (.receiving, [.ping 1 2], s') ∧ s'.stats.totalMessagesReceived = 1) ∧
      ¬ Recovered .on .plain 0 [.ping 1 2, .ping 1 2] [pingFrame, pingFrame]
        [(pingFrame ++ pingFrame, 7)] ⟨∅, .zero⟩ := by
  have hloop : ∃ s', listenAll .on .plain 0 [chunk (pingFrame ++ pingFrame, 7)] .receiving
      ⟨∅, .zero⟩ = some (.receiving, [.ping 1 2], s') ∧ s'.stats.totalMessagesReceived = 1 :=
    ⟨_, rfl, rfl⟩
  refine ⟨hloop, ?_⟩
  rintro ⟨s', hrecovered, _⟩
  obtain ⟨s₁, hlost, _⟩ := hloop
  simp only [List.map_cons, List.map_nil, hlost, Option.some.injEq, Prod.mk.injEq] at hrecovered
  exact absurd hrecovered.2.1 (by decide)

end ValidatorSync

end SilverNetwork
