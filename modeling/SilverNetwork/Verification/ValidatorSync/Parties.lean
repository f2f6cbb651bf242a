import SilverNetwork.Model.ValidatorExchange
import SilverNetwork.Verification.ValidatorSync.Steps
import SilverNetwork.Verification.ValidatorSync.Receiving

/-! The steps of the sender of a message and of the listener, each by itself, and what there can
be on the wire of a connection between them. -/

namespace SilverNetwork

namespace ValidatorSync

variable {Address : Type} [DecidableEq Address] {P : Parties Address} {f : Bytes}
  {c : Connection} {s s' : NetworkState Address}

/-! ## The sender -/

/-- The frame of the message is what the sender connects and writes for. -/
def SendPhase.Holds (f : Bytes) : SendPhase → Prop
  | .connecting _ frame => frame = f
  | .writing _ frame => frame = f
  | _ => True

/-- Only a connection that is made leads to a write, and only a write to success. -/
inductive SendRule (f : Bytes) : SendPhase → SendIo → SendPhase → Prop where
  | start (number : ℕ) (lastError : Option CoreError) :
      SendRule f (.attempt number lastError) .resumed (.connecting number f)
  | refuse (number next : ℕ) (lastError : Option CoreError) (error : CoreError) :
      SendRule f (.attempt number lastError) .resumed (.attempt next (some error))
  | giveUp (number : ℕ) (lastError : Option CoreError) (error : CoreError) :
      SendRule f (.attempt number lastError) .resumed (.finished (.error error))
  | connect (number : ℕ) (frame : Bytes) :
      SendRule f (.connecting number frame) (.connected .ok) (.writing number frame)
  | unconnected (number next : ℕ) (frame : Bytes) (outcome : Outcome) (error : CoreError)
      (failed : outcome ≠ .ok) :
      SendRule f (.connecting number frame) (.connected outcome) (.attempt next (some error))
  | succeed (number : ℕ) (frame : Bytes) (latencyMs : UInt64) (now : Instant)
      (result : UInt64 × UInt64) :
      SendRule f (.writing number frame) (.wrote .ok latencyMs now) (.finished (.ok result))
  | unwritten (number next : ℕ) (frame : Bytes) (outcome : Outcome) (latencyMs : UInt64)
      (now : Instant) (error : CoreError) :
      SendRule f (.writing number frame) (.wrote outcome latencyMs now)
        (.attempt next (some error))

theorem send_rule {phase phase' : SendPhase} {io : SendIo}
    (hframe : P.message.toBytes P.texts = .ok f)
    (h : send P.checks P.texts P.listener P.message P.maxRetries phase io s =
      some (phase', s')) : SendRule f phase io phase' := by
  cases attemptRule_of_send h with
  | start number lastError frame remains encodes fits =>
      obtain rfl := Except.ok.inj (encodes.symm.trans hframe)
      exact .start number lastError
  | refuse number lastError error => exact .refuse number _ lastError error
  | giveUp number lastError => exact .giveUp number lastError _
  | connect number frame => exact .connect number frame
  | unconnected number frame outcome error retries failed =>
      exact .unconnected number _ frame outcome error failed
  | succeed number frame latencyMs now => exact .succeed number frame latencyMs now _
  | unwritten number frame outcome latencyMs now error =>
      exact .unwritten number _ frame outcome latencyMs now error

omit [DecidableEq Address] in
theorem SendRule.holds {phase phase' : SendPhase} {io : SendIo} (h : SendRule f phase io phase')
    (hphase : phase.Holds f) : phase'.Holds f := by
  cases h with
  | start => rfl
  | connect => exact hphase
  | refuse | giveUp | unconnected | succeed | unwritten => trivial

omit [DecidableEq Address] in
/-- A write is due only after a connection that is made. -/
theorem SendRule.writing {phase : SendPhase} {io : SendIo} {number : ℕ} {frame : Bytes}
    (h : SendRule f phase io (.writing number frame)) : io = .connected .ok := by
  cases h
  rfl

omit [DecidableEq Address] in
theorem SendRule.wrote {phase phase' : SendPhase} {outcome : Outcome} {latencyMs : UInt64}
    {now : Instant} (h : SendRule f phase (.wrote outcome latencyMs now) phase') :
    ∃ number frame, phase = .writing number frame := by
  cases h with
  | succeed number frame | unwritten number _ frame => exact ⟨number, frame, rfl⟩

/-! ## One connection -/

/-- What there is on the wire of a connection in each phase of the listener: at most one frame, or
the beginning of one, while the handshake is due, and nothing for the message loop. -/
inductive Wire (f : Bytes) : ConnectionPhase → Bool → List Bytes → Prop where
  | unwritten (phase : ConnectionPhase) (closed : Bool)
      (due : phase = .greeting ∨ phase = .greeted) : Wire f phase closed []
  | written (phase : ConnectionPhase) (k : ℕ) (due : phase = .greeting ∨ phase = .greeted) :
      Wire f phase true [f.take k]
  | drained : Wire f .receiving true []
  | ended (result : Except CoreError Unit) (closed : Bool) (pending : List Bytes) :
      Wire f (.finished result) closed pending

omit [DecidableEq Address] in
theorem wire_opened (P : Parties Address) (closed : Bool) :
    Wire f (openConnection P.texts P.validatorId) closed [] := by
  unfold openConnection
  cases (ownHandshake P.validatorId).toBytes P.texts with
  | error e => exact .ended _ _ _
  | ok frame => exact .unwritten _ _ (.inl rfl)

/-- The one write on an open connection finds it as it was opened. -/
theorem Wire.deliver {phase : ConnectionPhase} {pending : List Bytes}
    (h : Wire f phase false pending) (k : ℕ) :
    Wire f phase true (if f.take k = [] then pending else pending ++ [f.take k]) := by
  cases h with
  | unwritten _ _ due =>
      split
      · exact .unwritten phase true due
      · exact .written phase k due
  | ended => exact .ended _ _ _

/-- What the outside world may offer the listener: a write or a read that fails, or the next
frame. -/
inductive Offers (c : Connection) : ListenIo → List Bytes → Prop where
  | wrote (outcome : Except String Unit) : Offers c (.wrote outcome) c.pending
  | read (bytes : Bytes) (pending : List Bytes) (now : Instant)
      (next : c.nextRead = some (bytes, pending)) : Offers c (.read (.data bytes) now) pending
  | timedOut (now : Instant) : Offers c (.read .timeout now) c.pending
  | failed (text : String) (now : Instant) : Offers c (.read (.error text) now) c.pending

theorem acceptHandshake_stats {address : Address} {message : NetworkMessage}
    (h : acceptHandshake address message s = some s') : s'.stats = s.stats := by
  cases message with
  | handshake => exact withPeer_stats h
  | _ =>
      obtain rfl := Option.some.inj h
      rfl

omit [DecidableEq Address] in
/-- The frame that is read for the handshake is whole if it is a message, and then it is all that
was written. -/
theorem read_whole {texts : Texts Address} {m m' : NetworkMessage} {k size : ℕ}
    (hframe : m.toBytes texts = .ok f) (hsmall : f.length < 2 ^ 32)
    (hread : NetworkMessage.fromBytes texts ((f.take k).take size) = .ok m') :
    (f.take k).length ≤ size := by
  rw [List.take_take] at hread
  by_cases hwhole : min size k < f.length
  · obtain ⟨e, he⟩ := NetworkMessage.fromBytes_take hframe hsmall hwhole
    rw [he] at hread
    cases hread
  · rw [List.length_take]
    omega

/-- The steps of the listener. Only a read of the message loop can decode a message for it. -/
inductive ListenRule (texts : Texts Address) (s s' : NetworkState Address) :
    ConnectionPhase → ListenIo → ConnectionPhase → Option NetworkMessage → Prop where
  | greet (same : s'.stats = s.stats) :
      ListenRule texts s s' .greeting (.wrote (.ok ())) .greeted none
  | handshake (bytes : Bytes) (now : Instant) (m : NetworkMessage)
      (reads : NetworkMessage.fromBytes texts bytes = .ok m) (same : s'.stats = s.stats) :
      ListenRule texts s s' .greeted (.read (.data bytes) now) .receiving none
  | receive (bytes : Bytes) (now : Instant) (found : Option NetworkMessage)
      (nonempty : bytes ≠ []) :
      ListenRule texts s s' .receiving (.read (.data bytes) now) .receiving found
  | finish (phase : ConnectionPhase) (io : ListenIo) (result : Except CoreError Unit)
      (same : s'.stats = s.stats) : ListenRule texts s s' phase io (.finished result) none

theorem listen_rule {checks : OverflowChecks} {texts : Texts Address} {address : Address}
    {phase phase' : ConnectionPhase} {io : ListenIo} {found : Option NetworkMessage}
    (h : listen checks texts address phase io s = some (phase', found, s')) :
    ListenRule texts s s' phase io phase' found := by
  cases hearRule_of_listen h with
  | greet => exact .greet rfl
  | fail phase io error => exact .finish phase io _ rfl
  | accept bytes now message _ reads accepts =>
      exact .handshake bytes now message reads (acceptHandshake_stats accepts)
  | receive bytes now found _ nonempty => exact .receive bytes now found nonempty
  | hangUp outcome now _ hangs => exact .finish _ _ _ (withPeer_stats hangs)

omit [DecidableEq Address] in
/-- A step of the listener leaves the statistics alone, decodes nothing in its loop, and keeps
what is on the wire away from it. -/
theorem Wire.listen {texts : Texts Address} {m : NetworkMessage} {io : ListenIo}
    {pending : List Bytes} {phase : ConnectionPhase} {found : Option NetworkMessage}
    (hframe : m.toBytes texts = .ok f) (hsmall : f.length < 2 ^ 32)
    (hwire : Wire f c.phase c.closed c.pending) (hio : Offers c io pending)
    (h : ListenRule texts s s' c.phase io phase found) :
    found = none ∧ s'.stats = s.stats ∧ Wire f phase c.closed pending := by
  obtain ⟨waiting, closed, before, received⟩ := c
  simp only at hwire h ⊢
  cases h with
  | finish _ _ result same => exact ⟨rfl, same, .ended result closed pending⟩
  | greet same =>
      cases hio
      refine ⟨rfl, same, ?_⟩
      cases hwire with
      | unwritten => exact .unwritten .greeted closed (.inr rfl)
      | written _ k => exact .written .greeted k (.inr rfl)
  | handshake bytes now m' reads same =>
      cases hio with
      | read _ _ _ next =>
          cases hwire with
          | unwritten =>
              simp only [Connection.nextRead] at next
              split at next
              · obtain ⟨rfl, rfl⟩ := Prod.mk.inj (Option.some.inj next)
                simp [NetworkMessage.fromBytes] at reads
              · cases next
          | written _ k =>
              obtain ⟨rfl, rfl⟩ := Prod.mk.inj (Option.some.inj next)
              have hwhole := read_whole hframe hsmall reads
              rw [if_pos hwhole]
              exact ⟨rfl, same, .drained⟩
  | receive bytes now found nonempty =>
      cases hio with
      | read _ _ _ next =>
          cases hwire with
          | unwritten _ _ due => simp at due
          | written _ _ due => simp at due
          | drained =>
              obtain ⟨rfl, rfl⟩ := Prod.mk.inj (Option.some.inj next)
              exact absurd rfl nonempty

end ValidatorSync

end SilverNetwork
