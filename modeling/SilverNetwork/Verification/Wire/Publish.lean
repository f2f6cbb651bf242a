import SilverNetwork.Model.NetworkHandle
import SilverNetwork.Verification.Wire.Format

/-! What a receiver makes of published bytes. `prepare_message` publishes a message, which
the receiver reads back; the handle publishes a bare payload, which the receiver never
reads as the message it stands for. -/

namespace SilverNetwork

open GossipProtocol NetworkHandle

variable {P : Payloads} {checks : OverflowChecks}

/-- What a receiver answers for data it has not seen. -/
def answerTo (P : Payloads) (data : Bytes) :
    Except NetworkError (Option (NetworkMessage P)) :=
  match NetworkMessage.fromBytes data with
  | .ok message => .ok (some message)
  | .error e => .error (.deserialization ("Failed to deserialize message: " ++ P.errorText e))

/-- Cached data is answered with nothing, any other data by reading it. -/
theorem handleReceivedMessage_answer {g next : GossipProtocol} {id : MessageId} {topic : String}
    {data : Bytes} {readings : ReceiveReadings}
    {answer : Except NetworkError (Option (NetworkMessage P))}
    (h : g.handleReceivedMessage checks id topic data readings = some (answer, next)) :
    answer = if (g.findCached id).isSome then .ok none else answerTo P data := by
  unfold handleReceivedMessage at h
  cases hcached : g.findCached id with
  | some cached =>
      simp only [hcached, Option.bind_eq_bind, Option.bind_eq_some_iff] at h
      obtain ⟨_, _, _, _, heq⟩ := h
      exact (Prod.mk.inj (Option.some.inj heq)).1.symm
  | none =>
      simp only [hcached, Option.bind_eq_bind, Option.bind_eq_some_iff] at h
      obtain ⟨_, _, _, _, heq⟩ := h
      rw [answerTo]
      split at heq
      · rename_i e he
        rw [he]
        exact (Prod.mk.inj (Option.some.inj heq)).1.symm
      · rename_i message hm
        rw [hm]
        exact (Prod.mk.inj (Option.some.inj heq)).1.symm

/-- A message that is answered was read from the data. -/
theorem reads_of_answered {g next : GossipProtocol} {id : MessageId} {topic : String}
    {data : Bytes} {readings : ReceiveReadings} {message : NetworkMessage P}
    (h : g.handleReceivedMessage checks id topic data readings =
      some (.ok (some message), next)) : NetworkMessage.fromBytes data = .ok message := by
  have hanswer := handleReceivedMessage_answer h
  split at hanswer
  · simp at hanswer
  · unfold answerTo at hanswer
    split at hanswer
    · rename_i m hm
      obtain rfl := Option.some.inj (Except.ok.inj hanswer)
      exact hm
    · simp at hanswer

/-! ## Prepared messages -/

theorem prepareMessage_data {g next : GossipProtocol} {topic : String} {m : NetworkMessage P}
    {now : Instant} {data : Bytes}
    (h : g.prepareMessage checks topic m now = some (.ok data, next)) :
    m.toBytes = .ok data := by
  unfold prepareMessage at h
  cases hinfo : g.topics.lookup topic with
  | none => simp [hinfo] at h
  | some info =>
      cases hbytes : m.toBytes with
      | error e => simp [hinfo, hbytes] at h
      | ok bytes =>
          simp only [hinfo, hbytes, Option.bind_eq_bind] at h
          split at h
          · simp at h
          · obtain ⟨_, _, h⟩ := Option.bind_eq_some_iff.mp h
            obtain ⟨_, _, h⟩ := Option.bind_eq_some_iff.mp h
            rw [Except.ok.inj (Prod.mk.inj (Option.some.inj h)).1]

/-- A prepared message is received as itself by whoever has not cached it. -/
theorem prepared_message_received (htx : P.transaction.RoundTrips)
    (hbatch : P.transactionBatch.RoundTrips) {sender sent receiver next : GossipProtocol}
    {topic : String} {m : NetworkMessage P} {now : Instant} {data : Bytes} {id : MessageId}
    {readings : ReceiveReadings} {answer : Except NetworkError (Option (NetworkMessage P))}
    (hprepared : sender.prepareMessage checks topic m now = some (.ok data, sent))
    (hnew : receiver.findCached id = none)
    (hreceived : receiver.handleReceivedMessage checks id topic data readings =
      some (answer, next)) : answer = .ok (some m) := by
  have hread := NetworkMessage.fromBytes_toBytes htx hbatch (prepareMessage_data hprepared)
  rw [handleReceivedMessage_answer hreceived, hnew, answerTo, hread]
  rfl

/-! ## Published payloads -/

/-- A broadcast that succeeds leaves its data in the cache, under the data's own identifier. -/
theorem broadcast_caches {g next : GossipProtocol} {messageType : MessageType} {data : Bytes}
    {cachedAt : Instant} {order : CacheOrder}
    (h : g.broadcast checks messageType data cachedAt order = some (.ok (), next)) :
    (next.findCached (.new data)).isSome := by
  unfold broadcast at h
  cases htopic : broadcastTopic messageType with
  | none => simp [htopic] at h
  | some topic =>
      by_cases hsubscribed : topic ∈ g.topics
      · cases hlock : g.messageCache.lock with
        | none => simp [htopic, hsubscribed, hlock] at h
        | some cache =>
            by_cases hcached : MessageId.new data ∈ cache
            · simp only [htopic, hsubscribed, hlock, hcached, not_true_eq_false, if_true,
                if_false] at h
              obtain ⟨_, rfl⟩ := Prod.mk.inj (Option.some.inj h)
              rw [findCached, hlock, Option.bind_some, AList.lookup_isSome]
              exact hcached
            · simp only [htopic, hsubscribed, hlock, hcached, not_true_eq_false, if_false] at h
              cases hstats : g.stats.lock with
              | none => simp [hstats] at h
              | some stats =>
                  simp only [hstats, Option.bind_eq_bind, Option.bind_eq_some_iff] at h
                  obtain ⟨_, _, heq⟩ := h
                  obtain ⟨_, rfl⟩ := Prod.mk.inj (Option.some.inj heq)
                  rw [findCached, Mutex.lock_with_value hlock, Option.bind_some,
                    AList.lookup_insert]
                  rfl
      · simp [htopic, hsubscribed] at h

/-- What the handle broadcast is the payload it serialized, be it a transaction or a batch. -/
theorem broadcastData_publishes {handle next : NetworkHandle} {messageType : MessageType}
    {payload : Except NetworkError Bytes} {cachedAt : Instant} {order : CacheOrder}
    (h : handle.broadcastData checks messageType payload cachedAt order = some (.ok (), next)) :
    ∃ data, payload = .ok data ∧ (next.gossip.findCached (.new data)).isSome := by
  unfold broadcastData at h
  cases payload with
  | error e => simp at h
  | ok data =>
      obtain ⟨⟨result, g⟩, hbroadcast, heq⟩ := Option.map_eq_some_iff.mp h
      obtain ⟨rfl, rfl⟩ := Prod.mk.inj heq
      exact ⟨data, rfl, broadcast_caches hbroadcast⟩

theorem serialize_eq_ok {α : Type} {codec : Codec α} {x : α} {data : Bytes}
    (h : serialize P codec x = .ok data) : codec.encode x = .ok data := by
  unfold serialize at h
  cases hx : codec.encode x with
  | error e => simp [hx, Except.mapError] at h
  | ok own =>
      rw [hx] at h
      rw [Except.ok.inj h]

/-- Where reading a payload consumes what encoding it takes, no receiver ever answers a
published payload with the message it stands for. -/
theorem published_payload_never_received (htx : P.transaction.Measured)
    (hbatch : P.transactionBatch.Measured) {receiver next : GossipProtocol} {id : MessageId}
    {topic : String} {data : Bytes} {readings : ReceiveReadings}
    {answer : Except NetworkError (Option (NetworkMessage P))}
    (h : receiver.handleReceivedMessage checks id topic data readings = some (answer, next)) :
    (∀ tx, transactionData tx = .ok data → answer ≠ .ok (some (.transaction tx))) ∧
      ∀ batch, batchData batch = .ok data → answer ≠ .ok (some (.batch batch)) := by
  refine ⟨?_, ?_⟩
  · rintro tx hdata rfl
    obtain ⟨own, hown, hlt⟩ :=
      NetworkMessage.length_lt_of_reads_transaction htx (reads_of_answered h)
    obtain rfl := Except.ok.inj (hown.symm.trans (serialize_eq_ok hdata))
    omega
  · rintro batch hdata rfl
    obtain ⟨own, hown, hlt⟩ :=
      NetworkMessage.length_lt_of_reads_batch hbatch (reads_of_answered h)
    obtain rfl := Except.ok.inj (hown.symm.trans (serialize_eq_ok hdata))
    omega

/-- A fresh receiver gives no transaction for the published bytes of the number 7. -/
theorem published_payload_never_received_plain :
    ∃ answer next, GossipProtocol.new.handleReceivedMessage (P := .plain) .on ⟨[7]⟩
        Topics.transactions [7, 0, 0, 0, 0, 0, 0, 0] ⟨0, 0, 0, .stored _⟩ = some (answer, next) ∧
      transactionData (P := .plain) 7 = .ok [7, 0, 0, 0, 0, 0, 0, 0] ∧
      answer ≠ .ok (some (.transaction 7)) := by
  obtain ⟨answer, next, hreceived⟩ : ∃ answer next,
      GossipProtocol.new.handleReceivedMessage (P := .plain) .on ⟨[7]⟩ Topics.transactions
        [7, 0, 0, 0, 0, 0, 0, 0] ⟨0, 0, 0, .stored _⟩ = some (answer, next) := ⟨_, _, rfl⟩
  have hnever := published_payload_never_received Codec.u64_measured
    Codec.u64_measured.list hreceived
  exact ⟨answer, next, hreceived, rfl, hnever.1 7 rfl⟩

/-- The published bytes of the number 7 are read as a `Pong` cut short. -/
theorem published_transaction_misread :
    ∃ next, transactionData (P := .plain) 7 = .ok [7, 0, 0, 0, 0, 0, 0, 0] ∧
      GossipProtocol.new.findCached ⟨[7]⟩ = none ∧
      GossipProtocol.new.handleReceivedMessage (P := .plain) .on ⟨[7]⟩ Topics.transactions
        [7, 0, 0, 0, 0, 0, 0, 0] ⟨0, 0, 0, .stored _⟩ =
        some (.error (.deserialization "Failed to deserialize message: malformed"), next) :=
  ⟨_, rfl, rfl, rfl⟩

end SilverNetwork
