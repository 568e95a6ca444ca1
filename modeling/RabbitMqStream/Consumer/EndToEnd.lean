/-
# From the publisher to the consumer

A message that is published goes through four hands: the producer's encoder, the broker, the
consumer's decoder and its handler.  The broker is the one that is not known.  It stores the records
of a `Publish` frame, which it does not look into, under the offsets that it gives them, and sends
them in a chunk: a front of its own, and behind it the records as they were.

* `published_delivered`: a batch that is published is delivered, message by message, with the
  offsets of the broker, to a consumer that wants everything.

A message must be one that comes back (`Amqp.Message.Writable`), and of the size that is written in
front of it.

**The argument.**  Nothing is proved here about bytes that was not proved before: how a batch is
written (`Protocol/PublishRoundTrip.lean`), how a chunk is read
(`Protocol/ResponseRoundTrip.lean`) and how a message comes back (`Amqp/Messages.lean`).  What has
to be seen is that the records in the one frame are the records in the other, byte for byte, so
that the broker need not look into them.
-/
import RabbitMqStream.Amqp.Messages
import RabbitMqStream.Client.Codec
import RabbitMqStream.Consumer.Model
import RabbitMqStream.Protocol.ResponseRoundTrip

namespace RabbitMqStream.Consumer

open Wire Protocol Client

/-! ## 1. Messages on their way

What a message must be for the way, and what of it the broker stores.  A record is the size of
the message and its bytes in a `Publish` frame of either version and in a chunk alike. -/

/-- A message for the way to a broker and back. -/
structure Exchangeable [Amqp.Chrono] (m : Amqp.Message) : Prop where
  writable : m.Writable
  exact : Amqp.Exact m
  short : (Amqp.encode m).length < 2 ^ 31

/-- The messages of a batch as they are stored: the publishing ids are not part of them. -/
def stored (pubs : List PublishedMessage) : List Message :=
  pubs.map fun p => { message := p.message.message }

/-- The records of a batch: the size of each message and the message. -/
def records (pubs : List PublishedMessage) : Bytes := pubs.flatMap fun p => recordBytes p.message

theorem records_stored (pubs : List PublishedMessage) :
    (stored pubs).flatMap recordBytes = records pubs := by
  rw [stored, List.flatMap_map]
  rfl

/-- What stands in front of the record of a message: its id, and in version 2 its filter value. -/
def entryFront (version : UInt16) (p : PublishedMessage) : Bytes :=
  toBE 8 p.publishingId.toNat ++
    if version = protocolVersion2 then optStringBytes p.filterValue else []

/-- **A batch is written** as a count and its records, each behind its own front. -/
theorem exec_publish (publisherId : UInt8) (pubs : List PublishedMessage) (version : UInt16) :
    (encode (⟨publisherId, pubs, version⟩ : PublishCommand)).exec [] =
      (.ok (), toBE 1 publisherId.toNat ++
        vecBytes (fun p => entryFront version p ++ recordBytes p.message) pubs) := by
  unfold instEncoderPublishCommand
  by_cases hv : version = protocolVersion2
  · have hentry : publishedBytesVersion2 =
        fun p => entryFront version p ++ recordBytes p.message := by
      funext p
      rw [publishedBytesVersion2, entryFront, if_pos hv, recordBytes, List.append_assoc]
      rfl
    simp [WriteM.exec_bind, hv, hentry]
  · have hentry : publishedBytes = fun p => entryFront version p ++ recordBytes p.message := by
      funext p
      rw [publishedBytes, entryFront, if_neg hv, recordBytes, List.append_nil]
      rfl
    simp [WriteM.exec_bind, hv, hentry]

theorem Exchangeable.roundTrips [Amqp.Chrono] {m : Amqp.Message} (h : Exchangeable m) :
    ({ message := m } : Message).RoundTrips := by
  have hback := Amqp.decode_of_parts (Amqp.parts_roundTrip h.writable h.short)
  refine ⟨?_, h.exact⟩
  rw [Message.decode, hback]

theorem Exchangeable.size_lt [Amqp.Chrono] {m : Amqp.Message} (h : Exchangeable m) :
    (encodedSize ({ message := m } : Message)).toNat < 2 ^ 31 := by
  have hexact : (encodedSize ({ message := m } : Message)).toNat = (Amqp.encode m).length :=
    h.exact
  rw [hexact]
  exact h.short

/-- The loop of the handler, when nothing is left out. -/
theorem deliverLoop_all {c : ConsumerInternal} (hstart : ∀ offset, c.skips offset = false) :
    ∀ (messages : List Message) (offset : UInt64), c.deliverLoop offset messages =
      messages.zipIdx.map fun x => c.delivery x.1 (offset + UInt64.ofNat x.2) := by
  intro messages
  induction messages with
  | nil => exact fun _ => rfl
  | cons m messages ih =>
    intro offset
    rw [ConsumerInternal.deliverLoop, hstart, if_neg (by simp), ih, List.zipIdx_cons',
      List.map_cons, List.map_map]
    congr 1
    · simp
    · refine List.map_congr_left fun x _ => ?_
      have hnext : offset + 1 + UInt64.ofNat x.2 = offset + UInt64.ofNat (x.2 + 1) := by
        rw [UInt64.ofNat_add, UInt64.add_assoc, UInt64.add_comm 1]
        rfl
      exact congrArg (c.delivery x.1) hnext

/-! ## 2. The whole way

Writing, storing and reading put together.  The broker is a list of stored records and the
offset it gives to the first of them; everything else in the front of its chunk is arbitrary. -/

/-- A consumer that wants every message: it has no filter and no offset to start from. -/
structure ConsumerInternal.WantsAll (c : ConsumerInternal) : Prop where
  filter : c.filterConfiguration = none
  start : ∀ offset, c.offsetSpecification ≠ .offset offset

theorem ConsumerInternal.WantsAll.deliveries {c : ConsumerInternal} (h : c.WantsAll)
    (d : DeliverCommand) : c.deliveries d =
      d.messages.zipIdx.map fun x => c.delivery x.1 (d.chunkFirstOffset + UInt64.ofNat x.2) := by
  have hstart : ∀ offset, c.skips offset = false := by
    intro offset
    unfold ConsumerInternal.skips
    cases hspec : c.offsetSpecification with
    | offset o => exact absurd hspec (h.start o)
    | _ => rfl
  rw [ConsumerInternal.deliveries, ConsumerInternal.filterMessages, h.filter]
  exact deliverLoop_all hstart _ _

/-- **What is published is delivered.**  A `Publish` frame has the records of its batch, each behind
the id of its message.  A chunk that has these records, whatever the broker writes in front of them,
is decoded as the messages of the batch, leaving what comes behind it, and the handler makes them
the deliveries of the batch, in its order, with one offset after the other.

The three parts are about the three hands that are known.  The second one is a statement about the
encoder of responses only in its form: it says which bytes the chunk has. -/
theorem published_delivered [Amqp.Chrono] [Allocator] [Allocator.Ample] (c : ConsumerInternal)
    (hall : c.WantsAll)
    (publisherId : UInt8) (pubs : List PublishedMessage) (version : UInt16)
    (hex : ∀ p ∈ pubs, Exchangeable p.message.message) (hlen : pubs.length < 2 ^ 32)
    (d : DeliverCommand) (hd : d.messages = stored pubs) (header : UInt16) :
    (encode (⟨publisherId, pubs, version⟩ : PublishCommand)).exec [] =
        (.ok (), toBE 1 publisherId.toNat ++
          vecBytes (fun p => entryFront version p ++ recordBytes p.message) pubs) ∧
      (∃ front : Bytes,
        (encode (⟨⟨8, header⟩, .deliver d⟩ : Response)).exec [] =
            (.ok (), front ++ records pubs) ∧
          ∀ rest, RabbitMqStreamCodec.decode (front ++ records pubs ++ rest) =
            (.ok (some ⟨⟨8, header⟩, .deliver d⟩), rest)) ∧
      c.deliveries d = (stored pubs).zipIdx.map fun x =>
        c.delivery x.1 (d.chunkFirstOffset + UInt64.ofNat x.2) := by
  have hback : ∀ m ∈ d.messages, m.RoundTrips ∧ (encodedSize m).toNat < 2 ^ 31 := by
    intro m hm
    rw [hd] at hm
    obtain ⟨p, hp, rfl⟩ := List.mem_map.mp hm
    exact ⟨(hex p hp).roundTrips, (hex p hp).size_lt⟩
  have hfits : ResponseKind.Fits (.deliver d) := by
    refine ⟨?_, fun m hm => (hback m hm).2⟩
    rw [hd, stored, List.length_map]
    exact hlen
  refine ⟨exec_publish publisherId pubs version, ?_, ?_⟩
  · obtain ⟨bs, hw, hr⟩ := kind_restores (.deliver d) (fun _ hs => nomatch hs)
      fun m hm => (hback m hm).1
    obtain rfl : deliverFront d ++ records pubs = bs := by
      have hexec : ((encode d : Writer).exec []) = (.ok (), [] ++ bs) := hw []
      rw [exec_deliver, hd, records_stored] at hexec
      simpa using hexec
    obtain ⟨size, hexec⟩ := exec_response 8 header hw
    refine ⟨toBE 4 size.toNat ++ (toBE 2 (8 : UInt16).toNat ++
      (toBE 2 header.toNat ++ deliverFront d)), ?_, ?_⟩
    · simpa only [List.append_assoc] using hexec
    · intro rest
      have hbody := (hr 8 rest).mpr ⟨List.mem_singleton.mpr rfl, hfits⟩
      rw [List.append_assoc] at hbody
      refine codec_decode_of_ok ?_
      simp only [List.append_assoc]
      exact decode_response_iff.mpr ⟨rfl, hbody⟩
  · rw [hall.deliveries, hd]

section Sample

/-- Two messages, the second of them with a filter value. -/
def twoOrders : List PublishedMessage :=
  [⟨4, { message := { body := { data := [[0x68, 0x69]] } } }, none⟩,
    ⟨5, { publishingId := some 5, message := { body := { value := some (.simple (.uint 7)) } } },
      some "eu"⟩]

def orderChunk : DeliverCommand :=
  ⟨1, 80, 0, 2, 0, 0, 40, -1, 0, 0, stored twoOrders⟩

def orderConsumer : ConsumerInternal := ⟨none, "orders", .next, 1, none, false⟩

theorem published_delivered_orders :
    letI := Amqp.Chrono.range; letI := Allocator.unbounded
    (∃ front : Bytes, ∀ rest,
      RabbitMqStreamCodec.decode (front ++ records twoOrders ++ rest) =
        (.ok (some ⟨⟨8, 1⟩, .deliver orderChunk⟩), rest)) ∧
    orderConsumer.deliveries orderChunk = (stored twoOrders).zipIdx.map fun x =>
      orderConsumer.delivery x.1 (40 + UInt64.ofNat x.2) := by
  let _ := Amqp.Chrono.range
  let _ := Allocator.unbounded
  have hall : orderConsumer.WantsAll := ⟨rfl, fun offset => by simp [orderConsumer]⟩
  have hex : ∀ p ∈ twoOrders, Exchangeable p.message.message := by
    simp only [twoOrders, List.forall_mem_cons, List.not_mem_nil, false_imp_iff, implies_true,
      and_true]
    refine ⟨⟨⟨?_, ?_, ?_, ?_, ?_, ?_, ?_⟩, rfl, by decide⟩,
      ⟨⟨?_, ?_, ?_, ?_, ?_, ?_, ?_⟩, rfl, by decide⟩⟩
    all_goals simp only [Option.mem_def, Option.some.injEq, reduceCtorEq, false_imp_iff,
      implies_true, forall_eq', List.not_mem_nil]
    exact ⟨by simp [Amqp.Value.WellFormed], by simp [Amqp.Value.ShortLists],
      by simp [Amqp.Value.leaves, Amqp.SimpleValue.ReadsBack]⟩
  obtain ⟨-, ⟨front, -, hback⟩, hdel⟩ := published_delivered orderConsumer hall 3 twoOrders 2 hex
    (by decide) orderChunk rfl 1
  exact ⟨⟨front, hback⟩, hdel⟩

end Sample

end RabbitMqStream.Consumer
