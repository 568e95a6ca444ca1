/-
# The length in front of a request

`Request::encode` writes `Request::encoded_size` as the length of the frame and then the header
and the command.  The broker finds the next frame by that length, so it has to be the number of
bytes that follow, for each of the 25 commands, whose sizes and encoders are written apart.

`Announced` collects the types whose size function and encoder agree; the rules of
`Wire/Writer.lean` build it for a command out of its fields.  Sizes are counted modulo `2 ^ 32`
all the way, so no bound is needed until the end.  The one part that is not right by itself is
the AMQP message in a `Publish` (`Amqp/Size.lean`); for that the agreement is a hypothesis.

* `request_encode_length`: what `Request::encode` appends is a length and that many bytes.

**The argument.**  A run of an encoder that succeeds has appended as many bytes as the size says,
modulo `2 ^ 32`.  This is true of a sequence when it is true of its parts, in whatever order the
size adds them up, and so it is proved of each command by naming its parts.  Only when the frame
is put together is it used that it has less than `2 ^ 32` bytes.
-/
import RabbitMqStream.Amqp.Size
import RabbitMqStream.Protocol.Request

namespace RabbitMqStream.Protocol

open Wire Wire.WriteM

/-! ## 1. Fields

The fields that agree by themselves, as instances, so that a command which is made of them
agrees by the rule for a sequence. -/

/-- A type whose `encoded_size` gives the number of bytes its `encode` appends. -/
class Announced (α : Type) [Encoder α] : Prop where
  sized : ∀ x : α, (encode x).Sized (encodedSize x)

instance : Announced UInt8 := ⟨fun n => sized_write (toBE 1 n.toNat)⟩

instance : Announced UInt16 := ⟨fun n => sized_write (toBE 2 n.toNat)⟩

instance : Announced UInt32 := ⟨fun n => sized_write (toBE 4 n.toNat)⟩

instance : Announced UInt64 := ⟨fun n => sized_write (toBE 8 n.toNat)⟩

instance : Announced Int64 := ⟨fun n => sized_write (toBE 8 n.toUInt64.toNat)⟩

instance : Announced ResponseCode := ⟨fun c => sized_write (toBE 2 c.toU16.toNat)⟩

instance : Announced String :=
  ⟨fun s => (sized_write (toBE 2 (asBytes s).length)).bind fun _ => sized_write (asBytes s)⟩

instance : Announced (Option String) where
  sized
    | some s => Announced.sized s
    | none => sized_write (toBE 2 0)

instance : Announced Bytes :=
  ⟨fun bs => (sized_write (toBE 4 bs.length)).bind fun _ => sized_write bs⟩

theorem sized_encodeVec {α : Type} [Encoder α] {xs : List α}
    (h : ∀ x ∈ xs, (encode x).Sized (encodedSize x)) : (encodeVec xs).Sized (vecSize xs) :=
  Sized.prefixed (sized_write (toBE 4 xs.length)) h

instance : Announced (List String) := ⟨fun _ => sized_encodeVec fun s _ => Announced.sized s⟩

instance : Announced (HashMap String String) where
  sized m := by
    have h : (encode m).Sized (4 + m.entries.foldl
        (fun acc e => acc + (encodedSize e.1 + encodedSize e.2)) 0) :=
      Sized.prefixed (sized_write (toBE 4 m.len)) fun e _ =>
        (Announced.sized e.1).bind fun _ => Announced.sized e.2
    simp only [← UInt32.add_assoc] at h
    exact h

instance : Announced Header :=
  ⟨fun h => (Announced.sized h.key).bind fun _ => Announced.sized h.version⟩

/-! ## 2. Commands

Each command is its fields one after another.  The rule for two encoders in a row nests the sum
of the sizes to the right, the source nests it to the left. -/

theorem sum_three (a b c : UInt32) : a + (b + c) = a + b + c := by ac_rfl

theorem sum_four (a b c d : UInt32) : a + (b + (c + d)) = a + b + c + d := by ac_rfl

theorem sum_five (a b c d e : UInt32) : a + (b + (c + (d + e))) = a + b + c + d + e := by ac_rfl

theorem sum_six (a b c d e f : UInt32) :
    a + (b + (c + (d + (e + f)))) = a + b + c + d + e + f := by ac_rfl

instance : Announced PeerPropertiesCommand where
  sized c := (Announced.sized c.correlationId).bind fun _ =>
    Announced.sized c.clientProperties

instance : Announced SaslHandshakeCommand where
  sized c := Announced.sized c.correlationId

instance : Announced SaslAuthenticateCommand where
  sized c := Sized.congr ((Announced.sized c.correlationId).bind fun _ =>
    (Announced.sized c.mechanism).bind fun _ =>
    Announced.sized c.saslData)
    (sum_three _ _ _)

instance : Announced OpenCommand where
  sized c := (Announced.sized c.correlationId).bind fun _ =>
    Announced.sized c.virtualHost

instance : Announced CloseRequest where
  sized c := Sized.congr ((Announced.sized c.correlationId).bind fun _ =>
    (Announced.sized c.closingCode).bind fun _ =>
    Announced.sized c.closingReason)
    (sum_three _ _ _)

instance : Announced Delete where
  sized c := (Announced.sized c.correlationId).bind fun _ =>
    Announced.sized c.stream

instance : Announced CreateStreamCommand where
  sized c := Sized.congr ((Announced.sized c.correlationId).bind fun _ =>
    (Announced.sized c.streamName).bind fun _ =>
    Announced.sized c.args)
    (sum_three _ _ _)

instance : Announced CreditCommand where
  sized c := (Announced.sized c.subscriptionId).bind fun _ =>
    Announced.sized c.credit

instance : Announced MetadataCommand where
  sized c := (Announced.sized c.correlationId).bind fun _ =>
    Announced.sized c.streams

instance : Announced DeclarePublisherCommand where
  sized c := Sized.congr ((Announced.sized c.correlationId).bind fun _ =>
    (Announced.sized c.publisherId).bind fun _ =>
    (Announced.sized c.publisherReference).bind fun _ =>
    Announced.sized c.streamName)
    (sum_four _ _ _ _)

instance : Announced DeletePublisherCommand where
  sized c := (Announced.sized c.correlationId).bind fun _ =>
    Announced.sized c.publisherId

instance : Announced UnSubscribeCommand where
  sized c := (Announced.sized c.correlationId).bind fun _ =>
    Announced.sized c.subscriptionId

instance : Announced ExchangeCommandVersion where
  sized c := Sized.congr ((Announced.sized c.key).bind fun _ =>
    (Announced.sized c.minVersion).bind fun _ =>
    Announced.sized c.maxVersion)
    (sum_three _ _ _)

instance : Announced CreateSuperStreamCommand where
  sized c := Sized.congr ((Announced.sized c.correlationId).bind fun _ =>
    (Announced.sized c.superStreamName).bind fun _ =>
    (Announced.sized c.partitions).bind fun _ =>
    (Announced.sized c.bindingKeys).bind fun _ =>
    Announced.sized c.args)
    (sum_five _ _ _ _ _)

instance : Announced DeleteSuperStreamCommand where
  sized c := (Announced.sized c.correlationId).bind fun _ =>
    Announced.sized c.superStreamName

instance : Announced SuperStreamPartitionsRequest where
  sized c := (Announced.sized c.correlationId).bind fun _ =>
    Announced.sized c.superStream

instance : Announced SuperStreamRouteRequest where
  sized c := Sized.congr ((Announced.sized c.correlationId).bind fun _ =>
    (Announced.sized c.routingKey).bind fun _ =>
    Announced.sized c.superStream)
    (sum_three _ _ _)

instance : Announced (List ExchangeCommandVersion) :=
  ⟨fun _ => sized_encodeVec fun v _ => Announced.sized v⟩

instance : Announced ExchangeCommandVersionsRequest where
  sized c := (Announced.sized c.correlationId).bind fun _ => Announced.sized c.commands

/-- `TunesCommand::encoded_size` adds the fields in the other order. -/
instance : Announced TunesCommand where
  sized c := Sized.congr ((Announced.sized c.maxFrameSize).bind fun _ =>
    Announced.sized c.heartbeat) (UInt32.add_comm _ _)

instance : Announced HeartBeatCommand := ⟨fun _ => sized_pure ()⟩

instance : Announced OffsetSpecification where
  sized s := by
    refine (Announced.sized s.getType).bind fun _ => ?_
    cases s with
    | offset n => exact Announced.sized n
    | timestamp t => exact Announced.sized t
    | first | last | next => exact sized_pure ()

instance : Announced SubscribeCommand where
  sized c := Sized.congr ((Announced.sized c.correlationId).bind fun _ =>
    (Announced.sized c.subscriptionId).bind fun _ =>
    (Announced.sized c.streamName).bind fun _ =>
    (Announced.sized c.offsetSpecification).bind fun _ =>
    (Announced.sized c.credit).bind fun _ =>
    Announced.sized c.properties)
    (sum_six _ _ _ _ _ _)

instance : Announced ConsumerUpdateRequestCommand where
  sized c := Sized.congr ((Announced.sized c.correlationId).bind fun _ =>
    (Announced.sized c.responseCode).bind fun _ =>
    Announced.sized c.offsetSpecification)
    (sum_three _ _ _)

/-- A reference that passes the check has written nothing; one that does not has no size. -/
theorem sized_checkReference (reference : String) : (checkReference reference).Sized 0 :=
  Sized.ite (fun _ => sized_throw _ 0) (fun _ => sized_pure ())

/-- The two queries put the stream before the reference in the size and behind it in the
frame. -/
theorem sum_query (a b c : UInt32) : 0 + (a + (b + c)) = a + c + b := by
  rw [UInt32.zero_add]; ac_rfl

instance : Announced QueryOffsetRequest where
  sized c := Sized.congr ((sized_checkReference c.reference).bind fun _ =>
    (Announced.sized c.correlationId).bind fun _ =>
    (Announced.sized c.reference).bind fun _ =>
    Announced.sized c.stream) (sum_query _ _ _)

instance : Announced QueryPublisherRequest where
  sized c := Sized.congr ((sized_checkReference c.publisherReference).bind fun _ =>
    (Announced.sized c.correlationId).bind fun _ =>
    (Announced.sized c.publisherReference).bind fun _ =>
    Announced.sized c.stream) (sum_query _ _ _)

instance : Announced StoreOffset where
  sized c := Sized.congr ((sized_checkReference c.reference).bind fun _ =>
    (Announced.sized c.reference).bind fun _ =>
    (Announced.sized c.stream).bind fun _ =>
    Announced.sized c.offset)
    (by rw [UInt32.zero_add]; exact sum_three _ _ _)

/-! ## 3. Published messages

A published message agrees when its AMQP message does.  This is the only hypothesis, and it is
passed on up to the request. -/

/-- The size of the AMQP message in a message is the number of bytes it encodes to. -/
def Message.Exact (m : Message) : Prop := Amqp.Exact m.message

instance (m : Message) : Decidable m.Exact := inferInstanceAs (Decidable (Amqp.Exact m.message))

theorem sized_message {m : Message} (h : m.Exact) : (encode m).Sized (encodedSize m) :=
  Sized.congr (sized_write (Amqp.encode m.message)) h.announces.eq_ofNat.symm

theorem sized_publishedMessage {m : PublishedMessage} (h : m.message.Exact) :
    (encode m).Sized (encodedSize m) :=
  Sized.congr ((Announced.sized m.publishingId).bind fun _ =>
    (Announced.sized (encodedSize m.message)).bind fun _ => sized_message h) (sum_three _ _ _)

theorem sized_publishedMessage_version2 {m : PublishedMessage} (h : m.message.Exact) :
    m.encodeVersion2.Sized m.encodedSizeVersion2 :=
  Sized.congr ((Announced.sized m.publishingId).bind fun _ =>
    (Announced.sized m.filterValue).bind fun _ =>
    (Announced.sized (encodedSize m.message)).bind fun _ => sized_message h)
    (sum_four _ _ _ _)

theorem sized_publish {c : PublishCommand}
    (h : ∀ m ∈ c.publishedMessages, m.message.Exact) : (encode c).Sized (encodedSize c) := by
  have hv1 : (encodeVec c.publishedMessages).Sized (vecSize c.publishedMessages) :=
    sized_encodeVec fun m hm => sized_publishedMessage (h m hm)
  have hv2 : (encodeVersion2 c.publishedMessages).Sized
      (encodedSizeVersion2 c.publishedMessages) :=
    Sized.prefixed (sized_write (toBE 4 c.publishedMessages.length)) fun m hm =>
      sized_publishedMessage_version2 (h m hm)
  by_cases hv : c.version = protocolVersion2
  · simp only [Encoder.encode, Encoder.encodedSize, if_pos hv]
    exact (Announced.sized c.publisherId).bind fun _ => hv2
  · simp only [Encoder.encode, Encoder.encodedSize, if_neg hv]
    exact (Announced.sized c.publisherId).bind fun _ => hv1

/-! ## 4. The frame

The length field is in front of what it counts, and is no part of it. -/

/-- The messages a command publishes. -/
def RequestKind.messages : RequestKind → List Message
  | .publish c => c.publishedMessages.map PublishedMessage.message
  | _ => []

theorem sized_requestKind {k : RequestKind} (h : ∀ m ∈ k.messages, m.Exact) :
    (encode k).Sized (encodedSize k) := by
  cases k with
  | publish c =>
    refine sized_publish fun m hm => h m.message ?_
    exact List.mem_map_of_mem hm
  | _ c => exact Announced.sized c

/-- **What `Request::encode` appends to the buffer**: a length, and that many bytes.

The length is written before the bytes that it counts, and both are known from the same sum. -/
theorem request_encode_length (r : Request) (hm : ∀ m ∈ r.kind.messages, m.Exact)
    (buf buf' : Bytes) (h : (encode r).exec buf = (.ok (), buf'))
    (hlt : buf'.length < buf.length + 4 + 2 ^ 32) :
    ∃ body, buf' = buf ++ toBE 4 (encodedSize r).toNat ++ body ∧
      body.length = (encodedSize r).toNat := by
  have hbody : (do encode r.header; encode r.kind : Writer).Sized (encodedSize r) :=
    (Announced.sized r.header).bind fun _ => sized_requestKind hm
  obtain ⟨body, rfl, hsize⟩ := hbody (buf ++ toBE 4 (encodedSize r).toNat) () buf' h
  refine ⟨body, rfl, (toNat_of_sized hsize ?_).symm⟩
  rw [List.length_append, List.length_append, toBE_length] at hlt
  omega

/-- A `Publish` in version 2: two messages, one of them with a filter value. -/
def filteredPublish : Request :=
  .ofCommand (.publish
    { publisherId := 3
      publishedMessages :=
        [{ publishingId := 10, message := { message := { body := { data := [[1, 2]] } } },
           filterValue := some "filter" },
         { publishingId := 11, message := { message := { body := { data := [[3]] } } } }]
      version := protocolVersion2 })

/-- The rule at a `Publish` in version 2, written behind one byte. -/
theorem request_encode_length_filteredPublish :
    ∃ body, ((encode filteredPublish).exec [7]).2 =
        [7] ++ toBE 4 (encodedSize filteredPublish).toNat ++ body ∧
      body.length = (encodedSize filteredPublish).toNat := by
  refine request_encode_length filteredPublish ?_ [7] _ rfl (by decide +kernel)
  intro m hm
  simp only [filteredPublish, Request.ofCommand, RequestKind.messages, List.map_cons,
    List.map_nil, List.mem_cons, List.not_mem_nil, or_false] at hm
  rcases hm with rfl | rfl
  · decide
  · decide

end RabbitMqStream.Protocol
