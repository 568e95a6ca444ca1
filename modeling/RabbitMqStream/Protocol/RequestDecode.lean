/-
# The decoders of the requests

`Request::decode` and the decoders of the 25 commands, in the order of `request/mod.rs`.  The
client sends requests and never decodes one; the decoders are there for the tests of the
protocol crate, and for a program that plays the broker.

Three things to keep in mind when reading them next to the encoders:

* A string that a command needs is decoded as an `Option<String>` and unwrapped when the command
  is built.  The length 0 is an absent string, so an empty string is unwrapped as `None`.
* `PublishCommand::decode` reads the messages in the layout of version 1, whatever version the
  header has, and sets the version to 1.
* `Header::decode` masks the response bit out of the key.  The key of a consumer update request
  has that bit set, and is compared with the masked key.
-/
import RabbitMqStream.Protocol.Response

namespace RabbitMqStream.Protocol

open Wire

/-! ## 1. Commands

In the order of the encoders.  A decoder reads the fields one after another and builds the
command at the end; that is where an absent string is unwrapped. -/

instance : Decoder OpenCommand where
  decode := do
    let correlationId ← decode
    let virtualHost ← decode
    let virtualHost ← unwrap virtualHost
    pure ⟨correlationId, virtualHost⟩

instance [Allocator] : Decoder PeerPropertiesCommand where
  decode := do
    let correlationId ← decode
    let clientProperties ← decode
    pure ⟨correlationId, clientProperties⟩

instance : Decoder SaslHandshakeCommand where
  decode := do
    let correlationId ← decode
    pure ⟨correlationId⟩

instance : Decoder SaslAuthenticateCommand where
  decode := do
    let correlationId ← decode
    let mechanism ← decode
    let saslData ← decode
    let mechanism ← unwrap mechanism
    pure ⟨correlationId, mechanism, saslData⟩

instance : Decoder Delete where
  decode := do
    let correlationId ← decode
    let stream ← decode
    let stream ← unwrap stream
    pure ⟨correlationId, stream⟩

instance [Allocator] : Decoder CreateStreamCommand where
  decode := do
    let correlationId ← decode
    let streamName ← decode
    let args ← decode
    let streamName ← unwrap streamName
    pure ⟨correlationId, streamName, args⟩

instance : Decoder MetadataCommand where
  decode := do
    let correlationId ← decode
    let streams ← decode
    pure ⟨correlationId, streams⟩

instance : Decoder CloseRequest where
  decode := do
    let correlationId ← decode
    let closingCode ← decode
    let closingReason ← decode
    let closingReason ← unwrap closingReason
    pure ⟨correlationId, closingCode, closingReason⟩

instance : Decoder CreditCommand where
  decode := do
    let subscriptionId ← decode
    let credit ← decode
    pure ⟨subscriptionId, credit⟩

instance : Decoder DeclarePublisherCommand where
  decode := do
    let correlationId ← decode
    let publisherId ← decode
    let publisherReference ← decode
    let streamName ← decode
    let streamName ← unwrap streamName
    pure ⟨correlationId, publisherId, publisherReference, streamName⟩

instance : Decoder DeletePublisherCommand where
  decode := do
    let correlationId ← decode
    let publisherId ← decode
    pure ⟨correlationId, publisherId⟩

instance : Decoder HeartBeatCommand := ⟨pure ⟨⟩⟩

instance [Amqp.Chrono] [Allocator] : Decoder PublishCommand where
  decode := do
    let publisherId ← decode
    let publishedMessages ← decode
    pure ⟨publisherId, publishedMessages, 1⟩

/-- `match reference.len() { 0..=255 => .., size => Err(MismatchSize(size)) }`. -/
def withReference {α : Type} (reference : String) (next : DecodeM α) : DecodeM α :=
  if (asBytes reference).length ≤ 255 then next
  else throw (.error (.mismatchSize (asBytes reference).length))

instance : Decoder QueryOffsetRequest where
  decode := do
    let correlationId ← decode
    let optReference ← (decode : DecodeM (Option String))
    match optReference with
    | some reference => withReference reference do
      let optStream ← decode
      let stream ← unwrap optStream
      pure ⟨correlationId, reference, stream⟩
    | none => throw (.error .empty)

instance : Decoder QueryPublisherRequest where
  decode := do
    let correlationId ← decode
    let optReference ← (decode : DecodeM (Option String))
    match optReference with
    | some publisherReference => withReference publisherReference do
      let optStream ← decode
      let stream ← unwrap optStream
      pure ⟨correlationId, publisherReference, stream⟩
    | none => throw (.error .empty)

instance : Decoder StoreOffset where
  decode := do
    let optReference ← (decode : DecodeM (Option String))
    let optStream ← (decode : DecodeM (Option String))
    match optReference, optStream with
    | some reference, some stream => withReference reference do
      let offset ← decode
      pure ⟨reference, stream, offset⟩
    | _, _ => throw (.error .empty)

instance : Decoder OffsetSpecification where
  decode := do
    let offsetType ← (decode : DecodeM UInt16)
    match offsetType.toNat with
    | 1 => pure .first
    | 2 => pure .last
    | 3 => pure .next
    | 4 => do
      let offset ← decode
      pure (.offset offset)
    | 5 => do
      let timestamp ← decode
      pure (.timestamp timestamp)
    | _ => throw (.panic .offsetTypeNotSupported)

instance [Allocator] : Decoder SubscribeCommand where
  decode := do
    let correlationId ← decode
    let subscriptionId ← decode
    let streamName ← decode
    let offsetSpecification ← decode
    let credit ← decode
    let properties ← decode
    let streamName ← unwrap streamName
    pure ⟨correlationId, subscriptionId, streamName, offsetSpecification, credit, properties⟩

instance : Decoder UnSubscribeCommand where
  decode := do
    let correlationId ← decode
    let subscriptionId ← decode
    pure ⟨correlationId, subscriptionId⟩

instance [Allocator] : Decoder ExchangeCommandVersionsRequest where
  decode := do
    let correlationId ← decode
    let commands ← readVec
    pure ⟨correlationId, commands⟩

instance [Allocator] : Decoder CreateSuperStreamCommand where
  decode := do
    let correlationId ← decode
    let superStreamName ← decode
    let partitions ← decode
    let bindingKeys ← decode
    let args ← decode
    let superStreamName ← unwrap superStreamName
    pure ⟨correlationId, superStreamName, partitions, bindingKeys, args⟩

instance : Decoder DeleteSuperStreamCommand where
  decode := do
    let correlationId ← decode
    let superStreamName ← decode
    let superStreamName ← unwrap superStreamName
    pure ⟨correlationId, superStreamName⟩

instance : Decoder SuperStreamPartitionsRequest where
  decode := do
    let correlationId ← decode
    let superStream ← decode
    let superStream ← unwrap superStream
    pure ⟨correlationId, superStream⟩

instance : Decoder SuperStreamRouteRequest where
  decode := do
    let correlationId ← decode
    let routingKey ← decode
    let superStream ← decode
    let routingKey ← unwrap routingKey
    let superStream ← unwrap superStream
    pure ⟨correlationId, routingKey, superStream⟩

instance : Decoder ConsumerUpdateRequestCommand where
  decode := do
    let correlationId ← decode
    let responseCode ← decode
    let offsetSpecification ← decode
    pure ⟨correlationId, responseCode, offsetSpecification⟩

/-! ## 2. Requests -/

/-- `T::decode(input).map(|(i, kind)| (i, kind.into()))`. -/
def decodeRequestAs {α : Type} [Decoder α] (variant : α → RequestKind) : DecodeM RequestKind := do
  let kind ← decode
  pure (variant kind)

/-- The `match header.key()` of `Request::decode`. -/
def decodeRequestKind [Amqp.Chrono] [Allocator] (key : UInt16) : DecodeM RequestKind :=
  match key.toNat with
  | 21 => decodeRequestAs .open
  | 17 => decodeRequestAs .peerProperties
  | 18 => decodeRequestAs .saslHandshake
  | 19 => decodeRequestAs .saslAuthenticate
  | 20 => decodeRequestAs .tunes
  | 14 => decodeRequestAs .delete
  | 13 => decodeRequestAs .createStream
  | 15 => decodeRequestAs .metadata
  | 22 => decodeRequestAs .close
  | 9 => decodeRequestAs .credit
  | 1 => decodeRequestAs .declarePublisher
  | 6 => decodeRequestAs .deletePublisher
  | 23 => decodeRequestAs .heartbeat
  | 2 => decodeRequestAs .publish
  | 11 => decodeRequestAs .queryOffset
  | 5 => decodeRequestAs .queryPublisherSequence
  | 10 => decodeRequestAs .storeOffset
  | 7 => decodeRequestAs .subscribe
  | 12 => decodeRequestAs .unsubscribe
  | 27 => decodeRequestAs .exchangeCommandVersions
  | 29 => decodeRequestAs .createSuperStream
  | 30 => decodeRequestAs .deleteSuperStream
  | 25 => decodeRequestAs .superStreamPartitions
  | 24 => decodeRequestAs .superStreamRoute
  | 32794 => decodeRequestAs .consumerUpdateRequest
  | _ => throw (.error (.unsupportedResponseType key))

instance [Amqp.Chrono] [Allocator] : Decoder Request where
  decode := do
    let _ ← (readU32 : DecodeM UInt32)
    let header ← (decode : DecodeM Header)
    let cmd ← decodeRequestKind header.key
    pure ⟨header, cmd⟩

end RabbitMqStream.Protocol
