/-
# Responses

The 19 bodies a broker sends, their decoders, and the decoder of a frame (`response/mod.rs` and
the files of `commands/`).

A frame starts with its length, which `Response::decode` reads and drops.  What is consumed is
decided by the body alone: the header's key, with the response bit masked out, chooses the body
decoder, and each body is as long as its own counts and string lengths say.

Where a body needs a string that the frame gives as absent, the decoder unwraps the `None` when
it builds the record, that is after all the fields of the record have been read.
-/
import RabbitMqStream.Protocol.Request

namespace RabbitMqStream.Protocol

open Wire

/-! ## 1. The bodies

A record and a decoder for each body.  A body that has a string in it which must be there is
decoded as a whole before the string is looked at. -/

structure OpenResponse : Type where
  correlationId : UInt32
  code : ResponseCode
  connectionProperties : HashMap String String
  deriving DecidableEq

/-- The properties are there only when the code is `Ok`. -/
instance [Allocator] : Decoder OpenResponse where
  decode := do
    let correlationId ← decode
    let code ← decode
    let connectionProperties ← (if code = ResponseCode.ok then decode else pure HashMap.empty)
    pure ⟨correlationId, code, connectionProperties⟩

structure CloseResponse : Type where
  correlationId : UInt32
  responseCode : ResponseCode
  deriving DecidableEq

instance : Decoder CloseResponse where
  decode := do
    let correlationId ← decode
    let responseCode ← decode
    pure ⟨correlationId, responseCode⟩

structure PeerPropertiesResponse : Type where
  correlationId : UInt32
  code : ResponseCode
  serverProperties : HashMap String String
  deriving DecidableEq

instance [Allocator] : Decoder PeerPropertiesResponse where
  decode := do
    let correlationId ← decode
    let code ← decode
    let serverProperties ← decode
    pure ⟨correlationId, code, serverProperties⟩

structure SaslHandshakeResponse : Type where
  correlationId : UInt32
  code : ResponseCode
  mechanisms : List String
  deriving DecidableEq

instance : Decoder SaslHandshakeResponse where
  decode := do
    let correlationId ← decode
    let code ← decode
    let mechanisms ← decode
    pure ⟨correlationId, code, mechanisms⟩

structure GenericResponse : Type where
  correlationId : UInt32
  code : ResponseCode
  deriving DecidableEq

instance : Decoder GenericResponse where
  decode := do
    let correlationId ← decode
    let code ← decode
    pure ⟨correlationId, code⟩

instance : Decoder TunesCommand where
  decode := do
    let maxFrameSize ← decode
    let heartbeat ← decode
    pure ⟨maxFrameSize, heartbeat⟩

structure DeliverCommand : Type where
  subscriptionId : UInt8
  magicVersion : Int8
  chunkType : UInt8
  numEntries : UInt16
  timestamp : UInt64
  epoch : UInt64
  chunkFirstOffset : UInt64
  chunkCrc : Int32
  trailerLength : UInt32
  reserved : UInt32
  messages : List Message
  deriving DecidableEq

/-- One round of the loop over the records: the bytes of a message, and the message in them. -/
def readRecord [Amqp.Chrono] [Allocator] : DecodeM Message := do
  let result ← (readVec : DecodeM (List UInt8))
  decodeBody result

instance [Amqp.Chrono] [Allocator] : Decoder DeliverCommand where
  decode := do
    let subscriptionId ← decode
    let magicVersion ← decode
    let chunkType ← decode
    let numEntries ← decode
    let numRecords ← (decode : DecodeM UInt32)
    let timestamp ← decode
    let epoch ← decode
    let chunkFirstOffset ← decode
    let chunkCrc ← decode
    let _dataLength ← (decode : DecodeM UInt32)
    let trailerLength ← decode
    let reserved ← decode
    withCapacity (List Message) numRecords.toNat
    let messages ← pushLoop readRecord numRecords.toNat
    pure ⟨subscriptionId, magicVersion, chunkType, numEntries, timestamp, epoch,
      chunkFirstOffset, chunkCrc, trailerLength, reserved, messages⟩

structure HeartbeatResponse : Type where
  deriving DecidableEq

instance : Decoder HeartbeatResponse := ⟨pure ⟨⟩⟩

structure Broker : Type where
  reference : UInt16
  host : String
  port : UInt32
  deriving DecidableEq

instance : Decoder Broker where
  decode := do
    let reference ← decode
    let host ← decode
    let port ← decode
    let host ← unwrap host
    pure ⟨reference, host, port⟩

structure StreamMetadata : Type where
  streamName : String
  code : ResponseCode
  leaderReference : UInt16
  replicasReferences : List UInt16
  deriving DecidableEq

instance [Allocator] : Decoder StreamMetadata where
  decode := do
    let streamName ← decode
    let code ← decode
    let leaderReference ← decode
    let replicasReferences ← decode
    let streamName ← unwrap streamName
    pure ⟨streamName, code, leaderReference, replicasReferences⟩

structure MetadataResponse : Type where
  correlationId : UInt32
  brokers : List Broker
  streamMetadata : List StreamMetadata
  deriving DecidableEq

instance [Allocator] : Decoder MetadataResponse where
  decode := do
    let correlationId ← decode
    let brokers ← readVec
    let streamMetadata ← readVec
    pure ⟨correlationId, brokers, streamMetadata⟩

structure MetadataUpdateCommand : Type where
  code : ResponseCode
  stream : String
  deriving DecidableEq

instance : Decoder MetadataUpdateCommand where
  decode := do
    let code ← decode
    let stream ← decode
    let stream ← unwrap stream
    pure ⟨code, stream⟩

structure PublishConfirm : Type where
  publisherId : UInt8
  publishingIds : List UInt64
  deriving DecidableEq

instance [Allocator] : Decoder PublishConfirm where
  decode := do
    let publisherId ← decode
    let publishingIds ← decode
    pure ⟨publisherId, publishingIds⟩

structure PublishErrorResponse : Type where
  publisherId : UInt8
  publishingErrors : List PublishingError
  deriving DecidableEq

instance : Decoder PublishErrorResponse where
  decode := do
    let publisherId ← decode
    let publishingErrors ← decode
    pure ⟨publisherId, publishingErrors⟩

structure QueryOffsetResponse : Type where
  correlationId : UInt32
  responseCode : ResponseCode
  offset : UInt64
  deriving DecidableEq

instance : Decoder QueryOffsetResponse where
  decode := do
    let correlationId ← decode
    let responseCode ← decode
    let offset ← decode
    pure ⟨correlationId, responseCode, offset⟩

structure QueryPublisherResponse : Type where
  correlationId : UInt32
  responseCode : ResponseCode
  sequence : UInt64
  deriving DecidableEq

instance : Decoder QueryPublisherResponse where
  decode := do
    let correlationId ← decode
    let responseCode ← decode
    let sequence ← decode
    pure ⟨correlationId, responseCode, sequence⟩

structure CreditResponse : Type where
  code : ResponseCode
  subscriptionId : UInt8
  deriving DecidableEq

instance : Decoder CreditResponse where
  decode := do
    let code ← decode
    let subscriptionId ← decode
    pure ⟨code, subscriptionId⟩

instance : Decoder ExchangeCommandVersion where
  decode := do
    let key ← decode
    let minVersion ← decode
    let maxVersion ← decode
    pure ⟨key, minVersion, maxVersion⟩

structure ExchangeCommandVersionsResponse : Type where
  correlationId : UInt32
  responseCode : ResponseCode
  commands : List ExchangeCommandVersion
  deriving DecidableEq

instance [Allocator] : Decoder ExchangeCommandVersionsResponse where
  decode := do
    let correlationId ← decode
    let responseCode ← decode
    let commands ← readVec
    pure ⟨correlationId, responseCode, commands⟩

structure SuperStreamPartitionsResponse : Type where
  correlationId : UInt32
  responseCode : ResponseCode
  streams : List String
  deriving DecidableEq

instance : Decoder SuperStreamPartitionsResponse where
  decode := do
    let correlationId ← decode
    let responseCode ← decode
    let streams ← decode
    pure ⟨correlationId, responseCode, streams⟩

structure SuperStreamRouteResponse : Type where
  correlationId : UInt32
  responseCode : ResponseCode
  streams : List String
  deriving DecidableEq

instance : Decoder SuperStreamRouteResponse where
  decode := do
    let correlationId ← decode
    let responseCode ← decode
    let streams ← decode
    pure ⟨correlationId, responseCode, streams⟩

structure ConsumerUpdateCommand : Type where
  correlationId : UInt32
  subscriptionId : UInt8
  active : UInt8
  deriving DecidableEq

instance : Decoder ConsumerUpdateCommand where
  decode := do
    let correlationId ← decode
    let subscriptionId ← decode
    let active ← decode
    pure ⟨correlationId, subscriptionId, active⟩

/-! ## 2. Frames

The key of a frame chooses the decoder.  A key that is none of those in the table is an error. -/

inductive ResponseKind : Type where
  | «open» (cmd : OpenResponse)
  | close (cmd : CloseResponse)
  | peerProperties (cmd : PeerPropertiesResponse)
  | saslHandshake (cmd : SaslHandshakeResponse)
  | generic (cmd : GenericResponse)
  | tunes (cmd : TunesCommand)
  | deliver (cmd : DeliverCommand)
  | heartbeat (cmd : HeartbeatResponse)
  | metadata (cmd : MetadataResponse)
  | metadataUpdate (cmd : MetadataUpdateCommand)
  | publishConfirm (cmd : PublishConfirm)
  | publishError (cmd : PublishErrorResponse)
  | queryOffset (cmd : QueryOffsetResponse)
  | queryPublisherSequence (cmd : QueryPublisherResponse)
  | credit (cmd : CreditResponse)
  | exchangeCommandVersions (cmd : ExchangeCommandVersionsResponse)
  | superStreamPartitions (cmd : SuperStreamPartitionsResponse)
  | superStreamRoute (cmd : SuperStreamRouteResponse)
  | consumerUpdate (cmd : ConsumerUpdateCommand)
  | consumerUpdateRequest (cmd : ConsumerUpdateRequestCommand)
  deriving DecidableEq

structure Response : Type where
  header : Header
  kind : ResponseKind
  deriving DecidableEq

/-- `Response::correlation_id`. -/
def Response.correlationId (r : Response) : Option UInt32 :=
  match r.kind with
  | .open cmd => some cmd.correlationId
  | .close cmd => some cmd.correlationId
  | .peerProperties cmd => some cmd.correlationId
  | .saslHandshake cmd => some cmd.correlationId
  | .generic cmd => some cmd.correlationId
  | .metadata cmd => some cmd.correlationId
  | .queryOffset cmd => some cmd.correlationId
  | .queryPublisherSequence cmd => some cmd.correlationId
  | .metadataUpdate _ => none
  | .publishConfirm _ => none
  | .publishError _ => none
  | .tunes _ => none
  | .heartbeat _ => none
  | .deliver _ => none
  | .credit _ => none
  | .exchangeCommandVersions cmd => some cmd.correlationId
  | .superStreamPartitions cmd => some cmd.correlationId
  | .superStreamRoute cmd => some cmd.correlationId
  | .consumerUpdate cmd => some cmd.correlationId
  | .consumerUpdateRequest cmd => some cmd.correlationId

/-- `T::decode(input).map(|(i, kind)| (i, variant(kind)))`. -/
def decodeAs {α : Type} [Decoder α] (variant : α → ResponseKind) : DecodeM ResponseKind := do
  let kind ← decode
  pure (variant kind)

/-- The `match header.key()` of `Response::decode`, with the numbers of `protocol.rs`.  The key
32794 of `COMMAND_CONSUMER_UPDATE_REQUEST` is listed there too, but no masked key equals it. -/
def decodeKind [Amqp.Chrono] [Allocator] (key : UInt16) : DecodeM ResponseKind :=
  match key.toNat with
  | 21 => decodeAs .open
  | 22 => decodeAs .close
  | 17 => decodeAs .peerProperties
  | 18 => decodeAs .saslHandshake
  | 1 | 6 | 19 | 7 | 12 | 13 | 29 | 30 | 32794 | 14 => decodeAs .generic
  | 20 => decodeAs .tunes
  | 8 => decodeAs .deliver
  | 23 => decodeAs .heartbeat
  | 15 => decodeAs .metadata
  | 16 => decodeAs .metadataUpdate
  | 3 => decodeAs .publishConfirm
  | 4 => decodeAs .publishError
  | 11 => decodeAs .queryOffset
  | 9 => decodeAs .credit
  | 5 => decodeAs .queryPublisherSequence
  | 27 => decodeAs .exchangeCommandVersions
  | 25 => decodeAs .superStreamPartitions
  | 24 => decodeAs .superStreamRoute
  | 26 => decodeAs .consumerUpdate
  | _ => throw (.error (.unsupportedResponseType key))

instance [Amqp.Chrono] [Allocator] : Decoder Response where
  decode := do
    let _ ← (readU32 : DecodeM UInt32)
    let header ← (decode : DecodeM Header)
    let kind ← decodeKind header.key
    pure ⟨header, kind⟩

end RabbitMqStream.Protocol
