/-
# Requests: the commands the client sends

The 25 commands of `request/mod.rs` with the fields of `commands/*.rs`, their encoders and
their size functions.  A frame is its length, the header (key and version) and the command.

Three commands check the length of a reference before they write anything of their own
(`QueryOffsetRequest`, `QueryPublisherRequest`, `StoreOffset`); by then the length and the
header of the frame are in the buffer already.
-/
import RabbitMqStream.Protocol.Codec

namespace RabbitMqStream.Protocol

open Wire

/-! ## 1. Commands

A record for each command, and its encoder and its size side by side, since their agreement is
what is to be shown. -/

structure PeerPropertiesCommand : Type where
  correlationId : UInt32
  clientProperties : HashMap String String
  deriving DecidableEq

instance : Encoder PeerPropertiesCommand where
  encodedSize c := encodedSize c.correlationId + encodedSize c.clientProperties
  encode c := do
    encode c.correlationId
    encode c.clientProperties

structure SaslHandshakeCommand : Type where
  correlationId : UInt32
  deriving DecidableEq

instance : Encoder SaslHandshakeCommand where
  encodedSize c := encodedSize c.correlationId
  encode c := encode c.correlationId

structure SaslAuthenticateCommand : Type where
  correlationId : UInt32
  mechanism : String
  saslData : Bytes
  deriving DecidableEq

instance : Encoder SaslAuthenticateCommand where
  encodedSize c := encodedSize c.correlationId + encodedSize c.mechanism + encodedSize c.saslData
  encode c := do
    encode c.correlationId
    encode c.mechanism
    encode c.saslData

structure TunesCommand : Type where
  maxFrameSize : UInt32
  heartbeat : UInt32
  deriving DecidableEq

instance : Encoder TunesCommand where
  encodedSize c := encodedSize c.heartbeat + encodedSize c.maxFrameSize
  encode c := do
    encode c.maxFrameSize
    encode c.heartbeat

structure OpenCommand : Type where
  correlationId : UInt32
  virtualHost : String
  deriving DecidableEq

instance : Encoder OpenCommand where
  encodedSize c := encodedSize c.correlationId + encodedSize c.virtualHost
  encode c := do
    encode c.correlationId
    encode c.virtualHost

structure CloseRequest : Type where
  correlationId : UInt32
  closingCode : ResponseCode
  closingReason : String
  deriving DecidableEq

instance : Encoder CloseRequest where
  encodedSize c :=
    encodedSize c.correlationId + encodedSize c.closingCode + encodedSize c.closingReason
  encode c := do
    encode c.correlationId
    encode c.closingCode
    encode c.closingReason

structure Delete : Type where
  correlationId : UInt32
  stream : String
  deriving DecidableEq

instance : Encoder Delete where
  encodedSize c := encodedSize c.correlationId + encodedSize c.stream
  encode c := do
    encode c.correlationId
    encode c.stream

structure CreateStreamCommand : Type where
  correlationId : UInt32
  streamName : String
  args : HashMap String String
  deriving DecidableEq

instance : Encoder CreateStreamCommand where
  encodedSize c := encodedSize c.correlationId + encodedSize c.streamName + encodedSize c.args
  encode c := do
    encode c.correlationId
    encode c.streamName
    encode c.args

inductive OffsetSpecification : Type where
  | first
  | last
  | next
  | offset (offset : UInt64)
  | timestamp (timestamp : Int64)
  deriving DecidableEq

/-- `OffsetSpecification::get_type`. -/
def OffsetSpecification.getType : OffsetSpecification → UInt16
  | .first => 1
  | .last => 2
  | .next => 3
  | .offset _ => 4
  | .timestamp _ => 5

instance : Encoder OffsetSpecification where
  encodedSize s := encodedSize s.getType + match s with
    | .offset offset => encodedSize offset
    | .timestamp timestamp => encodedSize timestamp
    | _ => 0
  encode s := do
    encode s.getType
    match s with
      | .offset offset => encode offset
      | .timestamp timestamp => encode timestamp
      | _ => pure ()

structure SubscribeCommand : Type where
  correlationId : UInt32
  subscriptionId : UInt8
  streamName : String
  offsetSpecification : OffsetSpecification
  credit : UInt16
  properties : HashMap String String
  deriving DecidableEq

instance : Encoder SubscribeCommand where
  encodedSize c :=
    encodedSize c.correlationId + encodedSize c.subscriptionId + encodedSize c.streamName +
      encodedSize c.offsetSpecification + encodedSize c.credit + encodedSize c.properties
  encode c := do
    encode c.correlationId
    encode c.subscriptionId
    encode c.streamName
    encode c.offsetSpecification
    encode c.credit
    encode c.properties

structure CreditCommand : Type where
  subscriptionId : UInt8
  credit : UInt16
  deriving DecidableEq

instance : Encoder CreditCommand where
  encodedSize c := encodedSize c.subscriptionId + encodedSize c.credit
  encode c := do
    encode c.subscriptionId
    encode c.credit

structure MetadataCommand : Type where
  correlationId : UInt32
  streams : List String
  deriving DecidableEq

instance : Encoder MetadataCommand where
  encodedSize c := encodedSize c.correlationId + encodedSize c.streams
  encode c := do
    encode c.correlationId
    encode c.streams

structure DeclarePublisherCommand : Type where
  correlationId : UInt32
  publisherId : UInt8
  publisherReference : Option String
  streamName : String
  deriving DecidableEq

instance : Encoder DeclarePublisherCommand where
  encodedSize c :=
    encodedSize c.correlationId + encodedSize c.publisherId +
      encodedSize c.publisherReference + encodedSize c.streamName
  encode c := do
    encode c.correlationId
    encode c.publisherId
    encode c.publisherReference
    encode c.streamName

structure DeletePublisherCommand : Type where
  correlationId : UInt32
  publisherId : UInt8
  deriving DecidableEq

instance : Encoder DeletePublisherCommand where
  encodedSize c := encodedSize c.correlationId + encodedSize c.publisherId
  encode c := do
    encode c.correlationId
    encode c.publisherId

structure HeartBeatCommand : Type where
  deriving DecidableEq

instance : Encoder HeartBeatCommand := ⟨fun _ => 0, fun _ => pure ()⟩

structure PublishCommand : Type where
  publisherId : UInt8
  publishedMessages : List PublishedMessage
  version : UInt16
  deriving DecidableEq

/-- `PROTOCOL_VERSION` and `PROTOCOL_VERSION_2`. -/
def protocolVersion : UInt16 := 1
def protocolVersion2 : UInt16 := 2

instance : Encoder PublishCommand where
  encodedSize c :=
    if c.version = protocolVersion2 then
      encodedSize c.publisherId + encodedSizeVersion2 c.publishedMessages
    else encodedSize c.publisherId + encodedSize c.publishedMessages
  encode c := do
    encode c.publisherId
    if c.version = protocolVersion2 then encodeVersion2 c.publishedMessages
    else encode c.publishedMessages

/-- `if size >= 256 { return Err(EncodeError::MaxSizeError(size)) }`. -/
def checkReference (reference : String) : Writer :=
  if 256 ≤ (asBytes reference).length then
    throw (.maxSizeError (asBytes reference).length)
  else pure ()

structure QueryOffsetRequest : Type where
  correlationId : UInt32
  reference : String
  stream : String
  deriving DecidableEq

instance : Encoder QueryOffsetRequest where
  encodedSize c := encodedSize c.correlationId + encodedSize c.stream + encodedSize c.reference
  encode c := do
    checkReference c.reference
    encode c.correlationId
    encode c.reference
    encode c.stream

structure QueryPublisherRequest : Type where
  correlationId : UInt32
  publisherReference : String
  stream : String
  deriving DecidableEq

instance : Encoder QueryPublisherRequest where
  encodedSize c :=
    encodedSize c.correlationId + encodedSize c.stream + encodedSize c.publisherReference
  encode c := do
    checkReference c.publisherReference
    encode c.correlationId
    encode c.publisherReference
    encode c.stream

structure StoreOffset : Type where
  reference : String
  stream : String
  offset : UInt64
  deriving DecidableEq

instance : Encoder StoreOffset where
  encodedSize c := encodedSize c.reference + encodedSize c.stream + encodedSize c.offset
  encode c := do
    checkReference c.reference
    encode c.reference
    encode c.stream
    encode c.offset

structure UnSubscribeCommand : Type where
  correlationId : UInt32
  subscriptionId : UInt8
  deriving DecidableEq

instance : Encoder UnSubscribeCommand where
  encodedSize c := encodedSize c.correlationId + encodedSize c.subscriptionId
  encode c := do
    encode c.correlationId
    encode c.subscriptionId

/-- `ExchangeCommandVersion(key, min_version, max_version)`. -/
structure ExchangeCommandVersion : Type where
  key : UInt16
  minVersion : UInt16
  maxVersion : UInt16
  deriving DecidableEq

instance : Encoder ExchangeCommandVersion where
  encodedSize v := encodedSize v.key + encodedSize v.minVersion + encodedSize v.maxVersion
  encode v := do
    encode v.key
    encode v.minVersion
    encode v.maxVersion

instance : Encoder (List ExchangeCommandVersion) := ⟨vecSize, encodeVec⟩

structure ExchangeCommandVersionsRequest : Type where
  correlationId : UInt32
  commands : List ExchangeCommandVersion
  deriving DecidableEq

instance : Encoder ExchangeCommandVersionsRequest where
  encodedSize c := encodedSize c.correlationId + encodedSize c.commands
  encode c := do
    encode c.correlationId
    encode c.commands

structure CreateSuperStreamCommand : Type where
  correlationId : UInt32
  superStreamName : String
  partitions : List String
  bindingKeys : List String
  args : HashMap String String
  deriving DecidableEq

instance : Encoder CreateSuperStreamCommand where
  encodedSize c :=
    encodedSize c.correlationId + encodedSize c.superStreamName + encodedSize c.partitions +
      encodedSize c.bindingKeys + encodedSize c.args
  encode c := do
    encode c.correlationId
    encode c.superStreamName
    encode c.partitions
    encode c.bindingKeys
    encode c.args

structure DeleteSuperStreamCommand : Type where
  correlationId : UInt32
  superStreamName : String
  deriving DecidableEq

instance : Encoder DeleteSuperStreamCommand where
  encodedSize c := encodedSize c.correlationId + encodedSize c.superStreamName
  encode c := do
    encode c.correlationId
    encode c.superStreamName

structure SuperStreamPartitionsRequest : Type where
  correlationId : UInt32
  superStream : String
  deriving DecidableEq

instance : Encoder SuperStreamPartitionsRequest where
  encodedSize c := encodedSize c.correlationId + encodedSize c.superStream
  encode c := do
    encode c.correlationId
    encode c.superStream

structure SuperStreamRouteRequest : Type where
  correlationId : UInt32
  routingKey : String
  superStream : String
  deriving DecidableEq

instance : Encoder SuperStreamRouteRequest where
  encodedSize c :=
    encodedSize c.correlationId + encodedSize c.routingKey + encodedSize c.superStream
  encode c := do
    encode c.correlationId
    encode c.routingKey
    encode c.superStream

structure ConsumerUpdateRequestCommand : Type where
  correlationId : UInt32
  responseCode : UInt16
  offsetSpecification : OffsetSpecification
  deriving DecidableEq

instance : Encoder ConsumerUpdateRequestCommand where
  encodedSize c :=
    encodedSize c.correlationId + encodedSize c.responseCode +
      encodedSize c.offsetSpecification
  encode c := do
    encode c.correlationId
    encode c.responseCode
    encode c.offsetSpecification

/-! ## 2. Requests

The sum of the commands.  The key and the version of a command stand in the header of its frame. -/

inductive RequestKind : Type where
  | peerProperties (cmd : PeerPropertiesCommand)
  | saslHandshake (cmd : SaslHandshakeCommand)
  | saslAuthenticate (cmd : SaslAuthenticateCommand)
  | tunes (cmd : TunesCommand)
  | «open» (cmd : OpenCommand)
  | close (cmd : CloseRequest)
  | delete (cmd : Delete)
  | createStream (cmd : CreateStreamCommand)
  | subscribe (cmd : SubscribeCommand)
  | credit (cmd : CreditCommand)
  | metadata (cmd : MetadataCommand)
  | declarePublisher (cmd : DeclarePublisherCommand)
  | deletePublisher (cmd : DeletePublisherCommand)
  | heartbeat (cmd : HeartBeatCommand)
  | publish (cmd : PublishCommand)
  | queryOffset (cmd : QueryOffsetRequest)
  | queryPublisherSequence (cmd : QueryPublisherRequest)
  | storeOffset (cmd : StoreOffset)
  | unsubscribe (cmd : UnSubscribeCommand)
  | exchangeCommandVersions (cmd : ExchangeCommandVersionsRequest)
  | createSuperStream (cmd : CreateSuperStreamCommand)
  | deleteSuperStream (cmd : DeleteSuperStreamCommand)
  | superStreamPartitions (cmd : SuperStreamPartitionsRequest)
  | superStreamRoute (cmd : SuperStreamRouteRequest)
  | consumerUpdateRequest (cmd : ConsumerUpdateRequestCommand)
  deriving DecidableEq

instance : Encoder RequestKind where
  encodedSize
    | .peerProperties cmd => encodedSize cmd
    | .saslHandshake cmd => encodedSize cmd
    | .saslAuthenticate cmd => encodedSize cmd
    | .tunes cmd => encodedSize cmd
    | .open cmd => encodedSize cmd
    | .close cmd => encodedSize cmd
    | .delete cmd => encodedSize cmd
    | .createStream cmd => encodedSize cmd
    | .subscribe cmd => encodedSize cmd
    | .credit cmd => encodedSize cmd
    | .metadata cmd => encodedSize cmd
    | .declarePublisher cmd => encodedSize cmd
    | .deletePublisher cmd => encodedSize cmd
    | .heartbeat cmd => encodedSize cmd
    | .publish cmd => encodedSize cmd
    | .queryOffset cmd => encodedSize cmd
    | .queryPublisherSequence cmd => encodedSize cmd
    | .storeOffset cmd => encodedSize cmd
    | .unsubscribe cmd => encodedSize cmd
    | .exchangeCommandVersions cmd => encodedSize cmd
    | .createSuperStream cmd => encodedSize cmd
    | .deleteSuperStream cmd => encodedSize cmd
    | .superStreamPartitions cmd => encodedSize cmd
    | .superStreamRoute cmd => encodedSize cmd
    | .consumerUpdateRequest cmd => encodedSize cmd
  encode
    | .peerProperties cmd => encode cmd
    | .saslHandshake cmd => encode cmd
    | .saslAuthenticate cmd => encode cmd
    | .tunes cmd => encode cmd
    | .open cmd => encode cmd
    | .close cmd => encode cmd
    | .delete cmd => encode cmd
    | .createStream cmd => encode cmd
    | .subscribe cmd => encode cmd
    | .credit cmd => encode cmd
    | .metadata cmd => encode cmd
    | .declarePublisher cmd => encode cmd
    | .deletePublisher cmd => encode cmd
    | .heartbeat cmd => encode cmd
    | .publish cmd => encode cmd
    | .queryOffset cmd => encode cmd
    | .queryPublisherSequence cmd => encode cmd
    | .storeOffset cmd => encode cmd
    | .unsubscribe cmd => encode cmd
    | .exchangeCommandVersions cmd => encode cmd
    | .createSuperStream cmd => encode cmd
    | .deleteSuperStream cmd => encode cmd
    | .superStreamPartitions cmd => encode cmd
    | .superStreamRoute cmd => encode cmd
    | .consumerUpdateRequest cmd => encode cmd

/-- `Command::key`, with the numbers of `protocol.rs`. -/
def RequestKind.key : RequestKind → UInt16
  | .declarePublisher _ => 1
  | .publish _ => 2
  | .queryPublisherSequence _ => 5
  | .deletePublisher _ => 6
  | .subscribe _ => 7
  | .credit _ => 9
  | .storeOffset _ => 10
  | .queryOffset _ => 11
  | .unsubscribe _ => 12
  | .createStream _ => 13
  | .delete _ => 14
  | .metadata _ => 15
  | .peerProperties _ => 17
  | .saslHandshake _ => 18
  | .saslAuthenticate _ => 19
  | .tunes _ => 20
  | .open _ => 21
  | .close _ => 22
  | .heartbeat _ => 23
  | .superStreamRoute _ => 24
  | .superStreamPartitions _ => 25
  | .exchangeCommandVersions _ => 27
  | .createSuperStream _ => 29
  | .deleteSuperStream _ => 30
  | .consumerUpdateRequest _ => 32794

/-- `Command::version`. -/
def RequestKind.version : RequestKind → UInt16
  | .publish cmd => cmd.version
  | _ => protocolVersion

structure Request : Type where
  header : Header
  kind : RequestKind
  deriving DecidableEq

/-- `From<T> for Request`. -/
def Request.ofCommand (kind : RequestKind) : Request := ⟨⟨kind.key, kind.version⟩, kind⟩

instance : Encoder Request where
  encodedSize r := encodedSize r.header + encodedSize r.kind
  encode r := do
    encode (encodedSize r.header + encodedSize r.kind)
    encode r.header
    encode r.kind

end RabbitMqStream.Protocol
