/-
# The encoders of the responses

A client only decodes responses.  Their encoders are there all the same: 16 of the bodies have one
in the files of `commands/`, and the tests add those of the other three and of a frame, to check
that a response comes back.

**Sizes.**  `encoded_size` of a body is not always the number of its bytes.  It is a constant zero
for six that are not empty, and a `Deliver` counts one byte for the length in front of a message
instead of four.  What is written for it is the length in front of the frame, which the decoder
drops, and the length of the records, which it drops as well.
-/
import RabbitMqStream.Protocol.Response

namespace RabbitMqStream.Protocol

open Wire

/-! ## 1. Fields -/

instance : Encoder Int8 := ⟨fun _ => 1, fun n => WriteM.write (toBE 1 n.toUInt8.toNat)⟩

instance : Encoder Int32 := ⟨fun _ => 4, fun n => WriteM.write (toBE 4 n.toUInt32.toNat)⟩

instance : Encoder (List UInt16) := ⟨vecSize, encodeVec⟩

instance : Encoder (List UInt64) := ⟨vecSize, encodeVec⟩

instance : Encoder PublishingError where
  encodedSize _ := 8 + 2
  encode e := do
    encode e.publishingId
    encode e.errorCode

instance : Encoder (List PublishingError) := ⟨vecSize, encodeVec⟩

/-! ## 2. Bodies

The sizes are copied as they are, wrong ones included.  They are only compared with the encoders
where a statement needs them. -/

/-- The encoder of the tests, which writes the properties whatever the code is. -/
instance : Encoder OpenResponse where
  encodedSize _ := 0
  encode r := do
    encode r.correlationId
    encode r.code
    encode r.connectionProperties

instance : Encoder CloseResponse where
  encodedSize r := encodedSize r.correlationId + encodedSize r.responseCode
  encode r := do
    encode r.correlationId
    encode r.responseCode

/-- The encoder of the tests. -/
instance : Encoder PeerPropertiesResponse where
  encodedSize _ := 0
  encode r := do
    encode r.correlationId
    encode r.code
    encode r.serverProperties

/-- The encoder of the tests. -/
instance : Encoder SaslHandshakeResponse where
  encodedSize _ := 0
  encode r := do
    encode r.correlationId
    encode r.code
    encode r.mechanisms

instance : Encoder GenericResponse where
  encodedSize r := encodedSize r.correlationId + encodedSize r.code
  encode r := do
    encode r.correlationId
    encode r.code

/-- The length of the records as `DeliverCommand` counts it. -/
def DeliverCommand.dataLength (r : DeliverCommand) : UInt32 :=
  r.messages.foldl (fun acc message => acc + 1 + encodedSize message) 0

instance : Encoder DeliverCommand where
  encodedSize r :=
    encodedSize r.subscriptionId + encodedSize r.magicVersion + encodedSize r.chunkType +
      encodedSize r.numEntries + 4 + encodedSize r.timestamp + encodedSize r.epoch +
      encodedSize r.chunkFirstOffset + encodedSize r.chunkCrc + encodedSize r.trailerLength +
      encodedSize r.reserved + 4 + r.dataLength
  encode r := do
    encode r.subscriptionId
    encode r.magicVersion
    encode r.chunkType
    encode r.numEntries
    encode (UInt32.ofNat r.messages.length)
    encode r.timestamp
    encode r.epoch
    encode r.chunkFirstOffset
    encode r.chunkCrc
    encode r.dataLength
    encode r.trailerLength
    encode r.reserved
    WriteM.each (fun message => do
      encode (encodedSize message)
      encode message) r.messages

instance : Encoder HeartbeatResponse := ⟨fun _ => 0, fun _ => pure ()⟩

instance : Encoder Broker where
  encodedSize r := encodedSize r.reference + encodedSize r.port + encodedSize r.host
  encode r := do
    encode r.reference
    encode r.host
    encode r.port

instance : Encoder (List Broker) := ⟨vecSize, encodeVec⟩

instance : Encoder StreamMetadata where
  encodedSize r :=
    encodedSize r.streamName + encodedSize r.code + encodedSize r.leaderReference +
      encodedSize r.replicasReferences
  encode r := do
    encode r.streamName
    encode r.code
    encode r.leaderReference
    encode r.replicasReferences

instance : Encoder (List StreamMetadata) := ⟨vecSize, encodeVec⟩

instance : Encoder MetadataResponse where
  encodedSize _ := 0
  encode r := do
    encode r.correlationId
    encode r.brokers
    encode r.streamMetadata

instance : Encoder MetadataUpdateCommand where
  encodedSize _ := 0
  encode r := do
    encode r.code
    encode r.stream

instance : Encoder PublishConfirm where
  encodedSize r := encodedSize r.publisherId + encodedSize r.publishingIds
  encode r := do
    encode r.publisherId
    encode r.publishingIds

/-- The size counts the publisher id twice. -/
instance : Encoder PublishErrorResponse where
  encodedSize r :=
    encodedSize r.publisherId + encodedSize r.publishingErrors + encodedSize r.publisherId
  encode r := do
    encode r.publisherId
    encode r.publishingErrors

instance : Encoder QueryOffsetResponse where
  encodedSize r := encodedSize r.offset + encodedSize r.correlationId + encodedSize r.responseCode
  encode r := do
    encode r.correlationId
    encode r.responseCode
    encode r.offset

instance : Encoder QueryPublisherResponse where
  encodedSize r :=
    encodedSize r.sequence + encodedSize r.correlationId + encodedSize r.responseCode
  encode r := do
    encode r.correlationId
    encode r.responseCode
    encode r.sequence

instance : Encoder CreditResponse where
  encodedSize _ := 0
  encode r := do
    encode r.code
    encode r.subscriptionId

instance : Encoder ExchangeCommandVersionsResponse where
  encodedSize r :=
    encodedSize r.correlationId + encodedSize r.responseCode + encodedSize r.commands
  encode r := do
    encode r.correlationId
    encode r.responseCode
    encode r.commands

instance : Encoder SuperStreamPartitionsResponse where
  encodedSize r :=
    encodedSize r.correlationId + encodedSize r.responseCode + encodedSize r.streams
  encode r := do
    encode r.correlationId
    encode r.responseCode
    encode r.streams

instance : Encoder SuperStreamRouteResponse where
  encodedSize r :=
    encodedSize r.correlationId + encodedSize r.streams + encodedSize r.responseCode
  encode r := do
    encode r.correlationId
    encode r.responseCode
    encode r.streams

instance : Encoder ConsumerUpdateCommand where
  encodedSize r :=
    encodedSize r.correlationId + encodedSize r.subscriptionId + encodedSize r.active
  encode r := do
    encode r.correlationId
    encode r.subscriptionId
    encode r.active

/-! ## 3. Frames

A frame of the tests: a length, the header and the body.  The length adds 2 to what the header
and the body announce, where that of a request adds nothing. -/

/-- `Encoder for ResponseKind`, of the tests. -/
instance : Encoder ResponseKind where
  encodedSize
    | .open cmd => encodedSize cmd
    | .close cmd => encodedSize cmd
    | .peerProperties cmd => encodedSize cmd
    | .saslHandshake cmd => encodedSize cmd
    | .generic cmd => encodedSize cmd
    | .tunes cmd => encodedSize cmd
    | .heartbeat cmd => encodedSize cmd
    | .deliver cmd => encodedSize cmd
    | .metadata cmd => encodedSize cmd
    | .metadataUpdate cmd => encodedSize cmd
    | .publishConfirm cmd => encodedSize cmd
    | .publishError cmd => encodedSize cmd
    | .queryOffset cmd => encodedSize cmd
    | .queryPublisherSequence cmd => encodedSize cmd
    | .credit cmd => encodedSize cmd
    | .exchangeCommandVersions cmd => encodedSize cmd
    | .superStreamPartitions cmd => encodedSize cmd
    | .superStreamRoute cmd => encodedSize cmd
    | .consumerUpdate cmd => encodedSize cmd
    | .consumerUpdateRequest cmd => encodedSize cmd
  encode
    | .open cmd => encode cmd
    | .close cmd => encode cmd
    | .peerProperties cmd => encode cmd
    | .saslHandshake cmd => encode cmd
    | .generic cmd => encode cmd
    | .tunes cmd => encode cmd
    | .heartbeat cmd => encode cmd
    | .deliver cmd => encode cmd
    | .metadata cmd => encode cmd
    | .metadataUpdate cmd => encode cmd
    | .publishConfirm cmd => encode cmd
    | .publishError cmd => encode cmd
    | .queryOffset cmd => encode cmd
    | .queryPublisherSequence cmd => encode cmd
    | .credit cmd => encode cmd
    | .exchangeCommandVersions cmd => encode cmd
    | .superStreamPartitions cmd => encode cmd
    | .superStreamRoute cmd => encode cmd
    | .consumerUpdate cmd => encode cmd
    | .consumerUpdateRequest cmd => encode cmd

/-- `Encoder for Response`, of the tests. -/
instance : Encoder Response where
  encodedSize r := encodedSize r.header + 2 + encodedSize r.kind
  encode r := do
    encode (encodedSize r.header + 2 + encodedSize r.kind : UInt32)
    encode r.header
    encode r.kind

end RabbitMqStream.Protocol
