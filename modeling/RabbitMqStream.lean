import RabbitMqStream.Wire.Reader
import RabbitMqStream.Wire.Layout
import RabbitMqStream.Wire.Framing
import RabbitMqStream.Wire.Writer
import RabbitMqStream.Wire.Termination
import RabbitMqStream.Basic
import RabbitMqStream.Amqp.Types
import RabbitMqStream.Amqp.Encode
import RabbitMqStream.Amqp.Size
import RabbitMqStream.Amqp.Decode
import RabbitMqStream.Amqp.Progress
import RabbitMqStream.Amqp.Termination
import RabbitMqStream.Amqp.Sections
import RabbitMqStream.Amqp.Leaves
import RabbitMqStream.Amqp.Compound
import RabbitMqStream.Amqp.Lists
import RabbitMqStream.Amqp.Records
import RabbitMqStream.Amqp.LongProperties
import RabbitMqStream.Amqp.Messages
import RabbitMqStream.Amqp.Panics
import RabbitMqStream.Amqp.Interop
import RabbitMqStream.Protocol.Codec
import RabbitMqStream.Protocol.Request
import RabbitMqStream.Protocol.RequestSize
import RabbitMqStream.Protocol.Response
import RabbitMqStream.Protocol.ResponseLayout
import RabbitMqStream.Protocol.ResponsePanics
import RabbitMqStream.Protocol.RequestDecode
import RabbitMqStream.Protocol.FieldRoundTrip
import RabbitMqStream.Protocol.StringFields
import RabbitMqStream.Protocol.PublishRoundTrip
import RabbitMqStream.Protocol.RequestRoundTrip
import RabbitMqStream.Protocol.ResponseEncode
import RabbitMqStream.Protocol.ResponseRoundTrip
import RabbitMqStream.Client.Codec
import RabbitMqStream.Client.FailedEncode
import RabbitMqStream.Client.Framing
import RabbitMqStream.Lts.Run
import RabbitMqStream.Lts.Ledger
import RabbitMqStream.Lts.Pipeline
import RabbitMqStream.Lts.Slots
import RabbitMqStream.Client.Dispatcher
import RabbitMqStream.Producer.Model
import RabbitMqStream.Producer.Confirmation
import RabbitMqStream.Producer.Order
import RabbitMqStream.Producer.Waiters
import RabbitMqStream.Producer.Sessions
import RabbitMqStream.Producer.Close
import RabbitMqStream.Producer.Accumulator
import RabbitMqStream.Producer.Counter
import RabbitMqStream.Producer.Collisions
import RabbitMqStream.Producer.BatchConfirm
import RabbitMqStream.Producer.BatchReturn
import RabbitMqStream.Producer.Callbacks
import RabbitMqStream.Producer.SendConfirm
import RabbitMqStream.Lts.Relay
import RabbitMqStream.Lts.Fanin
import RabbitMqStream.Lts.Program
import RabbitMqStream.Lts.Fallible
import RabbitMqStream.Lts.Implement
import RabbitMqStream.Lts.Lease
import RabbitMqStream.Consumer.Model
import RabbitMqStream.Consumer.Offsets
import RabbitMqStream.Consumer.Credit
import RabbitMqStream.Consumer.Disconnect
import RabbitMqStream.Consumer.EndToEnd
import RabbitMqStream.Client.Closing
import RabbitMqStream.Client.Requests
import RabbitMqStream.Client.Finished
import RabbitMqStream.Client.Handshake
import RabbitMqStream.Client.Heartbeat
import RabbitMqStream.Client.Close
import RabbitMqStream.SuperStream.Metadata
import RabbitMqStream.SuperStream.Producer
import RabbitMqStream.SuperStream.Consumer
import RabbitMqStream.SuperStream.Forwarding
import RabbitMqStream.Client.Metadata
import RabbitMqStream.Api.Model
import RabbitMqStream.Api.Clients
import RabbitMqStream.Api.Builders
import RabbitMqStream.Api.History
import RabbitMqStream.Api.SuperStreams
import RabbitMqStream.Api.Closing
import RabbitMqStream.Api.SuperStreamProducer
