/-
# The environment: which connections it opens and closes

`environment.rs` and `stream_creator.rs`, as programs over what they ask a connection for.  Every
call of the API makes connections of its own.  To create or delete a stream, a connection is opened,
used for one request and closed.  For a producer or a consumer, the first connection is asked where
the stream is; it is closed, and the connection to that broker is handed over.

**Load balancer.**  Behind a load balancer a broker cannot be dialled.  Then the client connects
again and again, until the broker it has got to says that it is the one that is wanted.  The loop
has no bound.  It is given a number of rounds here, and says when they are used up.

**Connections** are leases (`Lts/Lease.lean`): `initialize` takes one, and a `close` that succeeds
gives it back.  A connection that fails before it is open is not counted.  Nothing gives a
connection back when its client is dropped: the task that reads from it holds a client, too.

**Answers** can be any at all.
-/
import RabbitMqStream.Client.Metadata
import RabbitMqStream.Lts.Fallible
import RabbitMqStream.Lts.Lease
import RabbitMqStream.SuperStream.Metadata

namespace RabbitMqStream.Api

open Lts Lts.Program
open Protocol hiding Broker StreamMetadata
open RabbitMqStream.Client (Broker StreamMetadata)
open RabbitMqStream.Client.Close (ClientError)

/-! ## 1. The operations

What a call asks of a connection, and what each request is answered by.  Only opening and
closing change the ledger of the connections; every other operation uses one. -/

/-- `ClientOptions`, without what is for TLS and metrics. -/
structure ClientOptions : Type where
  host : String := "localhost"
  port : UInt16 := 5552
  user : String := "guest"
  password : String := "guest"
  vHost : String := "/"
  heartbeat : UInt32 := 60
  maxFrameSize : UInt32 := 1048576
  loadBalancerMode : Bool := false
  clientProvidedName : String := "rust-stream"
  deriving DecidableEq

/-- What `set_handler` is called with. -/
inductive Handler : Type where
  | producerConfirm
  | consumerMessage
  deriving DecidableEq

/-- The requests that are answered by a `GenericResponse`. -/
inductive Command : Type where
  | createStream (stream : String) (options : HashMap String String)
  | createSuperStream (superStream : String) (partitions bindingKeys : List String)
      (options : HashMap String String)
  | deleteStream (stream : String)
  | deleteSuperStream (superStream : String)
  | declarePublisher (publisherId : UInt8) (publisherReference : Option String) (stream : String)
  | subscribe (subscriptionId : UInt8) (stream : String)
      (offsetSpecification : OffsetSpecification) (credit : UInt16)
      (properties : HashMap String String)
  deriving DecidableEq

inductive Operation : Type where
  /-- `create_connection` and `initialize`. -/
  | createConnection (opts : ClientOptions)
  | exchangeCommandVersions (connection : ℕ)
  | metadata (connection : ℕ) (streams : List String)
  | send (connection : ℕ) (command : Command)
  | queryPublisherSequence (connection : ℕ) (reference stream : String)
  | partitions (connection : ℕ) (superStream : String)
  | route (connection : ℕ) (routingKey superStream : String)
  /-- `Producer::send`, on the connection of the producer. -/
  | sendMessage (connection : ℕ) (message : Message) (cb : Producer.Callback)
  | setHandler (connection : ℕ) (handler : Handler)
  | close (connection : ℕ)
  /-- The number that `choose` draws. -/
  | draw
  deriving DecidableEq

/-- A connection that is open, and what the broker says of itself in its `OpenResponse`. -/
structure Session : Type where
  connection : ℕ
  connectionProperties : HashMap String String

abbrev Operation.Answer : Operation → Type
  | .createConnection _ => Except ClientError Session
  | .exchangeCommandVersions _ => Except ClientError ExchangeCommandVersionsResponse
  | .metadata _ _ => Except ClientError MetadataResponse
  | .send _ _ => Except ClientError GenericResponse
  | .queryPublisherSequence _ _ _ => Except ClientError QueryPublisherResponse
  | .partitions _ _ => Except ClientError SuperStreamPartitionsResponse
  | .route _ _ _ => Except ClientError SuperStreamRouteResponse
  | .sendMessage _ _ _ => Except SuperStream.ProducerPublishError Unit
  | .setHandler _ _ => Unit
  | .close _ => Except ClientError Unit
  | .draw => ℕ

/-- What an operation does with the connections. -/
def Operation.leasing : (op : Operation) → op.Answer → Leasing
  | .createConnection _, .ok session => .take session.connection
  | .createConnection _, .error _ => .idle
  | .exchangeCommandVersions connection, _ => .use connection
  | .metadata connection _, _ => .use connection
  | .send connection _, _ => .use connection
  | .queryPublisherSequence connection _ _, _ => .use connection
  | .partitions connection _, _ => .use connection
  | .route connection _ _, _ => .use connection
  | .sendMessage connection _ _, _ => .use connection
  | .setHandler connection _, _ => .use connection
  | .close connection, .ok _ => .release connection
  | .close connection, .error _ => .use connection
  | .draw, _ => .idle

/-- The ledger keeps what an operation does; the answer can be any. -/
def surroundings : Surroundings Leases Operation.Answer := fun op w answer w' =>
  w.Step (op.leasing answer) w'

/-- A function that returns early with an error. -/
abbrev Call (ε α : Type) : Type := Fallible Operation Operation.Answer ε α

abbrev Trace : Type := List (Event Operation.Answer)

/-- A run of a function. -/
abbrev CallRuns {ε α : Type} (call : Call ε α) : Leases → Trace → Outcome (Except ε α) → Leases →
    Prop := Runs surroundings call.run

/-! ## 2. The client

The methods of a client that the environment calls, each of them one operation or a few. -/

/-- What these functions use of a client. -/
structure Client : Type where
  connection : ℕ
  opts : ClientOptions
  connectionProperties : HashMap String String
  filteringSupported : Bool

/-- `ExchangeCommandVersionsResponse::key_version`. -/
def keyVersion (response : ExchangeCommandVersionsResponse) (keyCommand : UInt16) :
    UInt16 × UInt16 :=
  match response.commands.find? fun command => command.key = keyCommand with
  | some command => (command.minVersion, command.maxVersion)
  | none => (1, 1)

namespace Client

/-- `Client::connect`. -/
def connect (opts : ClientOptions) : Call ClientError Client := do
  let session : Session ← attempt (.createConnection opts) id
  let commandVersions : ExchangeCommandVersionsResponse ←
    attempt (.exchangeCommandVersions session.connection) id
  let (_, maxVersion) := keyVersion commandVersions 2
  pure ⟨session.connection, opts, session.connectionProperties, decide (2 ≤ maxVersion)⟩

variable (client : Client)

/-- `Client::metadata`. -/
def metadata (streams : List String) : Call ClientError (HashMap String StreamMetadata) := do
  let response : MetadataResponse ← attempt (.metadata client.connection streams) id
  pure (Client.Metadata.fromResponse response)

/-- `Client::create_stream`, `declare_publisher`, `subscribe` and their like. -/
def send (command : Command) : Call ClientError GenericResponse :=
  attempt (.send client.connection command) id

/-- `Client::query_publisher_sequence`.  The code of the response is not looked at. -/
def queryPublisherSequence (reference stream : String) : Call ClientError UInt64 := do
  let response : QueryPublisherResponse ←
    attempt (.queryPublisherSequence client.connection reference stream) id
  pure response.sequence

/-- `Client::set_handler`. -/
def setHandler (handler : Handler) : Call ClientError Unit :=
  attempt (.setHandler client.connection handler) .ok

/-- `Client::close`. -/
def close : Call ClientError Unit := attempt (.close client.connection) id

end Client

/-! ## 3. The environment

How a client for a stream is found.  The two functions differ in which broker of the stream they
want, and in the options that the connection to it is opened with. -/

structure Environment : Type where
  options : ClientOptions

namespace Environment

variable (self : Environment)

/-- `Environment::boostrap`. -/
def boostrap (options : ClientOptions) : Call ClientError Environment := do
  let client ← Client.connect options
  client.close
  pure ⟨options⟩

/-- One round of the loop behind a load balancer. -/
def tryBroker (client : Client) (wanted : Broker) : Call ClientError (Option Client) := do
  let tempClient ← Client.connect self.options
  if tempClient.connectionProperties.get "advertised_host" = some wanted.host then do
    client.close
    pure (some tempClient)
  else do
    tempClient.close
    pure none

/-- What `create_producer_client` and `create_consumer_client` do when they know the broker: `opts`
are the options that the connection to it is made with, when it is dialled. -/
def moveTo (rounds : ℕ) (client : Client) (wanted : Broker) (opts : ClientOptions) :
    Call ClientError (Option Client) :=
  if self.options.loadBalancerMode then repeatUntil (self.tryBroker client wanted) rounds
  else do
    client.close
    let client ← Client.connect { opts with host := wanted.host, port := wanted.port.toUInt16 }
    pure (some client)

/-- `self.options.client_options` with a name for the connection. -/
def named (clientProvidedName : String) : ClientOptions :=
  { self.options with clientProvidedName := clientProvidedName }

/-- `Environment::create_producer_client`. -/
def createProducerClient (rounds : ℕ) (stream clientProvidedName : String) :
    Call SuperStream.ProducerCreateError (Option Client) := do
  let optWithClientProvidedName := self.named clientProvidedName
  let client ← mapErr .client (Client.connect optWithClientProvidedName)
  let streams ← mapErr .client (client.metadata [stream])
  match streams.get stream with
  | some metadata =>
    mapErr .client (self.moveTo rounds client metadata.leader optWithClientProvidedName)
  | none => throw (.streamDoesNotExist stream)

/-- `replicas.choose(&mut StdRng::from_entropy())`. -/
def choose (replicas : List Broker) : Call ClientError (Option Broker) := do
  let drawn : ℕ ← attempt .draw .ok
  pure replicas[drawn % replicas.length]?

/-- `Environment::create_consumer_client`.  With no replica to choose, the first client stays; a
replica is dialled with the options of the environment. -/
def createConsumerClient (rounds : ℕ) (stream clientProvidedName : String) :
    Call SuperStream.ConsumerCreateError (Option Client) := do
  let client ← mapErr .client (Client.connect (self.named clientProvidedName))
  let streams ← mapErr .client (client.metadata [stream])
  match streams.get stream with
  | some metadata => do
    match ← mapErr .client (choose metadata.replicas) with
    | some replica => mapErr .client (self.moveTo rounds client replica self.options)
    | none => pure (some client)
  | none => throw (.streamDoesNotExist stream)

end Environment

/-! ## 4. Streams

Calls that open a connection for one request and close it.  What goes into the request is
computed before, and for a super stream that needs memory for two vectors of strings. -/

/-- `StreamCreateError` and `StreamDeleteError`, which have the same variants. -/
inductive StreamError : Type where
  | refused (stream : String) (status : ResponseCode)
  | client (e : ClientError)
  deriving DecidableEq

/-- Open a connection, make one request, close the connection and look at the response. -/
def Environment.once (self : Environment) (stream : String) (command : Command) :
    Call StreamError Unit := do
  let client ← mapErr .client (Client.connect self.options)
  let response ← mapErr .client (client.send command)
  mapErr .client client.close
  if response.code = .ok then pure () else throw (.refused stream response.code)

/-- `Environment::delete_stream`. -/
def Environment.deleteStream (self : Environment) (stream : String) : Call StreamError Unit :=
  self.once stream (.deleteStream stream)

/-- `Environment::delete_super_stream`. -/
def Environment.deleteSuperStream (self : Environment) (superStream : String) :
    Call StreamError Unit := self.once superStream (.deleteSuperStream superStream)

structure StreamCreator : Type where
  env : Environment
  options : HashMap String String

inductive LeaderLocator : Type where
  | clientLocal
  | random
  | leastLeaders

/-- `AsRef<str> for LeaderLocator`. -/
def LeaderLocator.asRef : LeaderLocator → String
  | .clientLocal => "client-local"
  | .random => "random"
  | .leastLeaders => "least-leaders"

/-- `ByteCapacity`. -/
inductive ByteCapacity : Type where
  | b (x : UInt64)
  | kb (x : UInt64)
  | mb (x : UInt64)
  | gb (x : UInt64)
  | tb (x : UInt64)

/-- `ByteCapacity::bytes`.  The multiplication wraps, as it does in a release build. -/
def ByteCapacity.bytes : ByteCapacity → UInt64
  | .b x => x
  | .kb x => x * 1000
  | .mb x => x * 1000000
  | .gb x => x * 1000000000
  | .tb x => x * 1000000000000

namespace StreamCreator

/-- `StreamCreator::leader_locator`. -/
def leaderLocator (creator : StreamCreator) (locator : LeaderLocator) : StreamCreator :=
  { creator with options := creator.options.put "queue-leader-locator" locator.asRef }

/-- `StreamCreator::max_age`, in seconds. -/
def maxAge (creator : StreamCreator) (seconds : UInt64) : StreamCreator :=
  { creator with options := creator.options.put "max-age" (toString seconds ++ "s") }

/-- `StreamCreator::max_length`. -/
def maxLength (creator : StreamCreator) (byteCapacity : ByteCapacity) : StreamCreator :=
  { creator with
    options := creator.options.put "max-length-bytes" (toString byteCapacity.bytes) }

/-- `StreamCreator::max_segment_size`. -/
def maxSegmentSize (creator : StreamCreator) (byteCapacity : ByteCapacity) : StreamCreator :=
  { creator with
    options :=
      creator.options.put "stream-max-segment-size-bytes" (toString byteCapacity.bytes) }

/-- `StreamCreator::new`. -/
def new (env : Environment) : StreamCreator := leaderLocator ⟨env, HashMap.empty⟩ .leastLeaders

/-- `StreamCreator::create`. -/
def create (creator : StreamCreator) (stream : String) : Call StreamError Unit :=
  creator.env.once stream (.createStream stream creator.options)

/-- The binding keys of `create_super_stream`: those that are given, or the numbers of the
partitions. -/
def bindingKeysOf (numberOfPartitions : ℕ) (bindingKeys : Option (List String)) : List String :=
  bindingKeys.getD ((List.range numberOfPartitions).map fun i => toString i)

/-- The names of the partitions of `create_super_stream`. -/
def partitionsOf (superStream : String) (bindingKeys : List String) : List String :=
  bindingKeys.map fun bindingKey => superStream ++ "-" ++ bindingKey

/-- `size_of::<String>()`, with pointers of 64 bits. -/
def stringSize : ℕ := 24

/-- There is memory for so many strings: they are not more than `isize::MAX` bytes, and the
allocator grants them. -/
def HasRoom [Allocator] (n : ℕ) : Prop :=
  n * stringSize ≤ isizeMax ∧ Allocator.grants (List String) n

instance [Allocator] : DecidablePred HasRoom := fun _ => inferInstanceAs (Decidable (_ ∧ _))

/-- `Vec::<String>::with_capacity`. -/
def withCapacity [Allocator] {ε : Type} (n : ℕ) : Call ε Unit :=
  ExceptT.lift (if HasRoom n then pure () else .panic)

/-- `StreamCreator::create_super_stream`.  Its two vectors are made before it looks whether there
are binding keys. -/
def createSuperStream [Allocator] (creator : StreamCreator) (superStream : String)
    (numberOfPartitions : ℕ) (bindingKeys : Option (List String)) : Call StreamError Unit := do
  withCapacity numberOfPartitions
  withCapacity numberOfPartitions
  let newBindingKeys := bindingKeysOf numberOfPartitions bindingKeys
  creator.env.once superStream (.createSuperStream superStream
    (partitionsOf superStream newBindingKeys) newBindingKeys creator.options)

end StreamCreator

end RabbitMqStream.Api
