/-
# Super streams: the metadata and the routing strategies

`superstream.rs`, as programs over what they ask for: the partitions of a super stream, and the
streams that a routing key goes to.  Both answers are kept: the list of partitions unless it is
empty, and the streams of a key always.

**Panics.**  Both queries unwrap what the client returns.  The hash strategy divides by the number
of partitions, as a `u32`.

* `partitions_spec`, `routes_spec`: what the two queries return, and when they panic.
* `strategy_spec`: the same for the routing of a message.  It panics exactly when it finds no list
  to route by, and, under the hash strategy, when the number of partitions is zero as a `u32`.
* `hashTarget_mem`: the hash strategy takes a member of the list.

**The argument.**  The specifications go down the lines.  What is common to the two strategies is
what they route by: a list that the metadata have, or else the answer to the query that is then
made (`RoutedBy`).  A run has at most one such answer, and what comes behind the queries does not
change it (`routable_append`), so that a statement about a whole run of `send` can speak of the
list by which its message was routed.
-/
import RabbitMqStream.Client.Close

namespace RabbitMqStream.SuperStream

open Lts Lts.Program Protocol
open Client.Close (ClientError ConsumerHandle ProducerInternal)

/-! ## 1. The operations -/

/-- `murmur3_32`, which is another crate's.  It reads the bytes of a key from memory, so its result
is there. -/
class Murmur3 where
  murmur3_32 : Bytes → UInt32 → UInt32

export Murmur3 (murmur3_32)

inductive ProducerCreateError : Type where
  | create (stream : String) (status : ResponseCode)
  | streamDoesNotExist (stream : String)
  | client (e : ClientError)
  | filteringNotSupport
  deriving DecidableEq

inductive ProducerPublishError : Type where
  | create (stream : String) (publisherId : UInt8) (status : ResponseCode)
  | batch (stream : String)
  | closed
  | confirmation (stream : String)
  | client (e : ClientError)
  deriving DecidableEq

inductive ConsumerCreateError : Type where
  | create (stream : String) (status : ResponseCode)
  | streamDoesNotExist (stream : String)
  | client (e : ClientError)
  | filteringNotSupport
  | singleActiveConsumerNotSupported
  deriving DecidableEq

/-- What a super stream producer hands to the builder of each of its producers. -/
structure SuperStreamProducerInternal : Type where
  filterValueExtractor : Option (Message → String)
  clientProvidedName : String

/-- What a super stream consumer hands to the builder of each of its consumers. -/
structure ConsumerSettings : Type where
  name : Option String
  offsetSpecification : OffsetSpecification
  clientProvidedName : String
  filterConfiguration : Option Consumer.FilterConfiguration
  /-- A `consumer_update_listener` is set. -/
  consumerUpdateListener : Bool
  properties : HashMap String String
  isSingleActiveConsumer : Bool

inductive Operation : Type where
  /-- `environment.create_client()`. -/
  | createClient
  /-- `client.partitions(super_stream)`. -/
  | partitions (superStream : String)
  /-- `client.route(routing_key, super_stream)`. -/
  | route (routingKey superStream : String)
  /-- `environment.producer()`, with its settings, and `build(stream)`. -/
  | buildProducer (settings : SuperStreamProducerInternal) (stream : String)
  /-- `producer.send(message, cb)`. -/
  | send (producer : ProducerInternal) (message : Message) (cb : Producer.Callback)
  /-- `environment.consumer()`, with its settings, and `build(stream)`. -/
  | buildConsumer (settings : ConsumerSettings) (stream : String)

/-- What an operation is answered with.  A producer is for the stream it was built for, and a
client is known by a number. -/
abbrev Operation.Answer : Operation → Type
  | .createClient => Except ClientError ℕ
  | .partitions _ => Except ClientError SuperStreamPartitionsResponse
  | .route _ _ => Except ClientError SuperStreamRouteResponse
  | .buildProducer _ stream =>
    Except ProducerCreateError { producer : ProducerInternal // producer.stream = stream }
  | .send _ _ _ => Except ProducerPublishError Unit
  | .buildConsumer _ _ => Except ConsumerCreateError ConsumerHandle

/-- Every operation may be answered in every way. -/
def anything : Surroundings Unit Operation.Answer := fun _ _ _ _ => True

theorem may_answer {op : Operation} {answer : op.Answer} : anything op () answer () := trivial

abbrev Query (α : Type) : Type := Program Operation Operation.Answer α

abbrev perform (op : Operation) : Query op.Answer := ask op

abbrev Trace : Type := List (Event Operation.Answer)

/-- A run of a query, with what was asked and answered. -/
abbrev QueryRuns {α : Type} (query : Query α) (trace : Trace) (out : Outcome α) : Prop :=
  Runs anything query () trace out ()

/-! ## 2. The metadata

What was asked for once is kept.  An empty list of partitions counts as none and is asked for
again; an empty list of the streams of a key is an answer like any other. -/

structure DefaultSuperStreamMetadata : Type where
  superStream : String
  partitions : List String
  routes : String → Option (List String)

/-- `DefaultSuperStreamMetadata::partitions`. -/
def Metadata.partitions (self : DefaultSuperStreamMetadata) :
    Query (List String × DefaultSuperStreamMetadata) := do
  if self.partitions.isEmpty then
    let response : Except ClientError SuperStreamPartitionsResponse ←
      perform (.partitions self.superStream)
    let response ← unwrap response
    pure (response.streams, { self with partitions := response.streams })
  else pure (self.partitions, self)

/-- `self.routes.get(routing_key).unwrap()`. -/
def Metadata.get (self : DefaultSuperStreamMetadata) (routingKey : String) :
    Query (List String × DefaultSuperStreamMetadata) :=
  match self.routes routingKey with
  | some streams => pure (streams, self)
  | none => .panic

/-- `DefaultSuperStreamMetadata::routes`. -/
def Metadata.routes (self : DefaultSuperStreamMetadata) (routingKey : String) :
    Query (List String × DefaultSuperStreamMetadata) := do
  if (self.routes routingKey).isSome then Metadata.get self routingKey
  else
    let response : Except ClientError SuperStreamRouteResponse ←
      perform (.route routingKey self.superStream)
    let response ← unwrap response
    Metadata.get
      { self with routes := Function.update self.routes routingKey (some response.streams) }
      routingKey

/-! ## 3. The strategies -/

structure RoutingKeyRoutingStrategy : Type where
  routingExtractor : Message → String

structure HashRoutingMurmurStrategy : Type where
  routingExtractor : Message → String

inductive RoutingStrategy : Type where
  | hashRoutingStrategy (strategy : HashRoutingMurmurStrategy)
  | routingKeyStrategy (strategy : RoutingKeyRoutingStrategy)

/-- `RoutingKeyRoutingStrategy::routes`. -/
def RoutingKeyRoutingStrategy.routes (self : RoutingKeyRoutingStrategy) (message : Message)
    (metadata : DefaultSuperStreamMetadata) : Query (List String × DefaultSuperStreamMetadata) :=
  Metadata.routes metadata (self.routingExtractor message)

section Hash

variable [Murmur3]

/-- `HashRoutingMurmurStrategy::routes` behind the query.  The remainder by zero panics, and so does
`unwrap` of an element behind the end. -/
def HashRoutingMurmurStrategy.pick (hashResult : UInt32) (partitions : List String)
    (metadata : DefaultSuperStreamMetadata) : Query (List String × DefaultSuperStreamMetadata) :=
  let numberOfPartitions := UInt32.ofNat partitions.length
  if numberOfPartitions = 0 then .panic
  else
    let route := hashResult % numberOfPartitions
    match partitions[route.toNat]? with
    | some stream => pure ([stream], metadata)
    | none => .panic

/-- `HashRoutingMurmurStrategy::routes`. -/
def HashRoutingMurmurStrategy.routes (self : HashRoutingMurmurStrategy) (message : Message)
    (metadata : DefaultSuperStreamMetadata) : Query (List String × DefaultSuperStreamMetadata) := do
  let key := self.routingExtractor message
  let hashResult := murmur3_32 (asBytes key) 104729
  let (partitions, metadata) ← Metadata.partitions metadata
  pick hashResult partitions metadata

/-- The `match` on the strategy in `SuperStreamProducer::send`. -/
def RoutingStrategy.routes (strategy : RoutingStrategy) (message : Message)
    (metadata : DefaultSuperStreamMetadata) : Query (List String × DefaultSuperStreamMetadata) :=
  match strategy with
  | .hashRoutingStrategy strategy => strategy.routes message metadata
  | .routingKeyStrategy strategy => strategy.routes message metadata

end Hash

/-! ## 4. What a message is routed by

A list that is there, or the answer to the one query that is made.  With these notions the
panics of both strategies have one cause in common, that there is no such list, and the hash
strategy has one more. -/

/-- The number of partitions is not zero as a `u32`. -/
def Countable (partitions : List String) : Prop := UInt32.ofNat partitions.length ≠ 0

instance : DecidablePred Countable := fun _ => inferInstanceAs (Decidable (_ ≠ _))

/-- A list is not countable when its length is a multiple of `2 ^ 32`, as that of the empty list
is. -/
theorem countable_iff (partitions : List String) :
    Countable partitions ↔ partitions.length % 2 ^ 32 ≠ 0 := by
  have hcast : (UInt32.ofNat partitions.length).toNat = partitions.length % 2 ^ 32 :=
    UInt32.toNat_ofNat' ..
  rw [Countable, ne_eq, ← UInt32.toNat_inj, hcast]
  rfl

/-- The list that the metadata have for a message. -/
def RoutingStrategy.known (strategy : RoutingStrategy) (message : Message)
    (metadata : DefaultSuperStreamMetadata) : Option (List String) :=
  match strategy with
  | .hashRoutingStrategy _ => if metadata.partitions.isEmpty then none else some metadata.partitions
  | .routingKeyStrategy strategy => metadata.routes (strategy.routingExtractor message)

/-- A query of the trace was answered with the list. -/
def Answered (trace : Trace) (streams : List String) : Prop :=
  (∃ name response, ⟨.partitions name, .ok response⟩ ∈ trace ∧ response.streams = streams) ∨
    ∃ key name response, ⟨.route key name, .ok response⟩ ∈ trace ∧ response.streams = streams

/-- The list a message is routed by: the one the metadata have, or else the answer. -/
def RoutedBy (strategy : RoutingStrategy) (message : Message)
    (metadata : DefaultSuperStreamMetadata) (trace : Trace) (streams : List String) : Prop :=
  strategy.known message metadata = some streams ∨
    strategy.known message metadata = none ∧ Answered trace streams

/-- There is a list to route by, and the hash strategy can divide by its length. -/
def Routable (strategy : RoutingStrategy) (message : Message)
    (metadata : DefaultSuperStreamMetadata) (trace : Trace) : Prop :=
  ∃ streams, RoutedBy strategy message metadata trace streams ∧
    ∀ hash, strategy = .hashRoutingStrategy hash → Countable streams

/-- The operation is a query of the metadata. -/
def IsQuery : Event Operation.Answer → Prop
  | ⟨.partitions _, _⟩ | ⟨.route _ _, _⟩ => True
  | _ => False

/-- **The partitions**: the list that is there unless it is empty, or else the answer, which is kept;
the query panics when the client returns an error. -/
theorem partitions_spec (self : DefaultSuperStreamMetadata) :
    wp anything (Metadata.partitions self) () fun trace out _ =>
      (self.partitions ≠ [] ∧ trace = [] ∧ out = .returned (self.partitions, self)) ∨
        self.partitions = [] ∧
          ((∃ response, trace = [⟨.partitions self.superStream, .ok response⟩] ∧
              out = .returned (response.streams, { self with partitions := response.streams })) ∨
            ∃ e, trace = [⟨.partitions self.superStream, .error e⟩] ∧ out = .panicked) := by
  unfold Metadata.partitions
  by_cases hempty : self.partitions.isEmpty = true
  · rw [if_pos hempty, wp_ask]
    intro answer _ _
    have hnil := List.isEmpty_iff.mp hempty
    cases answer with
    | error e => exact Or.inr ⟨hnil, Or.inr ⟨e, rfl, rfl⟩⟩
    | ok response => exact Or.inr ⟨hnil, Or.inl ⟨response, rfl, rfl⟩⟩
  · rw [if_neg hempty]
    exact Or.inl ⟨fun hnil => hempty (List.isEmpty_iff.mpr hnil), rfl, rfl⟩

theorem get_of_some {self : DefaultSuperStreamMetadata} {routingKey : String}
    {streams : List String} (h : self.routes routingKey = some streams) :
    Metadata.get self routingKey = pure (streams, self) := by
  rw [Metadata.get, h]

/-- **The streams of a key**: those that are there, or else the answer, which is kept; the query
panics when the client returns an error, and only then. -/
theorem routes_spec (self : DefaultSuperStreamMetadata) (routingKey : String) :
    wp anything (Metadata.routes self routingKey) () fun trace out _ =>
      (∃ streams, self.routes routingKey = some streams ∧ trace = [] ∧
          out = .returned (streams, self)) ∨
        self.routes routingKey = none ∧
          ((∃ response, trace = [⟨.route routingKey self.superStream, .ok response⟩] ∧
              out = .returned (response.streams,
                { self with
                  routes := Function.update self.routes routingKey (some response.streams) })) ∨
            ∃ e, trace = [⟨.route routingKey self.superStream, .error e⟩] ∧ out = .panicked) := by
  unfold Metadata.routes
  by_cases hsome : (self.routes routingKey).isSome = true
  · obtain ⟨streams, hknown⟩ := Option.isSome_iff_exists.mp hsome
    rw [if_pos hsome, get_of_some hknown]
    exact wp_pure.mpr (Or.inl ⟨streams, hknown, rfl, rfl⟩)
  · rw [if_neg hsome, wp_ask]
    intro answer _ _
    have hnone : self.routes routingKey = none := by simpa using hsome
    cases answer with
    | error e => exact Or.inr ⟨hnone, Or.inr ⟨e, rfl, rfl⟩⟩
    | ok response =>
      change wp anything (Metadata.get _ routingKey) () _
      rw [get_of_some (Function.update_self ..), wp_pure]
      exact Or.inr ⟨hnone, Or.inl ⟨response, rfl, rfl⟩⟩

section Hash

variable [Murmur3]

/-- The member of the list that the hash of a key points at. -/
def hashTarget (key : String) (partitions : List String) : Option String :=
  partitions[(murmur3_32 (asBytes key) 104729 % UInt32.ofNat partitions.length).toNat]?

/-- **The hash strategy takes a member of the list.** -/
theorem hashTarget_mem {key : String} {partitions : List String} (h : Countable partitions) :
    ∃ stream, hashTarget key partitions = some stream ∧ stream ∈ partitions := by
  have hpos := (countable_iff partitions).mp h
  have hcast : (UInt32.ofNat partitions.length).toNat = partitions.length % 2 ^ 32 :=
    UInt32.toNat_ofNat' ..
  have hlt : (murmur3_32 (asBytes key) 104729 % UInt32.ofNat partitions.length).toNat <
      partitions.length := by
    rw [UInt32.toNat_mod, hcast]
    exact (Nat.mod_lt _ (Nat.pos_of_ne_zero hpos)).trans_le (Nat.mod_le _ _)
  exact ⟨_, List.getElem?_eq_getElem hlt, List.getElem_mem hlt⟩

/-- A list that was found: what the strategy picks of it, and the metadata behind it. -/
structure Routed (strategy : RoutingStrategy) (message : Message)
    (metadata : DefaultSuperStreamMetadata) (trace : Trace) (streams routes : List String)
    (metadata' : DefaultSuperStreamMetadata) : Prop where
  found : RoutedBy strategy message metadata trace streams
  only : ∀ other, RoutedBy strategy message metadata trace other → streams = other
  hash : ∀ hash, strategy = .hashRoutingStrategy hash → Countable streams ∧
    metadata'.partitions = streams ∧
      ∃ stream ∈ streams, hashTarget (hash.routingExtractor message) streams = some stream ∧
        routes = [stream]
  key : ∀ key, strategy = .routingKeyStrategy key → routes = streams ∧
    metadata'.partitions = metadata.partitions

/-- What has come of the routing of a message. -/
def RoutingOutcome (strategy : RoutingStrategy) (message : Message)
    (metadata : DefaultSuperStreamMetadata) (trace : Trace)
    (out : Outcome (List String × DefaultSuperStreamMetadata)) : Prop :=
  (∀ ev ∈ trace, IsQuery ev) ∧
    ((∃ streams routes metadata', Routed strategy message metadata trace streams routes metadata' ∧
        out = .returned (routes, metadata')) ∨
      out = .panicked ∧ ¬ Routable strategy message metadata trace)

theorem pick_of_target {key stream : String} {streams : List String}
    {metadata : DefaultSuperStreamMetadata} (h : Countable streams)
    (htarget : hashTarget key streams = some stream) :
    HashRoutingMurmurStrategy.pick (murmur3_32 (asBytes key) 104729) streams metadata =
      pure ([stream], metadata) := by
  have hget : streams[(murmur3_32 (asBytes key) 104729 % UInt32.ofNat streams.length).toNat]? =
      some stream := htarget
  simp only [HashRoutingMurmurStrategy.pick, hget]
  exact if_neg h

/-- The rest of the hash strategy, with the list it has found. -/
theorem pick_spec (strategy : HashRoutingMurmurStrategy) (message : Message)
    {metadata metadata' : DefaultSuperStreamMetadata} {streams : List String} {trace : Trace}
    (hquery : ∀ ev ∈ trace, IsQuery ev)
    (hfound : ∀ other, RoutedBy (.hashRoutingStrategy strategy) message metadata trace other ↔
      streams = other) (hkept : metadata'.partitions = streams) :
    wp anything
      (HashRoutingMurmurStrategy.pick
        (murmur3_32 (asBytes (strategy.routingExtractor message)) 104729) streams metadata') ()
      fun trace' out _ => RoutingOutcome (.hashRoutingStrategy strategy) message metadata
        (trace ++ trace') out := by
  by_cases hcount : Countable streams
  · obtain ⟨stream, htarget, hmem⟩ : ∃ stream,
        hashTarget (strategy.routingExtractor message) streams = some stream ∧ stream ∈ streams :=
      hashTarget_mem hcount
    rw [pick_of_target hcount htarget, wp_pure, List.append_nil]
    refine ⟨hquery, Or.inl ⟨streams, [stream], metadata', ⟨(hfound streams).mpr rfl,
      fun other => (hfound other).mp, fun hash heq => ?_, by simp⟩, rfl⟩⟩
    obtain rfl := RoutingStrategy.hashRoutingStrategy.inj heq
    exact ⟨hcount, hkept, stream, hmem, htarget, rfl⟩
  · rw [HashRoutingMurmurStrategy.pick, if_pos (not_not.mp hcount), wp_panic, List.append_nil]
    refine ⟨hquery, Or.inr ⟨rfl, ?_⟩⟩
    rintro ⟨other, hother, hcountable⟩
    exact hcount ((hfound other).mp hother ▸ hcountable strategy rfl)

/-- **The hash strategy.** -/
theorem hashStrategy_spec (strategy : HashRoutingMurmurStrategy) (message : Message)
    (metadata : DefaultSuperStreamMetadata) :
    wp anything (strategy.routes message metadata) () fun trace out _ =>
      RoutingOutcome (.hashRoutingStrategy strategy) message metadata trace out := by
  unfold HashRoutingMurmurStrategy.routes
  rw [wp_bind]
  refine wp_mono ?_ (partitions_spec metadata)
  rintro trace out - (⟨hne, rfl, rfl⟩ | ⟨hnil, ⟨response, rfl, rfl⟩ | ⟨e, rfl, rfl⟩⟩)
  · refine pick_spec strategy message (by simp) (fun other => ?_) rfl
    simp [RoutedBy, RoutingStrategy.known, hne]
  · refine pick_spec strategy message (by simp [IsQuery]) (fun other => ?_) rfl
    simp [RoutedBy, RoutingStrategy.known, hnil, Answered]
  · refine ⟨by simp [IsQuery], Or.inr ⟨rfl, ?_⟩⟩
    simp [Routable, RoutedBy, RoutingStrategy.known, hnil, Answered]

/-- **The key strategy.** -/
theorem keyStrategy_spec (strategy : RoutingKeyRoutingStrategy) (message : Message)
    (metadata : DefaultSuperStreamMetadata) :
    wp anything (strategy.routes message metadata) () fun trace out _ =>
      RoutingOutcome (.routingKeyStrategy strategy) message metadata trace out := by
  unfold RoutingKeyRoutingStrategy.routes
  refine wp_mono ?_ (routes_spec metadata _)
  rintro trace out - (⟨streams, hknown, rfl, rfl⟩ | ⟨hnone, ⟨response, rfl, rfl⟩ | ⟨e, rfl, rfl⟩⟩)
  · refine ⟨by simp, Or.inl ⟨streams, streams, metadata, ⟨?_, ?_, by simp, by simp⟩, rfl⟩⟩
    · exact Or.inl hknown
    · simp [RoutedBy, RoutingStrategy.known, hknown]
  · refine ⟨by simp [IsQuery], Or.inl ⟨response.streams, response.streams, _,
      ⟨?_, ?_, by simp, by simp⟩, rfl⟩⟩
    · exact Or.inr ⟨hnone, Or.inr ⟨_, _, response, List.mem_singleton_self _, rfl⟩⟩
    · simp [RoutedBy, RoutingStrategy.known, hnone, Answered]
  · refine ⟨by simp [IsQuery], Or.inr ⟨rfl, ?_⟩⟩
    simp [Routable, RoutedBy, RoutingStrategy.known, hnone, Answered]

/-- **The routing of a message**, by either strategy. -/
theorem strategy_spec (strategy : RoutingStrategy) (message : Message)
    (metadata : DefaultSuperStreamMetadata) :
    wp anything (strategy.routes message metadata) () fun trace out _ =>
      RoutingOutcome strategy message metadata trace out := by
  cases strategy with
  | hashRoutingStrategy strategy => exact hashStrategy_spec strategy message metadata
  | routingKeyStrategy strategy => exact keyStrategy_spec strategy message metadata

end Hash

end RabbitMqStream.SuperStream
