/-
# Building producers and consumers

`ProducerBuilder::build` and `ConsumerBuilder::build`.  Both get a client for the stream, install
their handler on it and announce themselves to the broker; what they return is the producer of
`Producer/Model.lean` and the consumer of `Consumer/Model.lean`, just begun.

**Names.**  A producer with a name asks the broker for the last sequence of that name, and does so
before it looks whether it was declared at all.

**Panics.**  The accumulator of a producer is a channel with as much room as a batch has messages.
A channel has to have room, and not more than `usize::MAX / 8`; else making it panics, and that is
after the publisher was declared.

* `producerBuild_run`, `consumerBuild_run`: what the two functions leave behind.
* `get_properties`: what a consumer tells the broker, key by key.

**The argument.**  A builder finds a client and goes on with it, so the specification of the
search (`Api/Clients.lean`) is followed by one of what is done with the client.  That second part
opens nothing, and whatever becomes of it the client's connection is the one that is held.  What a
consumer tells the broker is a question about a map that is filled in a fixed order: what the
builder puts in replaces what the application has under the same key, and the keys of the filter
values are none of the other keys.
-/
import RabbitMqStream.Api.Clients
import RabbitMqStream.Producer.Sessions

namespace RabbitMqStream.Api

open Lts Lts.Program Lts.Leases
open Protocol hiding Broker StreamMetadata
open RabbitMqStream.Client (Broker StreamMetadata)
open RabbitMqStream.Client.Close (ClientError)
open SuperStream (ProducerCreateError ConsumerCreateError)

/-! ## 1. Producers

The lines of `build` behind the client, each with its own error, and the accumulator that panics
for a size no channel can have. -/

structure ProducerBuilder : Type where
  environment : Environment
  name : Option String := none
  batchSize : UInt64 := 100
  /-- In nanoseconds. -/
  batchPublishingDelay : ℕ := 100000000
  filterValueExtractor : Option (Message → String) := none
  clientProvidedName : String := "rust-stream-producer"

/-- `ProducerInternal` in the `Arc` of a `Producer`, and the state it begins in. -/
structure BuiltProducer : Type where
  client : Client
  stream : String
  cfg : Producer.Config
  state : Producer.State

namespace ProducerBuilder

variable (self : ProducerBuilder)

/-- `ProducerBuilder::name`.  The extractor and the name of the connection are set back. -/
def named (name : String) : ProducerBuilder :=
  { self with
    name := some name
    filterValueExtractor := none
    clientProvidedName := "rust-stream-producer" }

/-- The version of its publish frames. -/
def publishVersion (client : Client) : Call ProducerCreateError UInt16 :=
  if self.filterValueExtractor.isSome then
    if client.filteringSupported then pure 2 else throw .filteringNotSupport
  else pure 1

/-- Where the sequence starts. -/
def publishSequence (client : Client) (stream : String) : Call ProducerCreateError UInt64 :=
  match self.name with
  | some name => do
    let sequence ← mapErr .client (client.queryPublisherSequence name stream)
    pure (Producer.firstSequence sequence)
  | none => pure 0

/-- `mpsc::channel` takes this as its room. -/
def Roomy (batchSize : UInt64) : Prop := batchSize ≠ 0 ∧ batchSize.toNat < 2 ^ 61

instance : DecidablePred Roomy := fun _ => inferInstanceAs (Decidable (_ ∧ _))

/-- `MessageAccumulator::new`. -/
def newAccumulator {ε : Type} (batchSize : UInt64) : Call ε Unit :=
  ExceptT.lift (if Roomy batchSize then pure () else .panic)

/-- `schedule_batch_send`.  An interval of length zero panics in the task of the timer. -/
def timer : List Producer.Task := if self.batchPublishingDelay = 0 then [.panicked] else [.tick]

/-- The producer that `build` returns. -/
def built (client : Client) (stream : String) (publishVersion : UInt16)
    (publishSequence : UInt64) : BuiltProducer where
  client := client
  stream := stream
  cfg := ⟨1, self.batchSize, publishVersion, self.filterValueExtractor⟩
  state := ⟨{ publishSequence := publishSequence }, self.timer⟩

/-- `ProducerBuilder::build`, behind the creation of the client. -/
def buildWith (client : Client) (stream : String) : Call ProducerCreateError BuiltProducer := do
  let publishVersion ← self.publishVersion client
  mapErr .client (client.setHandler .producerConfirm)
  let response ← mapErr .client (client.send (.declarePublisher 1 self.name stream))
  let publishSequence ← self.publishSequence client stream
  if response.code = .ok then do
    newAccumulator self.batchSize
    pure (self.built client stream publishVersion publishSequence)
  else throw (.create stream response.code)

/-- `ProducerBuilder::build`. -/
def build (rounds : ℕ) (stream : String) : Call ProducerCreateError (Option BuiltProducer) := do
  match ← self.environment.createProducerClient rounds stream self.clientProvidedName with
  | some client => do
    let producer ← self.buildWith client stream
    pure (some producer)
  | none => pure none

end ProducerBuilder

/-! ## 2. Consumers

What the application has set goes into the properties first, then what the filter and a single
active consumer add to them. -/

structure ConsumerBuilder : Type where
  consumerName : Option String := none
  environment : Environment
  offsetSpecification : OffsetSpecification := .next
  filterConfiguration : Option Consumer.FilterConfiguration := none
  /-- A `consumer_update_listener` is set. -/
  consumerUpdateListener : Bool := false
  clientProvidedName : String := "rust-stream-consumer"
  properties : HashMap String String := HashMap.empty
  isSingleActiveConsumer : Bool := false

/-- A `Consumer` and its client. -/
structure BuiltConsumer : Type where
  client : Client
  internal : Consumer.ConsumerInternal

/-- `format!("filter.{}", index)`. -/
def filterKey (index : ℕ) : String := "filter." ++ toString index

/-- The properties of the client filter. -/
def withFilter (filterInput : Consumer.FilterConfiguration) (properties : HashMap String String) :
    HashMap String String :=
  (filterInput.filterValues.zipIdx.foldl
    (fun properties item => properties.put (filterKey item.2) item.1) properties).put
      "match-unfiltered" (toString filterInput.matchUnfiltered)

/-- The properties of a single active consumer. -/
def withSingleActive (name : String) (properties : HashMap String String) :
    HashMap String String :=
  (properties.put "single-active-consumer" "true").put "name" name

namespace ConsumerBuilder

variable (self : ConsumerBuilder)

/-- The consumer that `build` makes. -/
def internal (stream : String) : Consumer.ConsumerInternal where
  name := self.consumerName
  stream := stream
  offsetSpecification := self.offsetSpecification
  filterConfiguration := self.filterConfiguration
  consumerUpdateListener := self.consumerUpdateListener

/-- A single active consumer has to have a name. -/
def Nameless : Prop :=
  (self.isSingleActiveConsumer = true ∨
    self.properties.containsKey "single-active-consumer" = true) ∧ self.consumerName = none

instance : Decidable self.Nameless := inferInstanceAs (Decidable (_ ∧ _))

/-- The properties with what the filter adds. -/
def filterProperties (client : Client) : Call ConsumerCreateError (HashMap String String) :=
  match self.filterConfiguration with
  | some filterInput =>
    if client.filteringSupported then pure (withFilter filterInput self.properties)
    else throw .filteringNotSupport
  | none => pure self.properties

/-- The properties with what a single active consumer adds, which unwraps its name. -/
def singleActiveProperties (properties : HashMap String String) :
    Call ConsumerCreateError (HashMap String String) :=
  if self.isSingleActiveConsumer then
    match self.consumerName with
    | some name => pure (withSingleActive name properties)
    | none => ExceptT.lift .panic
  else pure properties

/-- `ConsumerBuilder::build`, behind the creation of the client. -/
def buildWith (client : Client) (stream : String) : Call ConsumerCreateError BuiltConsumer := do
  mapErr .client (client.setHandler .consumerMessage)
  let properties ← self.filterProperties client
  let properties ← self.singleActiveProperties properties
  let response ← mapErr .client
    (client.send (.subscribe 1 stream self.offsetSpecification 1 properties))
  if response.code = .ok then pure ⟨client, self.internal stream⟩
  else throw (.create stream response.code)

/-- `ConsumerBuilder::build`. -/
def build (rounds : ℕ) (stream : String) : Call ConsumerCreateError (Option BuiltConsumer) := do
  if self.Nameless then throw .singleActiveConsumerNotSupported
  else
    match ← self.environment.createConsumerClient rounds stream self.clientProvidedName with
    | some client => do
      let consumer ← self.buildWith client stream
      pure (some consumer)
    | none => pure none

end ConsumerBuilder

/-! ## 3. What building a producer leaves behind

Three ways to end: a producer whose connection is held, an error, and the panic of the
accumulator.  Once a client has been found its connection stays open in all three, as nobody
closes it. -/

/-- Where the sequence of a producer starts, and what was asked for that. -/
def Resumed (connection : ℕ) (stream : String) (name : Option String) (queried : Trace)
    (sequence : UInt64) : Prop :=
  match name with
  | some name => ∃ response,
      queried = [⟨.queryPublisherSequence connection name stream, .ok response⟩] ∧
        sequence = Producer.firstSequence response.sequence
  | none => queried = [] ∧ sequence = 0

namespace ProducerBuilder

variable (self : ProducerBuilder) {base w : Leases}

/-- The frames of a producer with an extractor have version 2. -/
def version : UInt16 := if self.filterValueExtractor.isSome then 2 else 1

/-- The broker has accepted the publisher, behind the handler. -/
structure Declared (client : Client) (stream : String) (sequence : UInt64) (trace : Trace) :
    Prop where
  filters : self.filterValueExtractor.isSome = true → client.filteringSupported = true
  announced : ∃ response queried,
    trace = ⟨.setHandler client.connection .producerConfirm, ()⟩ ::
      ⟨.send client.connection (.declarePublisher 1 self.name stream), .ok response⟩ :: queried ∧
        response.code = .ok ∧ Resumed client.connection stream self.name queried sequence

/-- Why there is no producer although there is a client. -/
def Refused (client : Client) (stream : String) (trace : Trace) (e : ProducerCreateError) : Prop :=
  (e = .filteringNotSupport ∧ self.filterValueExtractor.isSome = true ∧
      client.filteringSupported = false ∧ trace = []) ∨
    (∃ response, response.code ≠ .ok ∧ e = .create stream response.code ∧
      ⟨.send client.connection (.declarePublisher 1 self.name stream), .ok response⟩ ∈ trace) ∨
      ∃ e', e = .client e'

theorem publishVersion_spec (client : Client) :
    ends surroundings (self.publishVersion client) w
      (fun trace version w' => trace = [] ∧ w' = w ∧ version = self.version ∧
        (self.filterValueExtractor.isSome = true → client.filteringSupported = true))
      (fun trace e w' => trace = [] ∧ w' = w ∧ e = .filteringNotSupport ∧
        self.filterValueExtractor.isSome = true ∧ client.filteringSupported = false)
      never := by
  unfold publishVersion version
  by_cases hextractor : self.filterValueExtractor.isSome = true
  · rw [if_pos hextractor, if_pos hextractor]
    by_cases hsupported : client.filteringSupported = true
    · rw [if_pos hsupported]
      exact ⟨rfl, rfl, rfl, fun _ => hsupported⟩
    · rw [if_neg hsupported]
      exact ⟨rfl, rfl, rfl, hextractor, by simpa using hsupported⟩
  · rw [if_neg hextractor, if_neg hextractor]
    exact ⟨rfl, rfl, rfl, fun h => absurd h hextractor⟩

theorem publishSequence_spec (client : Client) (stream : String)
    (hkeeps : Keeps base 2 [client.connection] w) :
    ends surroundings (self.publishSequence client stream) w
      (fun trace sequence w' => Keeps base 2 [client.connection] w' ∧
        Resumed client.connection stream self.name trace sequence)
      (fun _ e w' => Keeps base 2 [client.connection] w' ∧ ∃ e', e = .client e')
      never := by
  unfold publishSequence Resumed
  cases self.name with
  | none => exact ⟨hkeeps, rfl, rfl⟩
  | some name =>
    rw [ends_bind, ends_mapErr]
    unfold Client.queryPublisherSequence
    rw [ends_bind]
    refine ends_mono ?_ ?_ (fun _ _ h => h)
      (request_spec (.queryPublisherSequence client.connection name stream) (fun _ => rfl)
        hkeeps (by simp))
    · rintro trace response w₁ ⟨hkeeps₁, answer, rfl, rfl⟩
      exact ⟨hkeeps₁, response, rfl, rfl⟩
    · rintro trace e w₁ ⟨hkeeps₁, -⟩
      exact ⟨hkeeps₁, e, rfl⟩

theorem newAccumulator_spec {ε : Type} (batchSize : UInt64) (w : Leases) :
    ends surroundings (newAccumulator batchSize : Call ε Unit) w
      (fun trace _ w' => trace = [] ∧ w' = w ∧ Roomy batchSize)
      (fun _ _ _ => False) fun trace w' => trace = [] ∧ w' = w ∧ ¬ Roomy batchSize := by
  unfold newAccumulator
  rw [ends_lift]
  by_cases hroomy : Roomy batchSize
  · rw [if_pos hroomy]
    exact Or.inl ⟨(), rfl, rfl, rfl, hroomy⟩
  · rw [if_neg hroomy]
    exact Or.inr ⟨rfl, rfl, rfl, hroomy⟩

/-- **Building**, with a client that has been found.  Line by line: the version of the frames, the
handler, the declaration, the query for the sequence, a look at the code of the declaration, and the
accumulator.  No line opens or closes anything, so the connection is kept through all of them. -/
theorem buildWith_spec (client : Client) (stream : String)
    (hkeeps : Keeps base 2 [client.connection] w) :
    ends surroundings (self.buildWith client stream) w
      (fun trace p w' => Keeps base 2 [client.connection] w' ∧ Roomy self.batchSize ∧
        ∃ sequence, self.Declared client stream sequence trace ∧
          p = self.built client stream self.version sequence)
      (fun trace e w' => Keeps base 2 [client.connection] w' ∧ self.Refused client stream trace e)
      fun trace w' => Keeps base 2 [client.connection] w' ∧ ¬ Roomy self.batchSize ∧
        ∃ sequence, self.Declared client stream sequence trace := by
  unfold buildWith
  rw [ends_bind]
  refine ends_mono ?_ ?_ (fun _ _ h => h.elim) (self.publishVersion_spec client)
  · rintro _ version w₁ ⟨rfl, rfl, rfl, hfilters⟩
    rw [ends_bind, ends_mapErr]
    refine ends_mono ?_ ?_ (fun _ _ h => h.elim)
      (request_spec (.setHandler client.connection .producerConfirm) (fun _ => rfl) hkeeps
        (by simp))
    · rintro _ u w₂ ⟨hkeeps₂, answer, rfl, -⟩
      rw [ends_bind, ends_mapErr]
      refine ends_mono ?_ ?_ (fun _ _ h => h.elim)
        (request_spec (.send client.connection (.declarePublisher 1 self.name stream))
          (fun _ => rfl) hkeeps₂ (by simp))
      · rintro _ response w₃ ⟨hkeeps₃, answer, rfl, rfl⟩
        rw [ends_bind]
        refine ends_mono ?_ ?_ (fun _ _ h => h.elim)
          (self.publishSequence_spec client stream hkeeps₃)
        · rintro queried sequence w₄ ⟨hkeeps₄, hresumed⟩
          by_cases hcode : response.code = .ok
          · have hdeclared : self.Declared client stream sequence
                ([] ++ ([⟨.setHandler client.connection .producerConfirm, ()⟩] ++
                  ([⟨.send client.connection (.declarePublisher 1 self.name stream),
                    .ok response⟩] ++ queried))) :=
              ⟨hfilters, response, queried, rfl, hcode, hresumed⟩
            rw [if_pos hcode, ends_bind]
            refine ends_mono ?_ (fun _ _ _ h => h.elim) ?_ (newAccumulator_spec _ w₄)
            · rintro _ _ w₅ ⟨rfl, rfl, hroomy⟩
              rw [ends_pure, List.append_nil, List.append_nil]
              exact ⟨hkeeps₄, hroomy, sequence, hdeclared, rfl⟩
            · rintro _ w₅ ⟨rfl, rfl, hroomy⟩
              rw [List.append_nil]
              exact ⟨hkeeps₄, hroomy, sequence, hdeclared⟩
          · rw [if_neg hcode, ends_throw]
            exact ⟨hkeeps₄, Or.inr (Or.inl ⟨response, hcode, rfl, by simp⟩)⟩
        · rintro queried e w₄ ⟨hkeeps₄, he⟩
          exact ⟨hkeeps₄, Or.inr (Or.inr he)⟩
      · rintro _ e w₃ ⟨hkeeps₃, -⟩
        exact ⟨hkeeps₃, Or.inr (Or.inr ⟨e, rfl⟩)⟩
    · rintro _ e w₂ ⟨hkeeps₂, -⟩
      exact ⟨hkeeps₂, Or.inr (Or.inr ⟨e, rfl⟩)⟩
  · rintro _ e w₁ ⟨rfl, rfl, he, hextractor, hsupported⟩
    exact ⟨hkeeps, Or.inl ⟨he, hextractor, hsupported, rfl⟩⟩

/-- The first part of a run has found the leader of the stream. -/
def LedTo (stream : String) (front : Trace) (client : Client) : Prop :=
  self.environment.Found (fun m b => b = m.leader) stream
    (self.environment.named self.clientProvidedName) front client

/-- **`ProducerBuilder::build`.** The search and what follows it, each by its specification.  A
search that goes on, or fails, is the end of the call. -/
theorem build_spec (rounds : ℕ) (stream : String) :
    ends surroundings (self.build rounds stream) base
      (fun trace r w' => r.elim
        (∃ connection, Keeps base 2 [connection] w' ∧
          self.environment.Sought (fun m b => b = m.leader) stream rounds trace connection)
        fun p => Keeps base 2 [p.client.connection] w' ∧ Roomy self.batchSize ∧
          ∃ front back sequence, trace = front ++ back ∧ self.LedTo stream front p.client ∧
            self.Declared p.client stream sequence back ∧
              p = self.built p.client stream self.version sequence)
      (fun trace e w' =>
        self.environment.SearchFailed .client (.streamDoesNotExist stream) stream base trace e w' ∨
          ∃ client front back, trace = front ++ back ∧ self.LedTo stream front client ∧
            Keeps base 2 [client.connection] w' ∧ self.Refused client stream back e)
      fun trace w' => ¬ Roomy self.batchSize ∧ ∃ client front back sequence,
        trace = front ++ back ∧ self.LedTo stream front client ∧
          self.Declared client stream sequence back ∧ Keeps base 2 [client.connection] w' := by
  unfold build
  rw [ends_bind]
  refine ends_mono ?_ ?_ (fun _ _ h => h.elim)
    (self.environment.createProducerClient_spec rounds stream self.clientProvidedName)
  · intro front r w₁ hr
    cases r with
    | none =>
      rw [ends_pure, List.append_nil]
      exact hr
    | some client =>
      obtain ⟨hkeeps, hfound⟩ := hr
      rw [ends_bind]
      refine ends_mono ?_ ?_ ?_ (self.buildWith_spec client stream hkeeps)
      · rintro back p w₂ ⟨hkeeps₂, hroomy, sequence, hdeclared, rfl⟩
        rw [ends_pure, List.append_nil]
        exact ⟨hkeeps₂, hroomy, front, back, sequence, rfl, hfound, hdeclared, rfl⟩
      · rintro back e w₂ ⟨hkeeps₂, hrefused⟩
        exact Or.inr ⟨client, front, back, rfl, hfound, hkeeps₂, hrefused⟩
      · rintro back w₂ ⟨hkeeps₂, hroomy, sequence, hdeclared⟩
        exact ⟨hroomy, client, front, back, sequence, rfl, hfound, hdeclared, hkeeps₂⟩
  · intro trace e w₁ he
    exact Or.inl he

/-- A producer with a name, for a stream whose leader is another broker. -/
def sample : ProducerBuilder := { environment := ⟨{}⟩, name := some "p" }

def sampleOpts : ClientOptions := sample.environment.named "rust-stream-producer"

def sampleTrace : Trace :=
  [⟨.createConnection sampleOpts, .ok ⟨0, HashMap.empty⟩⟩,
    ⟨.exchangeCommandVersions 0, .ok ⟨0, .ok, []⟩⟩,
    ⟨.metadata 0 ["s"], .ok ⟨0, [⟨1, "b", 5552⟩], [⟨"s", .ok, 1, []⟩]⟩⟩,
    ⟨.close 0, .ok ()⟩,
    ⟨.createConnection { sampleOpts with host := "b" }, .ok ⟨1, HashMap.empty⟩⟩,
    ⟨.exchangeCommandVersions 1, .ok ⟨0, .ok, []⟩⟩,
    ⟨.setHandler 1 .producerConfirm, ()⟩,
    ⟨.send 1 (.declarePublisher 1 (some "p") "s"), .ok ⟨0, .ok⟩⟩,
    ⟨.queryPublisherSequence 1 "p" "s", .ok ⟨0, .ok, 41⟩⟩]

/-- It goes on behind what the broker has of it, and has the second connection. -/
theorem sample_runs : ∃ w', CallRuns (sample.build 0 "s") Leases.empty sampleTrace
    (.returned (.ok (some (sample.built
      ⟨1, { sampleOpts with host := "b" }, HashMap.empty, false⟩ "s" 1 42)))) w' ∧
      w'.next = 2 ∧ w'.held = [1] :=
  ⟨_, .call ⟨Nat.zero_le _, rfl⟩ <| .call rfl <| .call rfl <| .call rfl <|
    .call ⟨le_refl _, rfl⟩ <| .call rfl <| .call rfl <| .call rfl <| .call rfl .ret, rfl, rfl⟩

end ProducerBuilder

/-! ## 4. What a consumer tells the broker

The keys that the builder sets are found with its values, and all others with those of the
application.  It needs that the keys of the filter values, which end in a number, are all
different. -/

theorem toString_injective {m n : ℕ} (h : toString m = toString n) : m = n := by
  have hdigits : Nat.toDigits 10 m = Nat.toDigits 10 n := by
    rw [← Nat.toList_repr, ← Nat.toList_repr]
    exact congrArg String.toList h
  rw [← @Nat.ofDigitChars_ten_toDigits m, hdigits, Nat.ofDigitChars_ten_toDigits]

theorem filterKey_injective {i j : ℕ} (h : filterKey i = filterKey j) : i = j :=
  toString_injective ((String.append_right_inj "filter.").mp h)

/-- A key that does not begin as the keys of the filter values do. -/
theorem filterKey_ne {key : String} (h : key.toList.take 7 ≠ "filter.".toList) (i : ℕ) :
    key ≠ filterKey i := by
  rintro rfl
  refine h ?_
  rw [filterKey, String.toList_append]
  exact List.take_left' rfl

/-- The loop over the filter values, from an index on.  By induction on the values.  What is put in
under an index is not replaced later on, since the keys of later indices are other keys. -/
theorem get_filterValues (values : List String) (first : ℕ) (properties : HashMap String String) :
    (∀ i v, values[i]? = some v → (((values.zipIdx first).foldl
      (fun properties item => properties.put (filterKey item.2) item.1) properties).get
        (filterKey (first + i))) = some v) ∧
      ∀ key, (∀ i < values.length, key ≠ filterKey (first + i)) →
        ((values.zipIdx first).foldl
          (fun properties item => properties.put (filterKey item.2) item.1) properties).get key =
            properties.get key := by
  induction values generalizing first properties with
  | nil => simp
  | cons value values ih =>
    obtain ⟨hvalues, hothers⟩ := ih (first + 1) (properties.put (filterKey first) value)
    rw [List.zipIdx_cons, List.foldl_cons]
    constructor
    · intro i v hv
      cases i with
      | zero =>
        obtain rfl : value = v := by simpa using hv
        have hlater : ∀ j < values.length, filterKey (first + 0) ≠ filterKey (first + 1 + j) := by
          intro j _ hj
          have := filterKey_injective hj
          omega
        rw [hothers _ hlater, HashMap.get_put, Nat.add_zero, if_pos rfl]
      | succ i =>
        have hrest := hvalues i v (by simpa using hv)
        rwa [Nat.add_right_comm] at hrest
    · intro key hkey
      rw [hothers key fun i hi => ?_, HashMap.get_put, if_neg (by simpa using hkey 0 (by simp))]
      have hnext := hkey (i + 1) (by simpa using hi)
      rwa [Nat.add_right_comm first 1 i]

/-- What the filter adds, and that it changes nothing else. -/
theorem get_withFilter (filterInput : Consumer.FilterConfiguration)
    (properties : HashMap String String) :
    ((withFilter filterInput properties).get "match-unfiltered" =
        some (toString filterInput.matchUnfiltered)) ∧
      (∀ i v, filterInput.filterValues[i]? = some v →
        (withFilter filterInput properties).get (filterKey i) = some v) ∧
      ∀ key, key ≠ "match-unfiltered" →
        (∀ i < filterInput.filterValues.length, key ≠ filterKey i) →
          (withFilter filterInput properties).get key = properties.get key := by
  obtain ⟨hvalues, hothers⟩ := get_filterValues filterInput.filterValues 0 properties
  unfold withFilter
  refine ⟨by rw [HashMap.get_put, if_pos rfl], ?_, ?_⟩
  · intro i v hv
    rw [HashMap.get_put, if_neg (filterKey_ne (by decide) i).symm]
    have hvalue := hvalues i v hv
    rwa [Nat.zero_add] at hvalue
  · intro key hkey hnone
    rw [HashMap.get_put, if_neg hkey]
    exact hothers key (by simpa using hnone)

namespace ConsumerBuilder

variable (self : ConsumerBuilder)

/-- The key is set by the builder, whatever the application has given. -/
def Owns (key : String) : Prop :=
  (self.isSingleActiveConsumer = true ∧ (key = "single-active-consumer" ∨ key = "name")) ∨
    ∃ filterInput, self.filterConfiguration = some filterInput ∧
      (key = "match-unfiltered" ∨ ∃ i < filterInput.filterValues.length, key = filterKey i)

/-- What the properties say to the broker. -/
structure Tells (properties : HashMap String String) : Prop where
  single : self.isSingleActiveConsumer = true →
    properties.get "single-active-consumer" = some "true" ∧
      properties.get "name" = self.consumerName
  filter : ∀ filterInput, self.filterConfiguration = some filterInput →
    properties.get "match-unfiltered" = some (toString filterInput.matchUnfiltered) ∧
      ∀ i v, filterInput.filterValues[i]? = some v → properties.get (filterKey i) = some v
  others : ∀ key, ¬ self.Owns key → properties.get key = self.properties.get key

/-- The properties behind the filter, which are not yet those of a single active consumer. -/
def filtered : HashMap String String :=
  match self.filterConfiguration with
  | some filterInput => withFilter filterInput self.properties
  | none => self.properties

theorem get_filtered_filter {filterInput : Consumer.FilterConfiguration}
    (h : self.filterConfiguration = some filterInput) :
    self.filtered.get "match-unfiltered" = some (toString filterInput.matchUnfiltered) ∧
      ∀ i v, filterInput.filterValues[i]? = some v → self.filtered.get (filterKey i) = some v := by
  obtain ⟨hmatch, hvalues, -⟩ := get_withFilter filterInput self.properties
  rw [filtered, h]
  exact ⟨hmatch, hvalues⟩

theorem get_filtered_others {key : String} (h : ¬ self.Owns key) :
    self.filtered.get key = self.properties.get key := by
  cases hfilter : self.filterConfiguration with
  | none => rw [filtered, hfilter]
  | some filterInput =>
    obtain ⟨-, -, hothers⟩ := get_withFilter filterInput self.properties
    rw [filtered, hfilter]
    refine hothers key (fun hkey => h (Or.inr ⟨_, hfilter, Or.inl hkey⟩)) fun i hi hkey => ?_
    exact h (Or.inr ⟨_, hfilter, Or.inr ⟨i, hi, hkey⟩⟩)

/-- **The properties of a single active consumer.** -/
theorem tells_single {name : String} (hname : self.consumerName = some name)
    (hsingle : self.isSingleActiveConsumer = true) :
    self.Tells (withSingleActive name self.filtered) := by
  have hget : ∀ key, (withSingleActive name self.filtered).get key =
      if key = "name" then some name
      else if key = "single-active-consumer" then some "true" else self.filtered.get key := by
    intro key
    rw [withSingleActive, HashMap.get_put, HashMap.get_put]
  refine ⟨fun _ => ⟨?_, ?_⟩, fun filterInput hfilter => ?_, fun key hkey => ?_⟩
  · rw [hget, if_neg (by decide), if_pos rfl]
  · rw [hget, if_pos rfl, hname]
  · obtain ⟨hmatch, hvalues⟩ := self.get_filtered_filter hfilter
    refine ⟨?_, fun i v hv => ?_⟩
    · rw [hget, if_neg (by decide), if_neg (by decide), hmatch]
    · rw [hget, if_neg (filterKey_ne (by decide) i).symm,
        if_neg (filterKey_ne (by decide) i).symm, hvalues i v hv]
  · rw [hget, if_neg fun h => hkey (Or.inl ⟨hsingle, Or.inr h⟩),
      if_neg fun h => hkey (Or.inl ⟨hsingle, Or.inl h⟩)]
    exact self.get_filtered_others hkey

theorem tells_plain (hsingle : self.isSingleActiveConsumer ≠ true) : self.Tells self.filtered :=
  ⟨fun h => absurd h hsingle, fun _ hfilter => self.get_filtered_filter hfilter,
    fun _ hkey => self.get_filtered_others hkey⟩

/-! ## 5. What building a consumer leaves behind

The same three parts as for a producer, without the panic: the name of a single active consumer
is unwrapped behind a test that it is there. -/

variable {base w : Leases}

/-- The broker has accepted the subscription, behind the handler. -/
structure Subscribed (client : Client) (stream : String) (trace : Trace) : Prop where
  filters : self.filterConfiguration.isSome = true → client.filteringSupported = true
  announced : ∃ response properties,
    trace = [⟨.setHandler client.connection .consumerMessage, ()⟩,
      ⟨.send client.connection (.subscribe 1 stream self.offsetSpecification 1 properties),
        .ok response⟩] ∧ response.code = .ok ∧ self.Tells properties

/-- Why there is no consumer although there is a client. -/
def Refused (client : Client) (stream : String) (trace : Trace) (e : ConsumerCreateError) : Prop :=
  (e = .filteringNotSupport ∧ self.filterConfiguration.isSome = true ∧
      client.filteringSupported = false) ∨
    (∃ response properties, response.code ≠ .ok ∧ e = .create stream response.code ∧
      ⟨.send client.connection (.subscribe 1 stream self.offsetSpecification 1 properties),
        .ok response⟩ ∈ trace) ∨
      ∃ e', e = .client e'

theorem filterProperties_spec (client : Client) (w : Leases) :
    ends surroundings (self.filterProperties client) w
      (fun trace properties w' => trace = [] ∧ w' = w ∧ properties = self.filtered ∧
        (self.filterConfiguration.isSome = true → client.filteringSupported = true))
      (fun trace e w' => trace = [] ∧ w' = w ∧ e = .filteringNotSupport ∧
        self.filterConfiguration.isSome = true ∧ client.filteringSupported = false)
      never := by
  unfold filterProperties filtered
  cases self.filterConfiguration with
  | none => exact ⟨rfl, rfl, rfl, by simp⟩
  | some filterInput =>
    by_cases hsupported : client.filteringSupported = true
    · simp only [if_pos hsupported]
      exact ⟨rfl, rfl, rfl, fun _ => hsupported⟩
    · simp only [if_neg hsupported]
      exact ⟨rfl, rfl, rfl, rfl, by simpa using hsupported⟩

/-- The name is there when it is unwrapped. -/
theorem singleActiveProperties_spec (hname : ¬ self.Nameless) (w : Leases) :
    ends surroundings (self.singleActiveProperties self.filtered) w
      (fun trace properties w' => trace = [] ∧ w' = w ∧ self.Tells properties)
      (fun _ _ _ => False) never := by
  unfold singleActiveProperties
  by_cases hsingle : self.isSingleActiveConsumer = true
  · rw [if_pos hsingle]
    cases hconsumer : self.consumerName with
    | none => exact absurd ⟨Or.inl hsingle, hconsumer⟩ hname
    | some name => exact ⟨rfl, rfl, self.tells_single hconsumer hsingle⟩
  · rw [if_neg hsingle]
    exact ⟨rfl, rfl, self.tells_plain hsingle⟩

/-- **Building**, with a client that has been found.  Line by line, as for a producer: the handler,
the properties, the subscription, and a look at the code of its response. -/
theorem buildWith_spec (hname : ¬ self.Nameless) (client : Client) (stream : String)
    (hkeeps : Keeps base 2 [client.connection] w) :
    ends surroundings (self.buildWith client stream) w
      (fun trace c w' => Keeps base 2 [client.connection] w' ∧ self.Subscribed client stream trace ∧
        c = ⟨client, self.internal stream⟩)
      (fun trace e w' => Keeps base 2 [client.connection] w' ∧ self.Refused client stream trace e)
      never := by
  unfold buildWith
  rw [ends_bind, ends_mapErr]
  refine ends_mono ?_ ?_ (fun _ _ h => h.elim)
    (request_spec (.setHandler client.connection .consumerMessage) (fun _ => rfl) hkeeps
      (by simp))
  · rintro _ u w₁ ⟨hkeeps₁, answer, rfl, -⟩
    rw [ends_bind]
    refine ends_mono ?_ ?_ (fun _ _ h => h.elim) (self.filterProperties_spec client w₁)
    · rintro _ _ w₂ ⟨rfl, rfl, rfl, hfilters⟩
      rw [ends_bind]
      refine ends_mono ?_ (fun _ _ _ h => h.elim) (fun _ _ h => h.elim)
        (self.singleActiveProperties_spec hname w₂)
      rintro _ properties w₃ ⟨rfl, rfl, htells⟩
      rw [ends_bind, ends_mapErr]
      refine ends_mono ?_ ?_ (fun _ _ h => h.elim)
        (request_spec
          (.send client.connection (.subscribe 1 stream self.offsetSpecification 1 properties))
          (fun _ => rfl) hkeeps₁ (by simp))
      · rintro _ response w₄ ⟨hkeeps₄, answer, rfl, rfl⟩
        by_cases hcode : response.code = .ok
        · rw [if_pos hcode, ends_pure]
          exact ⟨hkeeps₄, ⟨hfilters, response, properties, rfl, hcode, htells⟩, rfl⟩
        · rw [if_neg hcode, ends_throw]
          exact ⟨hkeeps₄, Or.inr (Or.inl ⟨response, properties, hcode, rfl, by simp⟩)⟩
      · rintro _ e w₄ ⟨hkeeps₄, -⟩
        exact ⟨hkeeps₄, Or.inr (Or.inr ⟨e, rfl⟩)⟩
    · rintro _ e w₂ ⟨rfl, rfl, he, hfilter, hsupported⟩
      exact ⟨hkeeps₁, Or.inl ⟨he, hfilter, hsupported⟩⟩
  · rintro _ e w₁ ⟨hkeeps₁, -⟩
    exact ⟨hkeeps₁, Or.inr (Or.inr ⟨e, rfl⟩)⟩

/-- The first part of a run has found a connection to read the stream from. -/
def LedTo (stream : String) (front : Trace) (client : Client) : Prop :=
  Environment.Stays stream (self.environment.named self.clientProvidedName) front client ∨
    self.environment.Found (fun m b => b ∈ m.replicas) stream self.environment.options front client

/-- **`ConsumerBuilder::build`.** The test for the name comes first, in front of any connection.
Behind it are the search and what follows it. -/
theorem build_spec (rounds : ℕ) (stream : String) :
    ends surroundings (self.build rounds stream) base
      (fun trace r w' => ¬ self.Nameless ∧ r.elim
        (∃ connection, Keeps base 2 [connection] w' ∧
          self.environment.Sought (fun m b => b ∈ m.replicas) stream rounds trace connection)
        fun c => Keeps base 2 [c.client.connection] w' ∧
          ∃ front back, trace = front ++ back ∧ self.LedTo stream front c.client ∧
            self.Subscribed c.client stream back ∧ c.internal = self.internal stream)
      (fun trace e w' =>
        (self.Nameless ∧ e = .singleActiveConsumerNotSupported ∧ trace = [] ∧ w' = base) ∨
          self.environment.SearchFailed .client (.streamDoesNotExist stream) stream base trace e
              w' ∨
            ∃ client front back, trace = front ++ back ∧ self.LedTo stream front client ∧
              Keeps base 2 [client.connection] w' ∧ self.Refused client stream back e)
      never := by
  unfold build
  by_cases hname : self.Nameless
  · rw [if_pos hname]
    exact Or.inl ⟨hname, rfl, rfl, rfl⟩
  · rw [if_neg hname, ends_bind]
    refine ends_mono ?_ ?_ (fun _ _ h => h.elim)
      (self.environment.createConsumerClient_spec rounds stream self.clientProvidedName)
    · intro front r w₁ hr
      cases r with
      | none =>
        rw [ends_pure, List.append_nil]
        exact ⟨hname, hr⟩
      | some client =>
        obtain ⟨hkeeps, hfound⟩ := hr
        rw [ends_bind]
        refine ends_mono ?_ ?_ (fun _ _ h => h.elim)
          (self.buildWith_spec hname client stream hkeeps)
        · rintro back c w₂ ⟨hkeeps₂, hsubscribed, rfl⟩
          rw [ends_pure, List.append_nil]
          exact ⟨hname, hkeeps₂, front, back, rfl, hfound, hsubscribed, rfl⟩
        · rintro back e w₂ ⟨hkeeps₂, hrefused⟩
          exact Or.inr (Or.inr ⟨client, front, back, rfl, hfound, hkeeps₂, hrefused⟩)
    · intro trace e w₁ he
      exact Or.inr (Or.inl he)

/-- A single active consumer of a stream with one replica. -/
def sample : ConsumerBuilder :=
  { environment := ⟨{}⟩, consumerName := some "c", isSingleActiveConsumer := true }

def sampleTrace : Trace :=
  [⟨.createConnection (sample.environment.named "rust-stream-consumer"), .ok ⟨0, HashMap.empty⟩⟩,
    ⟨.exchangeCommandVersions 0, .ok ⟨0, .ok, []⟩⟩,
    ⟨.metadata 0 ["s"], .ok ⟨0, [⟨1, "b", 5552⟩, ⟨2, "r", 5552⟩], [⟨"s", .ok, 1, [2]⟩]⟩⟩,
    ⟨.draw, 7⟩,
    ⟨.close 0, .ok ()⟩,
    ⟨.createConnection { host := "r" }, .ok ⟨1, HashMap.empty⟩⟩,
    ⟨.exchangeCommandVersions 1, .ok ⟨0, .ok, []⟩⟩,
    ⟨.setHandler 1 .consumerMessage, ()⟩,
    ⟨.send 1 (.subscribe 1 "s" .next 1 (withSingleActive "c" HashMap.empty)), .ok ⟨0, .ok⟩⟩]

end ConsumerBuilder

end RabbitMqStream.Api
