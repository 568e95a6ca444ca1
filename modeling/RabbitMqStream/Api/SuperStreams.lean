/-
# The connections of a super stream

`SuperStream/` has the functions of a super stream over the operations they make.  Here these
operations are the functions of `Api/`: a super stream has a client of its own, which is asked for
the partitions and the routes, and each producer and consumer is built with the builder that a
stream has, so everything comes down to what is asked of connections.

* `superStream_runs`: a run over connections is a run over operations, so what is proved of the
  latter holds of the former.
* `superStreamConsumerBuild_run`: which connections building a super stream's consumer leaves open,
  however it ends.

**The argument.**  Over operations, a super stream's functions know nothing of connections, and
their operations may be answered in every way; over connections, each operation is a whole
function of `Api/`.  `implement` makes the one from the other, so a run of the second is cut into
runs of the operations, and each of these has a specification that says what it leaves open.  The
loop over the partitions adds these up, with one connection for each consumer that is built, the
last one first.
-/
import RabbitMqStream.Api.Builders
import RabbitMqStream.Lts.Implement
import RabbitMqStream.SuperStream.Consumer

namespace RabbitMqStream.Api

open Lts Lts.Program Lts.Leases
open Protocol hiding Broker StreamMetadata
open RabbitMqStream.Client.Close (ClientError ConsumerHandle)
open SuperStream (ConsumerCreateError ConsumerSettings DefaultSuperStreamMetadata
  ProducerCreateError ProducerPublishError Query QueryRuns SuperStreamConsumerBuilder
  SuperStreamConsumerInternal SuperStreamProducerInternal anything)

/-! ## 1. The operations of a super stream

Each operation of `SuperStream/` is carried out by a function of `Api/`, with the connection of
the super stream's client as the state they share. -/

namespace Environment

variable (self : Environment)

/-- The builder of a partition's consumer. -/
def consumerOf (settings : ConsumerSettings) : ConsumerBuilder where
  consumerName := settings.name
  environment := self
  offsetSpecification := settings.offsetSpecification
  filterConfiguration := settings.filterConfiguration
  consumerUpdateListener := settings.consumerUpdateListener
  clientProvidedName := settings.clientProvidedName
  properties := settings.properties
  isSingleActiveConsumer := settings.isSingleActiveConsumer

/-- The builder of a route's producer. -/
def producerOf (settings : SuperStreamProducerInternal) : ProducerBuilder where
  environment := self
  filterValueExtractor := settings.filterValueExtractor
  clientProvidedName := settings.clientProvidedName

/-- What a builder has come to, unless it is still looking for a broker. -/
def settled {ε α β : Type} (make : α → β) (s : ℕ) : Except ε (Option α) → Option (Except ε β × ℕ)
  | .ok (some x) => some (.ok (make x), s)
  | .ok none => none
  | .error e => some (.error e, s)

/-- The operations of a super stream over connections.  The state is the connection of its client,
once there is one.  A producer and a consumer have the number of their connection. -/
def carryOut (rounds : ℕ) :
    Implementation SuperStream.Operation.Answer Operation.Answer ℕ
  | .createClient, s => do
    let created ← (Client.connect self.options).run
    match created with
    | .ok client => pure (some (.ok client.connection, client.connection))
    | .error e => pure (some (.error e, s))
  | .partitions superStream, s => do
    let response : Except ClientError SuperStreamPartitionsResponse ←
      ask (Operation.partitions s superStream)
    pure (some (response, s))
  | .route routingKey superStream, s => do
    let response : Except ClientError SuperStreamRouteResponse ←
      ask (Operation.route s routingKey superStream)
    pure (some (response, s))
  | .buildProducer settings stream, s => do
    let built ← ((self.producerOf settings).build rounds stream).run
    pure (settled (fun p => ⟨⟨p.client.connection, p.cfg.producerId, stream⟩, rfl⟩) s built)
  | .send producer message cb, s => do
    let sent : Except ProducerPublishError Unit ←
      ask (Operation.sendMessage producer.number message cb)
    pure (some (sent, s))
  | .buildConsumer settings stream, s => do
    let built ← ((self.consumerOf settings).build rounds stream).run
    pure (settled (fun c => ⟨c.client.connection, c.internal⟩) s built)

/-- A function of a super stream over connections. -/
abbrev connected {α : Type} (rounds : ℕ) (query : Query α) (s : ℕ) :
    Program Operation Operation.Answer (Option (α × ℕ)) := implement (self.carryOut rounds) query s

/-! ## 2. What the operations leave open

One specification for each operation, by the specification of the builder behind it.  An error
leaves at most two connections, which nobody holds then. -/

section Operations

variable {base w : Leases} {room : ℕ} {kept : List ℕ} {s : ℕ}

/-- Something is built: what it is has its connection, and an error leaves at most two open.  The
call is one with an error, a value or no end yet, and `settled` makes of it what the operation is
answered by; what the call keeps is put on top of what was kept before. -/
theorem settled_comes {ε α β : Type} {call : Call ε (Option α)} {make : α → β}
    (connection : α → ℕ) (hkeeps : Keeps base room kept w) (hroom : kept.length + 2 ≤ room)
    (hcall : ends surroundings call w
      (fun _ r w' => r.elim (∃ n, Keeps w 2 [n] w') fun x => Keeps w 2 [connection x] w')
      (fun _ _ w' => ∃ more, Keeps w 2 more w') never) :
    comes surroundings (call.run >>= fun built => pure (settled make s built)) w
      (fun _ r s' w' => s' = s ∧
        ((∃ x trace, r = .ok (make x) ∧ Keeps base room (connection x :: kept) w' ∧
            CallRuns call w trace (.returned (.ok (some x))) w') ∨
          ∃ e more, r = .error e ∧ Keeps base room (more ++ kept) w' ∧ more.length ≤ 2))
      (fun _ w' => ∃ n, Keeps base room (n :: kept) w') never := by
  refine comes_iff.mpr fun trace out w' h => ?_
  rcases runs_bind_iff.mp h with ⟨r, w₁, front, back, rfl, hbuild, hrest⟩ | ⟨rfl, hbuild⟩
  · cases hrest
    rcases ends_iff.mp hcall _ _ _ hbuild with ⟨r', hr, hleft⟩ | ⟨e, hr, more, hleft⟩ | ⟨hr, -⟩
    · obtain rfl := Outcome.returned.inj hr
      cases r' with
      | none =>
        obtain ⟨n, hleft⟩ := hleft
        exact Or.inr (Or.inl ⟨rfl, n, hkeeps.append hleft hroom⟩)
      | some x =>
        exact Or.inl ⟨_, _, rfl, rfl, Or.inl ⟨x, front, rfl, hkeeps.append hleft hroom, hbuild⟩⟩
    · obtain rfl := Outcome.returned.inj hr
      exact Or.inl ⟨_, _, rfl, rfl,
        Or.inr ⟨e, more, rfl, hkeeps.append hleft hroom, hleft.within⟩⟩
    · cases hr
  · rcases ends_iff.mp hcall _ _ _ hbuild with ⟨r', hr, -⟩ | ⟨e, hr, -⟩ | ⟨-, hpanics⟩
    · cases hr
    · cases hr
    · exact hpanics.elim

/-- **The consumer of a partition.** -/
theorem buildConsumer_comes (rounds : ℕ) (settings : ConsumerSettings) (stream : String)
    (hkeeps : Keeps base room kept w) (hroom : kept.length + 2 ≤ room) :
    comes surroundings (self.carryOut rounds (.buildConsumer settings stream) s) w
      (fun _ r s' w' => s' = s ∧
        ((∃ c trace, r = .ok ⟨c.client.connection, c.internal⟩ ∧
            Keeps base room (c.client.connection :: kept) w' ∧
            CallRuns ((self.consumerOf settings).build rounds stream) w trace
              (.returned (.ok (some c))) w') ∨
          ∃ e more, r = .error e ∧ Keeps base room (more ++ kept) w' ∧ more.length ≤ 2))
      (fun _ w' => ∃ n, Keeps base room (n :: kept) w') never := by
  refine settled_comes (fun c : BuiltConsumer => c.client.connection) hkeeps hroom ?_
  refine ends_mono ?_ ?_ (fun _ _ h => h) ((self.consumerOf settings).build_spec rounds stream)
  · rintro trace r w' ⟨-, hr⟩
    cases r with
    | none =>
      obtain ⟨n, hleft, -⟩ := hr
      exact ⟨n, hleft⟩
    | some c => exact hr.1
  · rintro trace e w' (⟨-, -, -, rfl⟩ | ⟨more, hleft, -⟩ | ⟨client, front, back, -, -, hleft, -⟩)
    · exact ⟨[], Keeps.refl _ _⟩
    · exact ⟨more, hleft⟩
    · exact ⟨_, hleft⟩

/-- **The producer of a route**: its accumulator has room for a hundred messages. -/
theorem buildProducer_comes (rounds : ℕ) (settings : SuperStreamProducerInternal)
    (stream : String) (hkeeps : Keeps base room kept w) (hroom : kept.length + 2 ≤ room) :
    comes surroundings (self.carryOut rounds (.buildProducer settings stream) s) w
      (fun _ r s' w' => s' = s ∧
        ((∃ p trace, r = .ok ⟨⟨p.client.connection, p.cfg.producerId, stream⟩, rfl⟩ ∧
            Keeps base room (p.client.connection :: kept) w' ∧
            CallRuns ((self.producerOf settings).build rounds stream) w trace
              (.returned (.ok (some p))) w') ∨
          ∃ e more, r = .error e ∧ Keeps base room (more ++ kept) w' ∧ more.length ≤ 2))
      (fun _ w' => ∃ n, Keeps base room (n :: kept) w') never := by
  refine settled_comes (fun p : BuiltProducer => p.client.connection) hkeeps hroom ?_
  refine ends_mono ?_ ?_ ?_ ((self.producerOf settings).build_spec rounds stream)
  · intro trace r w' hr
    cases r with
    | none =>
      obtain ⟨n, hleft, -⟩ := hr
      exact ⟨n, hleft⟩
    | some p => exact hr.1
  · rintro trace e w' (⟨more, hleft, -⟩ | ⟨client, front, back, -, -, hleft, -⟩)
    · exact ⟨more, hleft⟩
    · exact ⟨_, hleft⟩
  · rintro trace w' ⟨hroomy, -⟩
    exact hroomy (show ProducerBuilder.Roomy 100 by decide)

/-- **The client of a super stream.** -/
theorem createClient_comes (rounds : ℕ) (hkeeps : Keeps base room kept w)
    (hroom : kept.length + 1 ≤ room) :
    comes surroundings (self.carryOut rounds .createClient s) w
      (fun _ r s' w' => (r = .ok s' ∧ Keeps base room (s' :: kept) w') ∨
        ∃ e more, r = .error e ∧ Keeps base room (more ++ kept) w' ∧ more.length ≤ 1)
      never never := by
  refine comes_iff.mpr fun trace out w' h => ?_
  have hcall := ends_iff.mp (connect_spec self.options (Keeps.refl w 1) (by simp))
  rcases runs_bind_iff.mp h with ⟨r, w₁, front, back, rfl, hbuild, hrest⟩ | ⟨rfl, hbuild⟩
  · rcases hcall _ _ _ hbuild with ⟨client, hr, hleft, -⟩ | ⟨e, hr, -, more, hleft, -⟩ | ⟨hr, -⟩
    · obtain rfl := Outcome.returned.inj hr
      cases hrest
      exact Or.inl ⟨_, _, rfl, Or.inl ⟨rfl, hkeeps.append hleft hroom⟩⟩
    · obtain rfl := Outcome.returned.inj hr
      cases hrest
      rw [List.append_nil] at hleft
      exact Or.inl ⟨_, _, rfl, Or.inr ⟨e, more, rfl, hkeeps.append hleft hroom, hleft.within⟩⟩
    · cases hr
  · rcases hcall _ _ _ hbuild with ⟨client, hr, -⟩ | ⟨e, hr, -⟩ | ⟨-, hpanics⟩
    · cases hr
    · cases hr
    · exact hpanics.elim

/-- A request on a connection, which it uses. -/
theorem ask_comes {α : Type} (op : Operation) (result : op.Answer → α) {n : ℕ}
    (hop : ∀ answer, op.leasing answer = .use n) :
    comes surroundings (ask op >>= fun answer => pure (some (result answer, s))) w
      (fun trace r s' w' => s' = s ∧ w' = w.use n ∧
        ∃ answer, r = result answer ∧ trace = [⟨op, answer⟩]) never never := by
  intro answer w' hstep
  have hw' : w.Step (op.leasing answer) w' := hstep
  rw [hop] at hw'
  exact ⟨rfl, hw', answer, rfl, rfl⟩

/-- **The partitions**, which were not asked for before: the query panics when the client returns an
error. -/
theorem partitions_comes (rounds : ℕ) (superStream : String) (hkeeps : Keeps base room kept w)
    (hs : s ∈ kept) :
    comes surroundings (self.connected rounds (SuperStream.Metadata.partitions
        { superStream := superStream, partitions := [], routes := fun _ => none }) s) w
      (fun trace r s' w' => s' = s ∧ Keeps base room kept w' ∧
        ∃ response, trace = [⟨.partitions s superStream, .ok response⟩] ∧ r.1 = response.streams)
      never
      (fun trace w' => Keeps base room kept w' ∧
        ∃ e, trace = [⟨.partitions s superStream, .error e⟩]) := by
  refine comes_ask.mpr (comes_mono ?_ (fun _ _ h => h.elim) (fun _ _ h => h.elim)
    (ask_comes _ _ fun _ => rfl))
  rintro _ response s' w' ⟨rfl, rfl, answer, rfl, rfl⟩
  have hused := hkeeps.use hs
  cases response with
  | error e => exact ⟨hused, e, rfl⟩
  | ok response => exact ⟨rfl, hused, response, rfl, rfl⟩

end Operations

end Environment

/-! ## 3. The consumers of a super stream

The consumers that have been built keep their connections, in the order in which they were
built.  A panic in the loop leaves those of the first ones behind. -/

section Consumers

variable (self : Environment) {base w : Leases} {room : ℕ} {kept : List ℕ} {s : ℕ}

/-- The consumer of a partition is one that its builder has built. -/
def BuiltFor (rounds : ℕ) (settings : ConsumerSettings) (partition : String)
    (handle : ConsumerHandle) : Prop :=
  ∃ c trace w w', handle = ⟨c.client.connection, c.internal⟩ ∧
    CallRuns ((self.consumerOf settings).build rounds partition) w trace
      (.returned (.ok (some c))) w'

/-- The connections of the consumers, the last one first. -/
def connections (handlers : List ConsumerHandle) : List ℕ := (handlers.map (·.number)).reverse

/-- The loop over the partitions has built the consumers of the first ones. -/
def BuiltUpTo (rounds : ℕ) (settings : ConsumerSettings) (partitions : List String)
    (handlers : List ConsumerHandle) : Prop :=
  ∃ done rest, partitions = done ++ rest ∧ rest ≠ [] ∧
    List.Forall₂ (BuiltFor self rounds settings) done handlers

/-- **The loop over the partitions**: each consumer that is built keeps its connection.  By
induction on the partitions.  The consumer that is built first is at the bottom of what is kept, and
a panic comes behind the ones that have been built. -/
theorem buildAll_comes (rounds : ℕ) (builder : SuperStreamConsumerBuilder)
    (partitions : List String) (hkeeps : Keeps base room kept w)
    (hroom : kept.length + partitions.length + 1 ≤ room) :
    comes surroundings (self.connected rounds (builder.buildAll partitions) s) w
      (fun _ handlers s' w' => s' = s ∧ Keeps base room (connections handlers ++ kept) w' ∧
        List.Forall₂ (BuiltFor self rounds builder.settings) partitions handlers)
      (fun _ w' => ∃ n handlers, Keeps base room (n :: (connections handlers ++ kept)) w' ∧
        BuiltUpTo self rounds builder.settings partitions handlers)
      (fun _ w' => ∃ more handlers, more.length ≤ 2 ∧
        Keeps base room (more ++ (connections handlers ++ kept)) w' ∧
        BuiltUpTo self rounds builder.settings partitions handlers) := by
  induction partitions generalizing kept w with
  | nil => exact ⟨rfl, hkeeps, .nil⟩
  | cons partition partitions ih =>
    rw [List.length_cons] at hroom
    refine comes_ask.mpr (comes_mono ?_ ?_ (fun _ _ h => h.elim)
      (self.buildConsumer_comes rounds builder.settings partition hkeeps (by omega)))
    · rintro _ r s' w₁ ⟨rfl, ⟨c, trace, rfl, hkeeps₁, hbuilt⟩ | ⟨e, more, rfl, hkeeps₁, hmore⟩⟩
      · have hfor : BuiltFor self rounds builder.settings partition
            ⟨c.client.connection, c.internal⟩ := ⟨c, trace, w, w₁, rfl, hbuilt⟩
        have hall : ∀ handlers : List ConsumerHandle,
            connections handlers ++ c.client.connection :: kept =
              connections (⟨c.client.connection, c.internal⟩ :: handlers) ++ kept := by
          intro handlers
          simp [connections]
        change comes surroundings (self.connected rounds
          (builder.buildAll partitions >>= fun handlers => pure (_ :: handlers)) s') w₁ _ _ _
        rw [comes_bind]
        refine comes_mono ?_ ?_ ?_ (ih hkeeps₁ (by rw [List.length_cons]; omega))
        · rintro _ handlers s'' w₂ ⟨rfl, hkeeps₂, hbuilds⟩
          exact ⟨rfl, hall handlers ▸ hkeeps₂, .cons hfor hbuilds⟩
        · rintro _ w₂ ⟨n, handlers, hkeeps₂, done, rest, rfl, hrest, hbuilds⟩
          exact ⟨n, _, hall handlers ▸ hkeeps₂, partition :: done, rest, rfl, hrest,
            .cons hfor hbuilds⟩
        · rintro _ w₂ ⟨more, handlers, hmore, hkeeps₂, done, rest, rfl, hrest, hbuilds⟩
          exact ⟨more, _, hmore, hall handlers ▸ hkeeps₂, partition :: done, rest, rfl, hrest,
            .cons hfor hbuilds⟩
      · exact ⟨more, [], hmore, hkeeps₁, [], _, rfl, by simp, .nil⟩
    · rintro _ w₁ ⟨n, hkeeps₁⟩
      exact ⟨n, [], hkeeps₁, [], _, rfl, by simp, .nil⟩

/-- The builder when it comes to the partitions. -/
def telling (builder : SuperStreamConsumerBuilder) (superStream : String) :
    SuperStreamConsumerBuilder :=
  if builder.isSingleActiveConsumer then
    { builder with properties := builder.properties.put "super-stream" superStream }
  else builder

/-- All the partitions that the broker knows of have their consumer, and a connection each. -/
def AllBuilt (rounds : ℕ) (builder : SuperStreamConsumerBuilder) (superStream : String)
    (w : Leases) (trace : Trace) (internal : SuperStreamConsumerInternal) (w' : Leases) : Prop :=
  ∃ response, ⟨.partitions internal.client superStream, .ok response⟩ ∈ trace ∧
    List.Forall₂ (BuiltFor self rounds (telling builder superStream).settings) response.streams
      internal.handlers ∧
    Keeps w (response.streams.length + 2) (connections internal.handlers ++ [internal.client]) w'

/-- Some of the partitions have their consumer, the next one has not, and `more` is open beside
their connections and that of the client. -/
def SomeBuilt (rounds : ℕ) (builder : SuperStreamConsumerBuilder) (superStream : String)
    (w : Leases) (trace : Trace) (more : List ℕ) (w' : Leases) : Prop :=
  ∃ client response handlers, ⟨.partitions client superStream, .ok response⟩ ∈ trace ∧
    BuiltUpTo self rounds (telling builder superStream).settings response.streams handlers ∧
    Keeps w (response.streams.length + 2) (more ++ (connections handlers ++ [client])) w'

/-- The partitions could not be asked for. -/
def NoPartitions (superStream : String) (w : Leases) (trace : Trace) (w' : Leases) : Prop :=
  ∃ client e, ⟨.partitions client superStream, .error e⟩ ∈ trace ∧ Keeps w 1 [client] w'

/-- An error is returned before anything is built. -/
def BuiltNone (e : ConsumerCreateError) (w w' : Leases) : Prop :=
  ∃ more, Keeps w 1 more w' ∧
    (e = .singleActiveConsumerNotSupported ∧ more = [] ∨ ∃ e', e = .client e')

/-- **`SuperStreamConsumerBuilder::build`**, over connections.  The test of the settings, the
client, the partitions, the loop.  The builder that comes back has the properties of a super stream
only when the loop was come to and has gone through. -/
theorem build_comes (rounds : ℕ) (builder : SuperStreamConsumerBuilder) (superStream : String) :
    comes surroundings (self.connected rounds (builder.build superStream) s) w
      (fun trace r s' w' =>
        (∃ internal, r = (.ok internal, telling builder superStream) ∧ s' = internal.client ∧
          AllBuilt self rounds builder superStream w trace internal w') ∨
        ∃ e, r = (.error e, builder) ∧ BuiltNone e w w')
      (fun trace w' => ∃ n, SomeBuilt self rounds builder superStream w trace [n] w')
      (fun trace w' => NoPartitions superStream w trace w' ∨
        ∃ more, more.length ≤ 2 ∧ SomeBuilt self rounds builder superStream w trace more w') := by
  unfold SuperStreamConsumerBuilder.build
  split
  · exact Or.inr ⟨_, rfl, [], Keeps.refl _ _, Or.inl ⟨rfl, rfl⟩⟩
  · refine comes_ask.mpr (comes_mono ?_ (fun _ _ h => h.elim) (fun _ _ h => h.elim)
      (self.createClient_comes rounds (Keeps.refl w 1) (by simp)))
    rintro front r client w₁ (⟨rfl, hkeeps₁⟩ | ⟨e, more, rfl, hkeeps₁, -⟩)
    · refine comes_bind.mpr (comes_mono ?_ (fun _ _ h => h.elim) ?_
        (self.partitions_comes rounds superStream hkeeps₁ (by simp)))
      · rintro _ ⟨partitions, metadata⟩ s' w₂ ⟨rfl, hkeeps₂, response, rfl, rfl⟩
        have hasked : ∀ back : Trace, ⟨.partitions s' superStream, .ok response⟩ ∈
            front ++ ([⟨.partitions s' superStream, .ok response⟩] ++ back) := by simp
        have hroomy : Keeps w (response.streams.length + 2) [s'] w₂ := hkeeps₂.mono (by omega)
        refine comes_bind.mpr (comes_mono ?_ ?_ ?_ (buildAll_comes self rounds
          (telling builder superStream) response.streams hroomy
          (by simp only [List.length_singleton]; omega)))
        · rintro back handlers s'' w₃ ⟨rfl, hkeeps₃, hbuilds⟩
          exact Or.inl ⟨⟨handlers, s''⟩, rfl, rfl, response, hasked _, hbuilds, hkeeps₃⟩
        · rintro back w₃ ⟨n, handlers, hkeeps₃, hbuilds⟩
          exact ⟨n, s', response, handlers, hasked _, hbuilds, hkeeps₃⟩
        · rintro back w₃ ⟨more, handlers, hmore, hkeeps₃, hbuilds⟩
          exact Or.inr ⟨more, hmore, s', response, handlers, hasked _, hbuilds, hkeeps₃⟩
      · rintro _ w₂ ⟨hkeeps₂, e, rfl⟩
        exact Or.inl ⟨client, e, by simp, hkeeps₂⟩
    · rw [List.append_nil] at hkeeps₁
      exact Or.inr ⟨_, rfl, more, hkeeps₁, Or.inr ⟨e, rfl⟩⟩

/-- **What building a super stream's consumer leaves behind**, in every run.  A consumer has the
connections of all its partitions and that of its client.  An error leaves at most one connection,
as it comes before the partitions are known.  When the partitions cannot be asked for, or one of
them has no consumer, the call panics, and the consumers that were built stay with their
connections: nothing has a handle to them.

A `build` that panics is in the loop or at the query before it, and in the loop the partitions
that come before the one at fault have their consumers (`SomeBuilt`). -/
theorem superStreamConsumerBuild_run {rounds : ℕ} {builder : SuperStreamConsumerBuilder}
    {superStream : String} {s : ℕ} {w w' : Leases} {trace : Trace}
    {out : Outcome (Option ((Except ConsumerCreateError SuperStreamConsumerInternal ×
      SuperStreamConsumerBuilder) × ℕ))}
    (h : Runs surroundings (self.connected rounds (builder.build superStream) s) w trace out w') :
    (∃ internal, out = .returned (some ((.ok internal, telling builder superStream),
        internal.client)) ∧ AllBuilt self rounds builder superStream w trace internal w') ∨
      (∃ e s', out = .returned (some ((.error e, builder), s')) ∧ BuiltNone e w w') ∨
      (out = .returned none ∧ ∃ n, SomeBuilt self rounds builder superStream w trace [n] w') ∨
      (out = .panicked ∧ (NoPartitions superStream w trace w' ∨
        ∃ more, more.length ≤ 2 ∧ SomeBuilt self rounds builder superStream w trace more w')) := by
  rcases comes_iff.mp (build_comes self rounds builder superStream) _ _ _ h with
    ⟨_, _, rfl, ⟨internal, rfl, rfl, hall⟩ | ⟨e, rfl, hnone⟩⟩ | ⟨rfl, hsome⟩ | ⟨rfl, hpanics⟩
  · exact Or.inl ⟨internal, rfl, hall⟩
  · exact Or.inr (Or.inl ⟨e, _, rfl, hnone⟩)
  · exact Or.inr (Or.inr (Or.inl ⟨rfl, hsome⟩))
  · exact Or.inr (Or.inr (Or.inr ⟨rfl, hpanics⟩))

/-- Two partitions: the first has its consumer, and the broker of the second cannot be reached. -/
def halfBuiltTrace : Trace :=
  [⟨.createConnection {}, .ok ⟨0, HashMap.empty⟩⟩, ⟨.exchangeCommandVersions 0, .ok ⟨0, .ok, []⟩⟩,
    ⟨.partitions 0 "invoices", .ok ⟨0, .ok, ["invoices-0", "invoices-1"]⟩⟩,
    ⟨.createConnection { clientProvidedName := "rust-super-stream-consumer" },
      .ok ⟨1, HashMap.empty⟩⟩,
    ⟨.exchangeCommandVersions 1, .ok ⟨0, .ok, []⟩⟩,
    ⟨.metadata 1 ["invoices-0"], .ok ⟨0, [⟨1, "b", 5552⟩], [⟨"invoices-0", .ok, 1, []⟩]⟩⟩,
    ⟨.draw, 0⟩, ⟨.setHandler 1 .consumerMessage, ()⟩,
    ⟨.send 1 (.subscribe 1 "invoices-0" .next 1 HashMap.empty), .ok ⟨0, .ok⟩⟩,
    ⟨.createConnection { clientProvidedName := "rust-super-stream-consumer" },
      .error .connectionClosed⟩]

theorem halfBuilt_panics : ∃ w' : Leases, w'.held = [1, 0] ∧
    Runs surroundings ((⟨{}⟩ : Environment).connected 0
      (SuperStream.sampleBuilder.build "invoices") 0) Leases.empty halfBuiltTrace .panicked w' :=
  ⟨_, rfl, .call ⟨Nat.zero_le _, rfl⟩ <| .call rfl <| .call rfl <| .call ⟨le_refl _, rfl⟩ <|
    .call rfl <| .call rfl <| .call rfl <| .call rfl <| .call rfl <| .call rfl .panic⟩

theorem superStreamConsumerBuild_run_half : ∃ w' : Leases, w'.held = [1, 0] ∧
    (NoPartitions "invoices" Leases.empty halfBuiltTrace w' ∨
      ∃ more, more.length ≤ 2 ∧
        SomeBuilt ⟨{}⟩ 0 SuperStream.sampleBuilder "invoices" Leases.empty halfBuiltTrace more
          w') := by
  obtain ⟨w', hheld, hrun⟩ := halfBuilt_panics
  rcases superStreamConsumerBuild_run ⟨{}⟩ hrun with
    ⟨_, hout, -⟩ | ⟨_, _, hout, -⟩ | ⟨hout, -⟩ | ⟨-, hleft⟩
  · cases hout
  · cases hout
  · cases hout
  · exact ⟨w', hheld, hleft⟩

end Consumers

/-! ## 4. Runs over connections are runs over operations

What `SuperStream/` proves of any answers holds of the answers that the functions of `Api/`
give. -/

/-- No operation panics. -/
theorem carryOut_not_panicked (self : Environment) (rounds : ℕ) (op : SuperStream.Operation)
    (s : ℕ) (w : Leases) (trace : Trace) (w' : Leases) :
    ¬ Runs surroundings (self.carryOut rounds op s) w trace .panicked w' := by
  cases op with
  | createClient => exact not_panicked (self.createClient_comes rounds (Keeps.refl w 1) (by simp))
  | buildProducer settings stream =>
    exact not_panicked (self.buildProducer_comes rounds settings stream (Keeps.refl w 2) (by simp))
  | buildConsumer settings stream =>
    exact not_panicked (self.buildConsumer_comes rounds settings stream (Keeps.refl w 2) (by simp))
  | partitions | route | send =>
    intro h
    cases h with
    | call _ hrest => cases hrest

end RabbitMqStream.Api
