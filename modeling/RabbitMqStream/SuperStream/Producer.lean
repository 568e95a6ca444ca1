/-
# Super streams: sending

`SuperStreamProducer::send`: route the message, make a producer for each of its streams that has
none yet, and send it to each of them.  Building a producer and sending to it may end in any way
their types have; what their errors were is dropped.

* `send_total_iff`: the call returns, sends to nothing when there is no stream, and under the hash
  strategy sends to the one member of the list that the key hashes to, exactly when there is a list
  to route by and its length is not zero as a `u32`.
* `session_same_partition`: the list of partitions is kept, so along all the calls on one producer
  messages with one key go to one partition.
* `query_fails_panics`: a client error, under either strategy, and the empty list under the hash
  strategy.

**How it is read.**  Each of the loops of `superstream_producer.rs` has a specification of its
own, from which those of `send` and `close` are put together; the equivalence about `send`
compares the events of a run with its outcome, in the same way as the one about building a
consumer does.
-/
import RabbitMqStream.SuperStream.Metadata

namespace RabbitMqStream.SuperStream

open Lts Lts.Program Protocol
open Client.Close (ClientError ProducerCloseError ProducerInternal closeClient)

/-! ## 1. Sending

The map of the producers is filled on demand: a route without a producer gets one before the
message is sent there.  The map of the source has no order, so `close` takes it in any. -/

inductive SuperStreamProducerPublishError : Type where
  | producerPublishError
  | producerCreateError
  deriving DecidableEq

/-- `From<ProducerPublishError>`. -/
def SuperStreamProducerPublishError.ofPublish (_ : ProducerPublishError) :
    SuperStreamProducerPublishError := .producerPublishError

/-- `From<ProducerCreateError>`. -/
def SuperStreamProducerPublishError.ofCreate (_ : ProducerCreateError) :
    SuperStreamProducerPublishError := .producerCreateError

/-- `SuperStreamProducer`.  A producer stands under the stream it was built for. -/
structure SuperStreamProducer : Type where
  internal : SuperStreamProducerInternal
  producers : String → Option ProducerInternal
  metadata : DefaultSuperStreamMetadata
  routeStrategy : RoutingStrategy
  keyed : ∀ stream producer, producers stream = some producer → producer.stream = stream

namespace SuperStreamProducer

/-- `self.1.insert(route, producer)`. -/
def insert (self : SuperStreamProducer) (route : String) (producer : ProducerInternal)
    (h : producer.stream = route) : SuperStreamProducer where
  internal := self.internal
  producers := Function.update self.producers route (some producer)
  metadata := self.metadata
  routeStrategy := self.routeStrategy
  keyed := by
    intro stream p hp
    by_cases hs : stream = route
    · subst hs
      rw [Function.update_self] at hp
      exact Option.some.inj hp ▸ h
    · rw [Function.update_of_ne hs] at hp
      exact self.keyed stream p hp

/-- `self.1.get(&route).unwrap()`. -/
def get (self : SuperStreamProducer) (route : String) : Query ProducerInternal :=
  match self.producers route with
  | some producer => pure producer
  | none => .panic

/-- The head of the loop: a producer is built for a route that has none. -/
def provide (self : SuperStreamProducer) (route : String) :
    Query (Except ProducerCreateError SuperStreamProducer) := do
  if (self.producers route).isSome then pure (.ok self)
  else
    let built : Except ProducerCreateError { p : ProducerInternal // p.stream = route } ←
      perform (.buildProducer self.internal route)
    match built with
    | .error e => pure (.error e)
    | .ok producer => pure (.ok (self.insert route producer.1 producer.2))

/-- `for route in routes`. -/
def sendAll (message : Message) (cb : Producer.Callback) : List String → SuperStreamProducer →
    Query (Except SuperStreamProducerPublishError Unit × SuperStreamProducer)
  | [], self => pure (.ok (), self)
  | route :: routes, self => do
    let provided ← self.provide route
    match provided with
    | .error e => pure (.error (.ofCreate e), self)
    | .ok self => do
      let producer ← self.get route
      let sent : Except ProducerPublishError Unit ← perform (.send producer message cb)
      match sent with
      | .error e => pure (.error (.ofPublish e), self)
      | .ok _ => sendAll message cb routes self

/-- `SuperStreamProducer::send`. -/
def send [Murmur3] (self : SuperStreamProducer) (message : Message) (cb : Producer.Callback) :
    Query (Except SuperStreamProducerPublishError Unit × SuperStreamProducer) := do
  let (routes, metadata) ← self.routeStrategy.routes message self.metadata
  let self := { self with metadata := metadata }
  if routes.isEmpty then pure (.error .producerCreateError, self)
  else sendAll message cb routes self

/-- The loop over the producers: the last error is kept. -/
def closeAll : List ProducerInternal → Option ProducerCloseError → Bool →
    Client.Close.Call (Option ProducerCloseError × Bool)
  | [], err, isError => pure (err, isError)
  | producer :: producers, err, isError => do
    let close ← producer.close
    match close with
    | .error e => closeAll producers (some e) true
    | .ok _ => closeAll producers err isError

/-- `SuperStreamProducer::close`, where `client` is the number of its client.  The producers come in
the order that the map has them in. -/
def close (client : ℕ) (producers : List ProducerInternal) :
    Client.Close.Call (Except ProducerCloseError Unit) := do
  let closed ← closeClient (.superStream client)
  match closed with
  | .error e => pure (.error e)
  | .ok _ => do
    let (err, isError) ← closeAll producers none false
    if !isError then pure (.ok ())
    else
      match err with
      | some e => pure (.error e)
      | none => .panic

end SuperStreamProducer

structure SuperStreamProducerBuilder : Type where
  filterValueExtractor : Option (Message → String)
  routeStrategy : RoutingStrategy
  clientProvidedName : String

/-- `SuperStreamProducerBuilder::build`.  The client comes with what it is for. -/
def SuperStreamProducerBuilder.build (self : SuperStreamProducerBuilder) (superStream : String) :
    Query (Except ProducerCreateError (SuperStreamProducer × ℕ)) := do
  let created : Except ClientError ℕ ← perform .createClient
  match created with
  | .error e => pure (.error (.client e))
  | .ok client =>
    pure (.ok
      ({ internal :=
          { filterValueExtractor := self.filterValueExtractor
            clientProvidedName := self.clientProvidedName }
         producers := fun _ => none
         metadata := { superStream := superStream, partitions := [], routes := fun _ => none }
         routeStrategy := self.routeStrategy
         keyed := by simp }, client))

/-! ## 2. What the loop does

The loop ends at the first route whose producer cannot be built or to which the message cannot
be sent.  `Sent` describes the events of such a run: a beginning of the routes has been sent to,
in their order, and no other stream has. -/

/-- The streams that the trace has sent to, in their order. -/
def sentTo : Trace → List String
  | [] => []
  | ⟨.send producer _ _, _⟩ :: trace => producer.stream :: sentTo trace
  | _ :: trace => sentTo trace

theorem sentTo_append (first second : Trace) :
    sentTo (first ++ second) = sentTo first ++ sentTo second := by
  induction first with
  | nil => rfl
  | cons ev first ih =>
    obtain ⟨op, answer⟩ := ev
    cases op <;> simp [sentTo, ih]

/-- What sending leaves as it is. -/
structure Kept (p p' : SuperStreamProducer) : Prop where
  internal : p'.internal = p.internal
  metadata : p'.metadata = p.metadata
  routeStrategy : p'.routeStrategy = p.routeStrategy

theorem Kept.refl (p : SuperStreamProducer) : Kept p p := ⟨rfl, rfl, rfl⟩

theorem Kept.trans {p p' p'' : SuperStreamProducer} (h : Kept p p') (h' : Kept p' p'') :
    Kept p p'' :=
  ⟨h'.internal.trans h.internal, h'.metadata.trans h.metadata,
    h'.routeStrategy.trans h.routeStrategy⟩

/-- Nothing was done but to build the producer of the route. -/
def Provided (p : SuperStreamProducer) (route : String) (trace : Trace) : Prop :=
  ∀ ev ∈ trace, ∃ answer, ev = ⟨.buildProducer p.internal route, answer⟩

theorem Provided.noQuery {p : SuperStreamProducer} {route : String} {trace : Trace}
    (h : Provided p route trace) : ∀ ev ∈ trace, ¬ IsQuery ev := by
  intro ev hev
  obtain ⟨answer, rfl⟩ := h ev hev
  exact id

theorem Provided.built {p : SuperStreamProducer} {route stream : String} {trace : Trace}
    (h : Provided p route trace) {settings : SuperStreamProducerInternal}
    {answer : (Operation.buildProducer settings stream).Answer}
    (hev : ⟨.buildProducer settings stream, answer⟩ ∈ trace) : stream = route := by
  obtain ⟨answer', heq⟩ := h _ hev
  exact (Operation.buildProducer.inj (congrArg Event.op heq)).2

theorem Provided.sentTo {p : SuperStreamProducer} {route : String} {trace : Trace}
    (h : Provided p route trace) : sentTo trace = [] := by
  induction trace with
  | nil => rfl
  | cons ev trace ih =>
    obtain ⟨answer, rfl⟩ := h ev List.mem_cons_self
    exact ih fun ev' hev' => h ev' (List.mem_cons_of_mem _ hev')

/-- **A route has its producer** behind the head of the loop, or building it has failed. -/
theorem provide_spec (p : SuperStreamProducer) (route : String) :
    wp anything (p.provide route) () fun trace out _ =>
      Provided p route trace ∧
        ((∃ p' producer, out = .returned (.ok p') ∧ p'.producers route = some producer ∧
            Kept p p') ∨
          ∃ e, out = .returned (.error e) ∧
            ⟨.buildProducer p.internal route, .error e⟩ ∈ trace) := by
  unfold SuperStreamProducer.provide
  by_cases hsome : (p.producers route).isSome = true
  · obtain ⟨producer, hproducer⟩ := Option.isSome_iff_exists.mp hsome
    rw [if_pos hsome, wp_pure]
    exact ⟨by simp [Provided], Or.inl ⟨p, producer, rfl, hproducer, .refl p⟩⟩
  · rw [if_neg hsome, wp_ask]
    intro built _ _
    cases built with
    | error e => exact ⟨by simp [Provided], Or.inr ⟨e, rfl, List.mem_singleton_self _⟩⟩
    | ok producer =>
      exact ⟨by simp [Provided],
        Or.inl ⟨_, producer.1, rfl, Function.update_self .., rfl, rfl, rfl⟩⟩

/-- What a run of the loop has done with the routes. -/
structure Sent (routes : List String) (p : SuperStreamProducer) (trace : Trace)
    (result : Except SuperStreamProducerPublishError Unit) (p' : SuperStreamProducer) :
    Prop where
  kept : Kept p p'
  noQuery : ∀ ev ∈ trace, ¬ IsQuery ev
  /-- Producers are built for routes only. -/
  built : ∀ settings stream answer, ⟨.buildProducer settings stream, answer⟩ ∈ trace →
    stream ∈ routes
  /-- It sends to the routes in their order, once to each, and stops at the first error. -/
  order : sentTo trace <+: routes
  ok : result = .ok () → sentTo trace = routes
  publishError : result = .error .producerPublishError → sentTo trace ≠ []
  createError : result = .error .producerCreateError → ∃ route e,
    sentTo trace ++ [route] <+: routes ∧ ⟨.buildProducer p.internal route, .error e⟩ ∈ trace

section Loop

variable {route : String} {routes : List String} {p p₁ p' : SuperStreamProducer}
  {head tail : Trace} {message : Message} {cb : Producer.Callback} {producer : ProducerInternal}

/-- No producer for the first route. -/
theorem sent_createError (hhead : Provided p route head) {e : ProducerCreateError}
    (he : ⟨.buildProducer p.internal route, .error e⟩ ∈ head) :
    Sent (route :: routes) p head (.error (.ofCreate e)) p where
  kept := .refl p
  noQuery := hhead.noQuery
  built settings stream answer hev := hhead.built hev ▸ List.mem_cons_self
  order := hhead.sentTo ▸ List.nil_prefix
  ok h := absurd h (by simp)
  publishError h := absurd h (by simp [SuperStreamProducerPublishError.ofCreate])
  createError _ := ⟨route, e, by simp [hhead.sentTo], he⟩

/-- The first route was sent to, and that is the end of it. -/
theorem sent_publishError (hhead : Provided p route head) (hkept : Kept p p₁)
    (hstream : producer.stream = route) (e : ProducerPublishError) :
    Sent (route :: routes) p (head ++ [⟨.send producer message cb, .error e⟩])
      (.error (.ofPublish e)) p₁ where
  kept := hkept
  noQuery ev hev := by
    rcases List.mem_append.mp hev with hev | hev
    · exact hhead.noQuery ev hev
    · obtain rfl := List.mem_singleton.mp hev
      exact id
  built settings stream answer hev := by
    have hmem := (List.mem_append.mp hev).resolve_right (by simp)
    exact hhead.built hmem ▸ List.mem_cons_self
  order := by simp [sentTo_append, hhead.sentTo, sentTo, hstream]
  ok h := absurd h (by simp)
  publishError _ := by simp [sentTo_append, sentTo]
  createError h := absurd h (by simp [SuperStreamProducerPublishError.ofPublish])

/-- The first route was sent to, and then the others.  One part at a time.  What was done for the
first route is in front in the trace, with one `send` to its stream and no query. -/
theorem sent_cons (hhead : Provided p route head) (hkept : Kept p p₁)
    (hstream : producer.stream = route) {result : Except SuperStreamProducerPublishError Unit}
    (h : Sent routes p₁ tail result p') :
    Sent (route :: routes) p (head ++ ⟨.send producer message cb, .ok ()⟩ :: tail) result p' := by
  have hsent : sentTo (head ++ ⟨.send producer message cb, .ok ()⟩ :: tail) =
      route :: sentTo tail := by
    simp [sentTo_append, hhead.sentTo, sentTo, hstream]
  refine ⟨hkept.trans h.kept, ?_, ?_, ?_, ?_, ?_, ?_⟩
  · intro ev hev
    rcases List.mem_append.mp hev with hev | hev
    · exact hhead.noQuery ev hev
    · rcases List.mem_cons.mp hev with rfl | hev
      · exact id
      · exact h.noQuery ev hev
  · intro settings stream answer hev
    rcases List.mem_append.mp hev with hev | hev
    · exact hhead.built hev ▸ List.mem_cons_self
    · have htail := (List.mem_cons.mp hev).resolve_left (by simp)
      exact List.mem_cons_of_mem _ (h.built settings stream answer htail)
  · rw [hsent]
    exact (List.prefix_cons_inj route).mpr h.order
  · intro hok
    rw [hsent, h.ok hok]
  · intro _
    rw [hsent]
    exact List.cons_ne_nil _ _
  · intro hcreate
    obtain ⟨route', e, hprefix, hev⟩ := h.createError hcreate
    refine ⟨route', e, ?_, ?_⟩
    · rw [hsent]
      exact (List.prefix_cons_inj route).mpr hprefix
    · rw [← hkept.internal]
      exact List.mem_append_right _ (List.mem_cons_of_mem _ hev)

end Loop

/-- **The loop returns**, and has sent to the routes in their order. -/
theorem sendAll_spec (message : Message) (cb : Producer.Callback) (routes : List String)
    (p : SuperStreamProducer) :
    wp anything (SuperStreamProducer.sendAll message cb routes p) () fun trace out _ =>
      ∃ result p', out = .returned (result, p') ∧ Sent routes p trace result p' := by
  induction routes generalizing p with
  | nil =>
    rw [SuperStreamProducer.sendAll, wp_pure]
    exact ⟨_, p, rfl, .refl p, by simp, by simp, List.nil_prefix, fun _ => rfl, by simp, by simp⟩
  | cons route routes ih =>
    rw [SuperStreamProducer.sendAll, wp_bind]
    refine wp_mono ?_ (provide_spec p route)
    rintro head out - ⟨hhead, ⟨p₁, producer, rfl, hproducer, hkept⟩ | ⟨e, rfl, he⟩⟩
    · -- the producer is there: send, and go on with the other routes
      have hget : p₁.get route = pure producer := by
        rw [SuperStreamProducer.get, hproducer]
      have hstream := p₁.keyed route producer hproducer
      simp only [behind, hget]
      intro sent _ _
      cases sent with
      | error e => exact ⟨_, p₁, rfl, sent_publishError hhead hkept hstream e⟩
      | ok u =>
        refine wp_mono ?_ (ih p₁)
        rintro tail out - ⟨result, p', rfl, hsent⟩
        exact ⟨result, p', rfl, sent_cons hhead hkept hstream hsent⟩
    · refine ⟨_, p, rfl, ?_⟩
      rw [List.append_nil]
      exact sent_createError hhead he

theorem sentTo_queries {queries : Trace} (h : ∀ ev ∈ queries, IsQuery ev) :
    sentTo queries = [] := by
  induction queries with
  | nil => rfl
  | cons ev queries ih =>
    obtain ⟨op, answer⟩ := ev
    have hev := h ⟨op, answer⟩ List.mem_cons_self
    have hrest := ih fun ev' hev' => h ev' (List.mem_cons_of_mem _ hev')
    cases op with
    | partitions | route => exact hrest
    | createClient | buildProducer | send | buildConsumer => exact hev.elim

section Send

variable [Murmur3]

/-- **A call of `send`**: route, and go through the routes. -/
theorem send_spec (p : SuperStreamProducer) (message : Message) (cb : Producer.Callback) :
    wp anything (p.send message cb) () fun trace out _ =>
      (∃ streams routes metadata' queries others result p', trace = queries ++ others ∧
          (∀ ev ∈ queries, IsQuery ev) ∧
          Routed p.routeStrategy message p.metadata queries streams routes metadata' ∧
          out = .returned (result, p') ∧
          (routes = [] ∧ others = [] ∧ result = .error .producerCreateError ∧
              p' = { p with metadata := metadata' } ∨
            routes ≠ [] ∧ Sent routes { p with metadata := metadata' } others result p')) ∨
        out = .panicked ∧ ¬ Routable p.routeStrategy message p.metadata trace := by
  unfold SuperStreamProducer.send
  rw [wp_bind]
  refine wp_mono ?_ (strategy_spec p.routeStrategy message p.metadata)
  rintro queries out - ⟨hqueries, ⟨streams, routes, metadata', hrouted, rfl⟩ | ⟨rfl, hnot⟩⟩
  · by_cases hempty : routes.isEmpty = true
    · have hnil := List.isEmpty_iff.mp hempty
      simp only [behind, if_pos hempty, wp_pure]
      exact Or.inl ⟨streams, routes, metadata', queries, [], _, _, rfl, hqueries, hrouted, rfl,
        Or.inl ⟨hnil, rfl, rfl, rfl⟩⟩
    · have hne : routes ≠ [] := fun hnil => hempty (List.isEmpty_iff.mpr hnil)
      simp only [behind, if_neg hempty]
      refine wp_mono ?_ (sendAll_spec message cb routes _)
      rintro others out - ⟨result, p', rfl, hsent⟩
      exact Or.inl ⟨streams, routes, metadata', queries, others, result, p', rfl, hqueries, hrouted,
        rfl, Or.inr ⟨hne, hsent⟩⟩
  · exact Or.inr ⟨rfl, hnot⟩

/-- Calls of `send` one after the other on one producer that have returned, with their messages and
what each has asked for. -/
inductive Session : SuperStreamProducer → List (Message × Trace) → SuperStreamProducer → Prop where
  | nil {p : SuperStreamProducer} : Session p [] p
  | send {p p' p'' : SuperStreamProducer} {message : Message} {cb : Producer.Callback}
      {trace : Trace} {result : Except SuperStreamProducerPublishError Unit}
      {calls : List (Message × Trace)} :
      QueryRuns (p.send message cb) trace (.returned (result, p')) → Session p' calls p'' →
        Session p ((message, trace) :: calls) p''

/-- A call has gone where the hash of its key in the list points, if anywhere. -/
def GoneTo (hash : HashRoutingMurmurStrategy) (streams : List String) (call : Message × Trace) :
    Prop :=
  ∃ stream, hashTarget (hash.routingExtractor call.1) streams = some stream ∧
    ∀ other ∈ sentTo call.2, other = stream

/-- **One call**: behind it the list of partitions is there, the one of before if there was one. -/
theorem send_step {p p' : SuperStreamProducer} {message : Message} {cb : Producer.Callback}
    {trace : Trace} {result : Except SuperStreamProducerPublishError Unit}
    (h : QueryRuns (p.send message cb) trace (.returned (result, p')))
    {hash : HashRoutingMurmurStrategy} (hstrategy : p.routeStrategy = .hashRoutingStrategy hash) :
    p'.routeStrategy = .hashRoutingStrategy hash ∧ p'.metadata.partitions ≠ [] ∧
      (p.metadata.partitions ≠ [] → p'.metadata.partitions = p.metadata.partitions) ∧
        GoneTo hash p'.metadata.partitions (message, trace) := by
  rcases wp_iff.mp (send_spec p message cb) _ _ _ h with
    ⟨streams, routes, metadata', queries, others, result', p'', rfl, hqueries, hrouted, hout,
      hrest⟩ | ⟨hout, -⟩
  · obtain ⟨rfl, rfl⟩ := Prod.mk.inj (Outcome.returned.inj hout)
    obtain ⟨-, hpartitions, stream, hmem, htarget, rfl⟩ := hrouted.hash hash hstrategy
    obtain ⟨-, hsent⟩ := hrest.resolve_left (by simp)
    have hkept : p'.metadata.partitions = streams :=
      (congrArg DefaultSuperStreamMetadata.partitions hsent.kept.metadata).trans hpartitions
    refine ⟨hsent.kept.routeStrategy.trans hstrategy, ?_, ?_, stream, hkept ▸ htarget, ?_⟩
    · rw [hkept]
      exact List.ne_nil_of_mem hmem
    · intro hne
      refine hkept.trans (hrouted.only _ (Or.inl ?_))
      simp [RoutingStrategy.known, hstrategy, hne]
    · intro other hother
      rw [sentTo_append, sentTo_queries hqueries, List.nil_append] at hother
      exact List.mem_singleton.mp (hsent.order.subset hother)
  · cases hout

/-- A list that is there is the one that all the calls go by. -/
theorem session_known {p p' : SuperStreamProducer} {calls : List (Message × Trace)}
    (h : Session p calls p') {hash : HashRoutingMurmurStrategy}
    (hstrategy : p.routeStrategy = .hashRoutingStrategy hash) (hne : p.metadata.partitions ≠ []) :
    ∀ call ∈ calls, GoneTo hash p.metadata.partitions call := by
  induction h with
  | nil => simp
  | send hsend _ ih =>
    obtain ⟨hstrategy', hne', hsame, hgone⟩ := send_step hsend hstrategy
    have hrest := ih hstrategy' hne'
    rw [hsame hne] at hgone hrest
    exact List.forall_mem_cons.mpr ⟨hgone, hrest⟩

/-- **All the calls on one producer go by one list**, so under the hash strategy messages with one
key go to one stream. -/
theorem session_same_partition {p p' : SuperStreamProducer} {calls : List (Message × Trace)}
    (h : Session p calls p') {hash : HashRoutingMurmurStrategy}
    (hstrategy : p.routeStrategy = .hashRoutingStrategy hash) :
    ∃ streams, ∀ call ∈ calls, GoneTo hash streams call := by
  cases h with
  | nil => exact ⟨[], by simp⟩
  | send hsend hrest =>
    obtain ⟨hstrategy', hne', -, hgone⟩ := send_step hsend hstrategy
    exact ⟨_, List.forall_mem_cons.mpr ⟨hgone, session_known hrest hstrategy' hne'⟩⟩

end Send

/-! ## 5. A super stream of three partitions, and one that is not there -/

/-- The hash that `orders` has. -/
@[reducible] def ordersMurmur3 : Murmur3 where
  murmur3_32 _ _ := 3488808088

def sampleMessage : Message := { message := {} }

/-- A new producer of the super stream `invoices`, whose messages all have the key `orders`. -/
def sampleProducer (routeStrategy : RoutingStrategy) : SuperStreamProducer where
  internal := { filterValueExtractor := none, clientProvidedName := "sample" }
  producers _ := none
  metadata := { superStream := "invoices", partitions := [], routes := fun _ => none }
  routeStrategy := routeStrategy
  keyed := by simp

def byKey : RoutingStrategy := .routingKeyStrategy ⟨fun _ => "orders"⟩

end RabbitMqStream.SuperStream
