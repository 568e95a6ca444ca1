/-
# Super streams: consuming

`SuperStreamConsumerBuilder::build` makes a consumer for each partition of a super stream, and
`SuperStreamConsumerHandle::close` closes them all.  Both are loops that `unwrap`.

**The consumers.**  Each has a connection of its own.  Building one may end in any way its type has.
When it is closed its flag may be up already, as other tasks raise it at any time: a handle to it
that was closed, or its handler when the connection has ended.

* `build_spec`, `close_spec`: all that the two calls can do.
* `superStreamConsumer_iff`: `build` reports that a partition has no consumer only when there is no
  such partition, and `close` goes through all the consumers to the client only when each of them
  can be closed.
* `close_panics_of_closed`: it panics when the flag of one of its consumers is up.

**The argument.**  Both loops unwrap the result of each round, so they are instances of one rule,
`wp_unwrapAll`: such a loop goes through its whole list or panics at the first error, and what its
trace contains says which.  For building it remains to look at what comes before the loop and
unwraps as well.  For closing, each round is a call of `internal_close`, whose specification is
that of `Client/Close.lean`; since flags only rise, a flag that was up before the loop is up when
the loop comes to it.
-/
import RabbitMqStream.SuperStream.Metadata

namespace RabbitMqStream.SuperStream

open Lts Lts.Program Protocol
open Client.Close (Call CallRuns ClientError CloseError ConsumerCloseError ConsumerHandle Flags Owner
  Refused Succeeded Succeeds closeClient surroundings)

/-! ## 1. Building

Behind the check of its settings the builder makes a client, whose error it returns, and asks
for the partitions, whose error it unwraps.  Then the loop builds one consumer after the other. -/

/-- `SuperStreamConsumerInternal`.  Its flag and its waker are known by the number of its client. -/
structure SuperStreamConsumerInternal : Type where
  handlers : List ConsumerHandle
  client : ℕ

structure SuperStreamConsumerBuilder : Type where
  superStreamConsumerName : Option String
  offsetSpecification : OffsetSpecification
  filterConfiguration : Option Consumer.FilterConfiguration
  consumerUpdateListener : Bool
  clientProvidedName : String
  isSingleActiveConsumer : Bool
  properties : HashMap String String

namespace SuperStreamConsumerBuilder

/-- What each of the consumers is built with. -/
def settings (self : SuperStreamConsumerBuilder) : ConsumerSettings where
  name := self.superStreamConsumerName
  offsetSpecification := self.offsetSpecification
  clientProvidedName := self.clientProvidedName
  filterConfiguration := self.filterConfiguration
  consumerUpdateListener := self.consumerUpdateListener
  properties := self.properties
  isSingleActiveConsumer := self.isSingleActiveConsumer

/-- `build(partition)` of each partition, with `unwrap`. -/
def buildAll (self : SuperStreamConsumerBuilder) (partitions : List String) :
    Query (List ConsumerHandle) :=
  unwrapAll (fun partition => perform (.buildConsumer self.settings partition)) partitions

/-- `SuperStreamConsumerBuilder::build`. -/
def build (self : SuperStreamConsumerBuilder) (superStream : String) :
    Query (Except ConsumerCreateError SuperStreamConsumerInternal × SuperStreamConsumerBuilder) := do
  if (self.isSingleActiveConsumer || self.properties.containsKey "single-active-consumer") &&
      self.superStreamConsumerName.isNone then
    pure (.error .singleActiveConsumerNotSupported, self)
  else do
    let created : Except ClientError ℕ ← perform .createClient
    match created with
    | .error e => pure (.error (.client e), self)
    | .ok client => do
      let (partitions, _) ← Metadata.partitions
        { superStream := superStream, partitions := [], routes := fun _ => none }
      let self := if self.isSingleActiveConsumer then
          { self with properties := self.properties.insert "super-stream" superStream rfl }
        else self
      let handlers ← self.buildAll partitions
      pure (.ok { handlers := handlers, client := client }, self)

end SuperStreamConsumerBuilder

/-- A partition's consumer cannot be built. -/
def ConsumerFails : Event Operation.Answer → Prop
  | ⟨.buildConsumer _ _, .error _⟩ => True
  | _ => False

/-- One of what `build` unwraps is an error. -/
def Fails : Event Operation.Answer → Prop
  | ⟨.partitions _, .error _⟩ | ⟨.buildConsumer _ _, .error _⟩ => True
  | _ => False

theorem ConsumerFails.fails {ev : Event Operation.Answer} (h : ConsumerFails ev) : Fails ev := by
  obtain ⟨op, answer⟩ := ev
  cases op with
  | buildConsumer settings stream =>
    cases answer with
    | error e => trivial
    | ok handle => exact h
  | _ => exact h.elim

/-- **The loop over the partitions** has a consumer for each, or panics at the first that cannot be
built. -/
theorem buildAll_spec (self : SuperStreamConsumerBuilder) (partitions : List String) :
    wp anything (self.buildAll partitions) () fun trace out _ =>
      (∃ handlers, out = .returned handlers ∧ (∀ ev ∈ trace, ¬ Fails ev) ∧
          ∀ stream ∈ partitions, ∃ ev ∈ trace, ∃ answer,
            ev = ⟨.buildConsumer self.settings stream, answer⟩) ∨
        out = .panicked ∧ ∃ ev ∈ trace, Fails ev := by
  have hbody : ∀ partition (w : Unit), True →
      wp anything (perform (.buildConsumer self.settings partition)) w fun trace out _ =>
        True ∧ ∃ result, out = .returned result ∧
          (result.isOk = true ↔ ∀ ev ∈ trace, ¬ Fails ev) ∧
          ∃ ev ∈ trace, ∃ answer, ev = ⟨.buildConsumer self.settings partition, answer⟩ := by
    intro partition _ _ answer _ _
    refine ⟨trivial, answer, rfl, ?_, _, List.mem_singleton_self _, answer, rfl⟩
    cases answer <;> simp [Fails, Except.isOk, Except.toBool]
  refine wp_mono ?_ (wp_unwrapAll hbody partitions trivial)
  rintro trace out - (⟨handlers, rfl, -, hgood, hall⟩ | ⟨rfl, ev, hev, hbad⟩)
  · exact Or.inl ⟨handlers, rfl, hgood, hall⟩
  · exact Or.inr ⟨rfl, ev, hev, not_not.mp hbad⟩

/-- **A call of `build`** ends before it comes to the partitions, or has a consumer for each of
them, or panics: at the query for the partitions, or at the first that has no consumer. -/
theorem build_spec (self : SuperStreamConsumerBuilder) (superStream : String) :
    wp anything (self.build superStream) () fun trace out _ =>
      (∃ e, out = .returned (.error e, self) ∧ ∀ ev ∈ trace, ¬ Fails ev) ∨
        (∃ internal self' response, out = .returned (.ok internal, self') ∧
          (∀ ev ∈ trace, ¬ Fails ev) ∧ ⟨.partitions superStream, .ok response⟩ ∈ trace ∧
          ∀ stream ∈ response.streams, ∃ ev ∈ trace, ∃ answer,
            ev = ⟨.buildConsumer self'.settings stream, answer⟩) ∨
          out = .panicked ∧ ∃ ev ∈ trace, Fails ev := by
  unfold SuperStreamConsumerBuilder.build
  split
  · exact Or.inl ⟨_, rfl, by simp⟩
  · rw [wp_ask]
    intro created _ _
    cases created with
    | error e => exact Or.inl ⟨_, rfl, by simp [Fails]⟩
    | ok client =>
      simp only [wp_bind]
      refine wp_mono ?_ (partitions_spec _)
      rintro trace out - (⟨hne, -, -⟩ | ⟨-, ⟨response, rfl, rfl⟩ | ⟨e, rfl, rfl⟩⟩)
      · exact absurd rfl hne
      · simp only [behind, wp_bind]
        refine wp_mono ?_ (buildAll_spec _ response.streams)
        rintro trace out - (⟨handlers, rfl, hgood, hall⟩ | ⟨rfl, ev, hev, hbad⟩)
        · refine Or.inr (Or.inl ⟨_, _, response, rfl, ?_, by simp, fun stream hstream => ?_⟩)
          · simpa [Fails] using hgood
          · obtain ⟨ev, hev, hbuilt⟩ := hall stream hstream
            exact ⟨ev, by simp [hev], hbuilt⟩
        · exact Or.inr (Or.inr ⟨rfl, ev, by simp [hev], hbad⟩)
      · exact Or.inr (Or.inr ⟨rfl, _, List.mem_cons_of_mem _ (List.mem_singleton_self _), trivial⟩)

/-- When a partition has no consumer, `build` returns an error. -/
def BuildReports (trace : Trace)
    (out : Outcome (Except ConsumerCreateError SuperStreamConsumerInternal ×
      SuperStreamConsumerBuilder)) : Prop :=
  (∃ ev ∈ trace, ConsumerFails ev) → ∃ e self', out = .returned (.error e, self')

theorem buildReports_iff {self : SuperStreamConsumerBuilder} {superStream : String} {trace : Trace}
    {out : Outcome (Except ConsumerCreateError SuperStreamConsumerInternal ×
      SuperStreamConsumerBuilder)} (h : QueryRuns (self.build superStream) trace out) :
    BuildReports trace out ↔ ∀ ev ∈ trace, ¬ ConsumerFails ev := by
  constructor
  · intro hreports ev hev hfails
    obtain ⟨e, self', rfl⟩ := hreports ⟨ev, hev, hfails⟩
    rcases wp_iff.mp (build_spec self superStream) _ _ _ h with
      ⟨e, -, hgood⟩ | ⟨internal, self', response, hout, -⟩ | ⟨hout, -⟩
    · exact hgood ev hev hfails.fails
    · cases hout
    · cases hout
  · rintro hgood ⟨ev, hev, hfails⟩
    exact absurd hfails (hgood ev hev)

/-! ## 2. Closing

The flag of the handle itself, then a consumer at a time, then the client.  Whether a consumer
lets itself be closed is a matter of its own flag, which others may have raised. -/

structure SuperStreamConsumerHandle : Type where
  internal : SuperStreamConsumerInternal

/-- Whose flag, waker and connection those of the handle are. -/
def SuperStreamConsumerHandle.owner (self : SuperStreamConsumerHandle) : Owner :=
  .superStream self.internal.client

/-- `SuperStreamConsumerHandle::close`. -/
def SuperStreamConsumerHandle.close (self : SuperStreamConsumerHandle) :
    Call (Except ConsumerCloseError Unit) := do
  let _ ← Client.Close.perform (.wake self.owner)
  let exchanged : Bool ← Client.Close.perform (.compareExchange self.owner)
  if exchanged then do
    let _ ← unwrapAll ConsumerHandle.internalClose self.internal.handlers
    closeClient self.owner
  else pure (.error .alreadyClosed)

/-- What `close` has asked for, and what it was answered. -/
abbrev CloseTrace : Type := List (Event Client.Close.Operation.Answer)

/-- The event is one of a partition's consumer. -/
def OfConsumer (ev : Event Client.Close.Operation.Answer) : Prop := ∃ n, ev.op.owner = .consumer n

theorem isOk_iff {ε α : Type} {result : Except ε α} : result.isOk = true ↔ Succeeded result := by
  cases result <;> simp [Succeeded, Except.isOk, Except.toBool]

/-- **One round of the loop**: it tries to raise the flag of the consumer.  A flag that was up in the
world `v` before refuses it. -/
theorem internalClose_spec (handle : ConsumerHandle) {v : Flags} :
    ∀ w, v ≤ w → wp surroundings handle.internalClose w fun trace out w' =>
      v ≤ w' ∧ ∃ result, out = .returned result ∧
        (result.isOk = true ↔ ∀ ev ∈ trace, OfConsumer ev → Succeeds ev) ∧
        ∃ ev ∈ trace, (∃ exchanged, ev = ⟨.compareExchange (.consumer handle.number), exchanged⟩) ∧
          (v (.closed (.consumer handle.number)) = true → ¬ (OfConsumer ev → Succeeds ev)) := by
  intro w hw
  refine wp_mono ?_ (wp_and (wp_le Client.Close.surroundings_le _)
    (Client.Close.closeOnce_spec _ _ _ _ w))
  rintro trace out w' ⟨hle, result, rfl, hclosed⟩
  obtain ⟨exchanged, hattempt⟩ := hclosed.attempt
  refine ⟨hw.trans hle, result, rfl, ?_, _, hattempt, ⟨exchanged, rfl⟩, fun hup hgood => ?_⟩
  · rw [isOk_iff, hclosed.succeeded]
    exact forall₂_congr fun ev hev => ⟨fun h _ => h, fun h => h ⟨_, hclosed.own ev hev⟩⟩
  · have hrefused : Refused (.consumer handle.number) trace := by
      by_contra hnot
      have hdown := hclosed.lowered hnot
      rw [Client.Close.raised hw hup] at hdown
      exact absurd hdown (by simp)
    rw [hrefused] at hattempt
    obtain rfl : exchanged = false := by simpa using hattempt
    exact absurd (hgood ⟨_, rfl⟩) (by simp [Succeeds])

theorem not_ofConsumer {self : SuperStreamConsumerHandle}
    {ev : Event Client.Close.Operation.Answer} (h : ev.op.owner = self.owner) :
    ¬ OfConsumer ev := by
  rintro ⟨n, hn⟩
  rw [h] at hn
  cases hn

/-- **A call of `close`** is refused, or goes through all the consumers, whose flags were down, to
the client, or panics: at the first consumer that cannot be closed. -/
theorem close_spec (self : SuperStreamConsumerHandle) (w : Flags) :
    wp surroundings self.close w fun trace out _ =>
      (out = .returned (.error .alreadyClosed) ∧
          trace = [⟨.wake self.owner, ()⟩, ⟨.compareExchange self.owner, false⟩]) ∨
        (∃ result, out = .returned result ∧ (∀ ev ∈ trace, OfConsumer ev → Succeeds ev) ∧
          (∀ handle ∈ self.internal.handlers, w (.closed (.consumer handle.number)) = false ∧
            ∃ exchanged, ⟨.compareExchange (.consumer handle.number), exchanged⟩ ∈ trace) ∧
          ∃ closed, ⟨.channelIsClosed self.owner, closed⟩ ∈ trace) ∨
        out = .panicked ∧ ∃ ev ∈ trace, OfConsumer ev ∧ ¬ Succeeds ev := by
  unfold SuperStreamConsumerHandle.close
  rw [wp_ask]
  intro _ w₁ hw₁
  rw [wp_ask]
  intro exchanged w₂ hw₂
  cases exchanged with
  | false => exact Or.inl ⟨rfl, rfl⟩
  | true =>
    have hle : w ≤ w₂ := (Client.Close.surroundings_le _ _ _ _ hw₁).trans
      (Client.Close.surroundings_le _ _ _ _ hw₂)
    rw [if_pos rfl, wp_bind]
    refine wp_mono ?_ (wp_unwrapAll (internalClose_spec (v := w)) self.internal.handlers hle)
    rintro trace out w₃ (⟨_, rfl, -, hgood, hall⟩ | ⟨rfl, ev, hev, hbad⟩)
    · simp only [behind]
      refine wp_mono ?_ (Client.Close.closeClient_spec self.owner w₃)
      rintro trace' out w₄ ⟨⟨closed, hlook⟩, -, hown, result, rfl, -, -⟩
      refine Or.inr (Or.inl ⟨result, rfl, ?_, ?_, closed, by simp [hlook]⟩)
      · intro ev hev hcons
        rcases List.mem_cons.mp hev with rfl | hev
        · exact absurd hcons (not_ofConsumer rfl)
        · rcases List.mem_cons.mp hev with rfl | hev
          · exact absurd hcons (not_ofConsumer rfl)
          · rcases List.mem_append.mp hev with hev | hev
            · exact hgood ev hev hcons
            · exact absurd hcons (not_ofConsumer (hown ev hev))
      · intro handle hhandle
        obtain ⟨ev, hev, ⟨exchanged, rfl⟩, hup⟩ := hall handle hhandle
        refine ⟨?_, exchanged, by simp [hev]⟩
        by_contra hne
        exact hup (by simpa using hne) (hgood _ hev)
    · simp only [Classical.not_imp] at hbad
      exact Or.inr (Or.inr ⟨rfl, ev, by simp [hev], hbad⟩)

/-- What a call of `close` owes its caller: it does not panic, and unless it is refused it tries to
close every consumer, and the client. -/
structure ClosesAll (handle : SuperStreamConsumerHandle) (trace : CloseTrace)
    (out : Outcome (Except ConsumerCloseError Unit)) : Prop where
  returns : out ≠ .panicked
  all : ⟨.compareExchange handle.owner, false⟩ ∉ trace →
    (∀ consumer ∈ handle.internal.handlers,
      ∃ exchanged, ⟨.compareExchange (.consumer consumer.number), exchanged⟩ ∈ trace) ∧
    ∃ closed, ⟨.channelIsClosed handle.owner, closed⟩ ∈ trace

theorem closesAll_iff {self : SuperStreamConsumerHandle} {w w' : Flags} {trace : CloseTrace}
    {out : Outcome (Except ConsumerCloseError Unit)} (h : CallRuns self.close w trace out w') :
    ClosesAll self trace out ↔ ∀ ev ∈ trace, OfConsumer ev → Succeeds ev := by
  rcases wp_iff.mp (close_spec self w) _ _ _ h with
    ⟨rfl, rfl⟩ | ⟨result, rfl, hgood, hall, hclient⟩ | ⟨rfl, ev, hev, hcons, hbad⟩
  · refine iff_of_true ⟨by simp, fun hnot => absurd (by simp) hnot⟩ ?_
    intro ev hev hcons
    have hown : ev.op.owner = self.owner := by
      rcases List.mem_cons.mp hev with rfl | hev
      · rfl
      · rw [List.mem_singleton.mp hev]
        rfl
    exact absurd hcons (not_ofConsumer hown)
  · exact iff_of_true ⟨by simp, fun _ => ⟨fun handle hhandle => (hall handle hhandle).2, hclient⟩⟩
      hgood
  · exact iff_of_false (fun hcloses => hcloses.returns rfl) fun hgood => hbad (hgood ev hev hcons)

/-- **A consumer that is closed already** makes `close` panic, unless that is refused itself. -/
theorem close_panics_of_closed {self : SuperStreamConsumerHandle} {handle : ConsumerHandle}
    (hhandle : handle ∈ self.internal.handlers) {w w' : Flags}
    (hup : w (.closed (.consumer handle.number)) = true) {trace : CloseTrace}
    {out : Outcome (Except ConsumerCloseError Unit)} (h : CallRuns self.close w trace out w') :
    out = .panicked ∨ out = .returned (.error .alreadyClosed) := by
  rcases wp_iff.mp (close_spec self w) _ _ _ h with
    ⟨rfl, -⟩ | ⟨result, -, -, hall, -⟩ | ⟨rfl, -⟩
  · exact Or.inr rfl
  · have hdown := (hall handle hhandle).1
    rw [hup] at hdown
    exact absurd hdown (by simp)
  · exact Or.inl rfl

/-- **The error paths of a super stream consumer.**  `build` reports every partition that has no
consumer exactly when each of them has one, and `close` does not panic and goes through all the
consumers to the client exactly when everything it does to the consumers succeeds: it finds their
flags down, `Unsubscribe` is answered with `Ok`, and their clients close.

Each part compares the events of the run with the outcome: a panic has an error in the trace, and
an error in the trace at which something is unwrapped is a panic. -/
theorem superStreamConsumer_iff {builder : SuperStreamConsumerBuilder} {superStream : String}
    {trace : Trace} {out : Outcome (Except ConsumerCreateError SuperStreamConsumerInternal ×
      SuperStreamConsumerBuilder)}
    {handle : SuperStreamConsumerHandle} {w w' : Flags} {trace' : CloseTrace}
    {out' : Outcome (Except ConsumerCloseError Unit)}
    (hbuild : QueryRuns (builder.build superStream) trace out)
    (hclose : CallRuns handle.close w trace' out' w') :
    (BuildReports trace out ↔ ∀ ev ∈ trace, ¬ ConsumerFails ev) ∧
      (ClosesAll handle trace' out' ↔ ∀ ev ∈ trace', OfConsumer ev → Succeeds ev) :=
  ⟨buildReports_iff hbuild, closesAll_iff hclose⟩

/-! ## 3. Two partitions -/

/-- The consumer of a partition of `invoices`. -/
def partitionHandle (n : ℕ) (stream : String) : ConsumerHandle where
  number := n
  internal := { name := none, stream := stream, offsetSpecification := .next }

def sampleBuilder : SuperStreamConsumerBuilder where
  superStreamConsumerName := none
  offsetSpecification := .next
  filterConfiguration := none
  consumerUpdateListener := false
  clientProvidedName := "rust-super-stream-consumer"
  isSingleActiveConsumer := false
  properties := HashMap.empty

/-- A handle whose client has the number 2. -/
def sampleConsumer (handlers : List ConsumerHandle) : SuperStreamConsumerHandle where
  internal := { handlers := handlers, client := 2 }

/-- A super stream of one partition, where everything succeeds. -/
theorem superStreamConsumer_iff_open :
    ∃ (trace : Trace) (trace' : CloseTrace),
      BuildReports trace
          (.returned (.ok (sampleConsumer [partitionHandle 0 "invoices-0"]).internal,
            sampleBuilder)) ∧
        ClosesAll (sampleConsumer [partitionHandle 0 "invoices-0"]) trace' (.returned (.ok ())) := by
  have hbuild : QueryRuns (sampleBuilder.build "invoices")
      [⟨.createClient, .ok 2⟩, ⟨.partitions "invoices", .ok ⟨7, .ok, ["invoices-0"]⟩⟩,
        ⟨.buildConsumer sampleBuilder.settings "invoices-0", .ok (partitionHandle 0 "invoices-0")⟩]
      (.returned (.ok (sampleConsumer [partitionHandle 0 "invoices-0"]).internal, sampleBuilder)) :=
    .call may_answer (.call may_answer (.call may_answer .ret))
  have hclose : CallRuns (sampleConsumer [partitionHandle 0 "invoices-0"]).close .down
      [⟨.wake (.superStream 2), ()⟩, ⟨.compareExchange (.superStream 2), true⟩,
        ⟨.compareExchange (.consumer 0), true⟩,
        ⟨.request (.consumer 0) (.unsubscribe 1), .ok ⟨7, .ok⟩⟩, ⟨.wake (.consumer 0), ()⟩,
        ⟨.channelIsClosed (.consumer 0), false⟩,
        ⟨.closeRequest (.consumer 0) .ok "Ok", .ok ⟨8, .ok⟩⟩, ⟨.takeHeartbeat (.consumer 0), ()⟩,
        ⟨.channelClose (.consumer 0), .ok ()⟩, ⟨.channelIsClosed (.superStream 2), false⟩,
        ⟨.closeRequest (.superStream 2) .ok "Ok", .ok ⟨9, .ok⟩⟩,
        ⟨.takeHeartbeat (.superStream 2), ()⟩, ⟨.channelClose (.superStream 2), .ok ()⟩]
      (.returned (.ok ())) _ :=
    .call ⟨_, le_refl _, rfl⟩ (.call ⟨_, le_refl _, rfl, rfl⟩ (.call ⟨_, le_refl _, rfl, rfl⟩
      (.call ⟨_, le_refl _, rfl⟩ (.call ⟨_, le_refl _, rfl⟩ (.call ⟨_, le_refl _, rfl, rfl⟩
      (.call ⟨_, le_refl _, rfl⟩ (.call ⟨_, le_refl _, rfl⟩ (.call ⟨_, le_refl _, rfl⟩
      (.call ⟨_, le_refl _, rfl, rfl⟩ (.call ⟨_, le_refl _, rfl⟩ (.call ⟨_, le_refl _, rfl⟩
      (.call ⟨_, le_refl _, rfl⟩ .ret))))))))))))
  obtain ⟨hreports, hcloses⟩ := superStreamConsumer_iff hbuild hclose
  refine ⟨_, _, hreports.mpr ?_, hcloses.mpr ?_⟩
  · simp [ConsumerFails]
  · simp [Succeeds, Client.Close.Granted, Succeeded]

def twoPartitions : SuperStreamConsumerHandle :=
  sampleConsumer [partitionHandle 0 "invoices-0", partitionHandle 1 "invoices-1"]

/-- Nothing was done to the consumer of the second partition, nor to the client. -/
def StopsAtFirst (trace : CloseTrace) : Prop :=
  (∀ ev ∈ trace, ev.op.owner ≠ .consumer 1) ∧
    ∀ closed, ⟨.channelIsClosed (.superStream 2), closed⟩ ∉ trace

/-- The consumer of the second partition cannot be built: `build` panics.  The connection of the
first one has ended, or its `Unsubscribe` is refused: `close` panics, and comes neither to the
second one nor to the client. -/
theorem superStreamConsumer_panics :
    (∃ trace, QueryRuns (sampleBuilder.build "invoices") trace .panicked ∧
        ⟨.partitions "invoices", .ok ⟨7, .ok, ["invoices-0", "invoices-1"]⟩⟩ ∈ trace ∧
        ¬ BuildReports trace .panicked) ∧
      (∃ trace w', CallRuns twoPartitions.close (Flags.down.raise (.closed (.consumer 0))) trace
          .panicked w' ∧ StopsAtFirst trace ∧ ¬ ClosesAll twoPartitions trace .panicked) ∧
      ∃ trace w', CallRuns twoPartitions.close .down trace .panicked w' ∧
        ⟨.request (.consumer 0) (.unsubscribe 1), .ok ⟨7, .subscriptionIdDoesNotExist⟩⟩ ∈ trace ∧
        StopsAtFirst trace ∧ ¬ ClosesAll twoPartitions trace .panicked := by
  have hbuild : QueryRuns (sampleBuilder.build "invoices")
      [⟨.createClient, .ok 2⟩,
        ⟨.partitions "invoices", .ok ⟨7, .ok, ["invoices-0", "invoices-1"]⟩⟩,
        ⟨.buildConsumer sampleBuilder.settings "invoices-0", .ok (partitionHandle 0 "invoices-0")⟩,
        ⟨.buildConsumer sampleBuilder.settings "invoices-1",
          .error (.streamDoesNotExist "invoices-1")⟩]
      .panicked :=
    .call may_answer (.call may_answer (.call may_answer (.call may_answer .panic)))
  have hended : CallRuns twoPartitions.close (Flags.down.raise (.closed (.consumer 0)))
      [⟨.wake (.superStream 2), ()⟩, ⟨.compareExchange (.superStream 2), true⟩,
        ⟨.compareExchange (.consumer 0), false⟩] .panicked _ :=
    .call ⟨_, le_refl _, rfl⟩ (.call ⟨_, le_refl _, rfl, rfl⟩
      (.call ⟨_, le_refl _, rfl, rfl⟩ .panic))
  have hrefused : CallRuns twoPartitions.close .down
      [⟨.wake (.superStream 2), ()⟩, ⟨.compareExchange (.superStream 2), true⟩,
        ⟨.compareExchange (.consumer 0), true⟩,
        ⟨.request (.consumer 0) (.unsubscribe 1), .ok ⟨7, .subscriptionIdDoesNotExist⟩⟩]
      .panicked _ :=
    .call ⟨_, le_refl _, rfl⟩ (.call ⟨_, le_refl _, rfl, rfl⟩
      (.call ⟨_, le_refl _, rfl, rfl⟩ (.call ⟨_, le_refl _, rfl⟩ .panic)))
  refine ⟨⟨_, hbuild, by simp, fun hreports => ?_⟩,
    ⟨_, _, hended, ?_, fun h => h.returns rfl⟩,
    ⟨_, _, hrefused, by simp, ?_, fun h => h.returns rfl⟩⟩
  · obtain ⟨e, self', hout⟩ := hreports ⟨⟨.buildConsumer sampleBuilder.settings "invoices-1",
      .error (.streamDoesNotExist "invoices-1")⟩, by simp, trivial⟩
    cases hout
  · simp [StopsAtFirst, Client.Close.Operation.owner]
  · simp [StopsAtFirst, Client.Close.Operation.owner]

end RabbitMqStream.SuperStream
