/-
# A super stream's producer and its connections

A super stream's producer opens a connection when it is built and one more for each stream that it
comes to send to, and `close` is to give them all back.

* `Holding`: the connections are that of the client, one for each stream with a producer, and what
  sends that have failed left open.
* `send_comes`: every call of `send` that returns keeps to it.
* `superStreamProducer_life`: from `build` over any number of sends to `close`, in every run.

**The argument.**  The map of a super stream's producer has one entry for each stream it has sent
to, in some order, so what is held is said up to order (`Holding`).  A send may add an entry, and
then a connection; when the builder fails, what it has opened is held by nobody, and is counted
apart.  The sends are followed by an induction on their number.  `close` goes through the entries
in any order and gives back those it can close.
-/
import RabbitMqStream.Api.Closing
import RabbitMqStream.SuperStream.Producer

namespace RabbitMqStream.Api

open Lts Lts.Program Lts.Leases
open Protocol hiding Broker StreamMetadata
open RabbitMqStream.Client.Close (ClientError Flags ProducerCloseError ProducerInternal closeClient)
open SuperStream (DefaultSuperStreamMetadata Murmur3 ProducerCreateError ProducerPublishError Query
  RoutingStrategy SuperStreamProducer SuperStreamProducerBuilder SuperStreamProducerPublishError)

/-! ## 1. What a producer holds

Three parts: the connection of the client, one for each producer in the map, and what failed
builds have left.  The map gives no order, so the parts are compared up to permutation. -/

/-- The producers of the map, each of them once, in any order. -/
structure Listed (p : SuperStreamProducer) (producers : List ProducerInternal) : Prop where
  distinct : (producers.map (·.stream)).Nodup
  mem : ∀ producer, producer ∈ producers ↔ p.producers producer.stream = some producer

theorem Listed.insert {p : SuperStreamProducer} {producers : List ProducerInternal}
    (h : Listed p producers) {route : String} (hnone : p.producers route = none)
    {producer : ProducerInternal} (hstream : producer.stream = route) :
    Listed (p.insert route producer hstream) (producer :: producers) where
  distinct := by
    rw [List.map_cons, List.nodup_cons]
    refine ⟨fun hmem => ?_, h.distinct⟩
    obtain ⟨other, hother, hsame⟩ := List.mem_map.mp hmem
    have hsome := (h.mem other).mp hother
    rw [hsame, hstream, hnone] at hsome
    cases hsome
  mem := by
    intro other
    by_cases hsame : other.stream = route
    · have hupdate : (p.insert route producer hstream).producers other.stream = some producer := by
        rw [hsame]
        exact Function.update_self ..
      have hnot : other ∉ producers := fun hmem => by
        have hsome := (h.mem other).mp hmem
        rw [hsame, hnone] at hsome
        cases hsome
      rw [hupdate, List.mem_cons, or_iff_left hnot, Option.some.injEq, eq_comm]
    · have hupdate : (p.insert route producer hstream).producers other.stream =
          p.producers other.stream := Function.update_of_ne hsame ..
      have hne : other ≠ producer := fun heq => hsame (heq ▸ hstream)
      rw [hupdate, List.mem_cons, or_iff_right hne, h.mem]

/-- The connections are that of the client, those of the producers, and what is `spilled`. -/
structure Holding (base : Leases) (client : ℕ) (p : SuperStreamProducer)
    (producers : List ProducerInternal) (spilled : List ℕ) (w : Leases) : Prop where
  listed : Listed p producers
  holds : Holds base (producers.length + spilled.length + 3)
    (spilled ++ client :: producers.map (·.number)) w

/-! ## 2. Sending

A route that is in the map costs nothing.  A new one costs a connection, which goes to the
second part when its producer is built and to the third when it is not. -/

section Sending

variable {self : Environment} {rounds : ℕ} {base w : Leases} {room s : ℕ} {owned : List ℕ}
  {p : SuperStreamProducer} {producers : List ProducerInternal} {spilled : List ℕ}

/-- A request on a connection that is owned. -/
theorem ask_yields {α : Type} (op : Operation) (result : op.Answer → α) {n : ℕ}
    (hop : ∀ answer, op.leasing answer = .use n) (h : Holds base room owned w)
    (hn : n ∈ owned) :
    yields surroundings (ask op >>= fun answer => pure (some (result answer, s))) w
      fun _ _ s' w' => s' = s ∧ Holds base room owned w' := by
  refine yields_of_comes ?_ (Environment.ask_comes op result hop)
  rintro _ _ s' w' ⟨rfl, rfl, -⟩
  exact ⟨rfl, h.use hn⟩

/-- **Routing a message** asks the client only. -/
theorem routes_yields [Murmur3] (strategy : RoutingStrategy) (message : Message)
    (metadata : DefaultSuperStreamMetadata) (h : Holds base room owned w) (hs : s ∈ owned) :
    yields surroundings (self.connected rounds (strategy.routes message metadata) s) w
      fun _ _ s' w' => s' = s ∧ Holds base room owned w' := by
  refine yields_iff.mpr fun trace r s' w' hruns => ?_
  rcases runs_implement (carryOut_not_panicked self rounds) hruns with
    hout | ⟨x, s'', above, hout, habove⟩ | ⟨hout, -⟩
  · cases hout
  · obtain ⟨rfl, rfl⟩ := Prod.mk.inj (Option.some.inj (Outcome.returned.inj hout))
    have hquery : ∀ ev ∈ above, SuperStream.IsQuery ev :=
      (wp_iff.mp (SuperStream.strategy_spec strategy message metadata) _ _ ()
        (habove.map (f := fun _ => ()) fun _ _ _ _ _ => trivial)).1
    refine runs_invariant (J := fun v => v.1 = s ∧ Holds base room owned v.2) ?_ habove hquery
      ⟨rfl, h⟩
    rintro op ⟨_, w₁⟩ answer v' ⟨back, hback⟩ hev ⟨rfl, hholds⟩
    cases op with
    | partitions superStream =>
      exact yields_iff.mp (ask_yields (.partitions _ superStream) id (fun _ => rfl) hholds hs)
        _ _ _ _ hback
    | route routingKey superStream =>
      exact yields_iff.mp (ask_yields (.route _ routingKey superStream) id (fun _ => rfl) hholds
        hs) _ _ _ _ hback
    | createClient | buildProducer | send | buildConsumer => exact hev.elim
  · cases hout

/-- The connections that a call of `send` may leave open. -/
def spills : Except SuperStreamProducerPublishError Unit → ℕ
  | .error .producerCreateError => 2
  | _ => 0

/-- **The head of the loop**: a route that has no producer gets one, with a connection, or what its
builder has opened is left open.  A route that has one is left as it is.  For a new one it is the
specification of the builder, with its connection added to those of the map or to the spilled
ones. -/
theorem provide_yields (route : String) (h : Holding base s p producers spilled w) :
    yields surroundings (self.connected rounds (p.provide route) s) w fun _ r s' w' => s' = s ∧
      ((∃ p' producers', r = .ok p' ∧ (p'.producers route).isSome = true ∧
          Holding base s p' producers' spilled w') ∨
        ∃ e spilled', r = .error e ∧ spilled'.length ≤ spilled.length + 2 ∧
          Holding base s p producers spilled' w') := by
  unfold SuperStreamProducer.provide
  by_cases hsome : (p.producers route).isSome = true
  · rw [if_pos hsome]
    exact ⟨rfl, Or.inl ⟨p, producers, rfl, hsome, h⟩⟩
  · rw [if_neg hsome, yields_ask]
    obtain ⟨kept, hkept, hkeeps⟩ := h.holds
    have hlen : kept.length = producers.length + spilled.length + 1 := by
      rw [hkept.length_eq, List.length_append, List.length_cons, List.length_map]
      omega
    refine yields_of_comes ?_ (self.buildProducer_comes rounds p.internal route hkeeps (by omega))
    rintro _ r s' w₁ ⟨rfl, ⟨built, trace, rfl, hkeeps₁, -⟩ | ⟨e, more, rfl, hkeeps₁, hmore⟩⟩
    · have hnone : p.producers route = none := by simpa using hsome
      have hlisted :
          Listed (p.insert route ⟨built.client.connection, built.cfg.producerId, route⟩ rfl)
            (_ :: producers) := h.listed.insert hnone rfl
      refine ⟨rfl, Or.inl ⟨_, _, rfl, ?_, hlisted, ?_⟩⟩
      · change (Function.update p.producers route _ route).isSome = true
        rw [Function.update_self]
        rfl
      · refine ⟨_, ?_, hkeeps₁.mono (by rw [List.length_cons]; omega)⟩
        exact (hkept.cons _).trans
          (List.perm_middle.symm.trans (List.Perm.append_left spilled (List.Perm.swap ..)))
    · refine ⟨rfl, Or.inr ⟨e, more ++ spilled, rfl, ?_, h.listed, ?_⟩⟩
      · rw [List.length_append]
        omega
      · refine ⟨_, ?_, hkeeps₁.mono (by rw [List.length_append]; omega)⟩
        rw [List.append_assoc]
        exact hkept.append_left more

/-- A send on the connection of a producer. -/
theorem send_yields {producer : ProducerInternal} (message : Message) (cb : Producer.Callback)
    (h : Holding base s p producers spilled w) (hmem : producer ∈ producers) :
    yields surroundings (self.carryOut rounds (.send producer message cb) s) w
      fun _ _ s' w' => s' = s ∧ Holding base s p producers spilled w' := by
  have hn : producer.number ∈ spilled ++ s :: producers.map (·.number) :=
    List.mem_append_right _ (List.mem_cons_of_mem _ (List.mem_map_of_mem hmem))
  refine comes_mono ?_ (fun _ _ h => h) (fun _ _ h => h)
    (ask_yields (.sendMessage producer.number message cb) id (fun _ => rfl) h.holds hn)
  rintro _ r s' w' ⟨rfl, hholds⟩
  exact ⟨rfl, h.listed, hholds⟩

/-- **The loop over the routes.** -/
theorem sendAll_yields (message : Message) (cb : Producer.Callback) (routes : List String)
    (h : Holding base s p producers spilled w) :
    yields surroundings
      (self.connected rounds (SuperStreamProducer.sendAll message cb routes p) s) w
      fun _ r s' w' => s' = s ∧ ∃ producers' spilled', Holding base s r.2 producers' spilled' w' ∧
        spilled'.length ≤ spilled.length + spills r.1 := by
  induction routes generalizing p producers w with
  | nil => exact ⟨rfl, producers, spilled, h, Nat.le_refl _⟩
  | cons route routes ih =>
    rw [SuperStreamProducer.sendAll, yields_bind]
    refine comes_mono ?_ (fun _ _ h => h) (fun _ _ h => h) (provide_yields route h)
    rintro _ r s' w₁ ⟨rfl, ⟨p', producers', rfl, hsome, h₁⟩ | ⟨e, spilled', rfl, hlen, h₁⟩⟩
    · obtain ⟨producer, hproducer⟩ := Option.isSome_iff_exists.mp hsome
      have hget : p'.get route = pure producer := by
        rw [SuperStreamProducer.get, hproducer]
      have hstream := p'.keyed route producer hproducer
      have hmem : producer ∈ producers' := (h₁.listed.mem producer).mpr (hstream ▸ hproducer)
      simp only [hget]
      refine yields_ask.mpr (comes_mono ?_ (fun _ _ h => h) (fun _ _ h => h)
        (send_yields message cb h₁ hmem))
      rintro _ sent s'' w₂ ⟨rfl, h₂⟩
      cases sent with
      | error e => exact ⟨rfl, producers', spilled, h₂, Nat.le_add_right _ _⟩
      | ok u => exact ih h₂
    · exact ⟨rfl, producers, spilled', h₁, hlen⟩

/-- **`SuperStreamProducer::send`**, when it returns. -/
theorem superSend_yields [Murmur3] (message : Message) (cb : Producer.Callback)
    (h : Holding base s p producers spilled w) :
    yields surroundings (self.connected rounds (p.send message cb) s) w
      fun _ r s' w' => s' = s ∧ ∃ producers' spilled', Holding base s r.2 producers' spilled' w' ∧
        spilled'.length ≤ spilled.length + spills r.1 := by
  rw [SuperStreamProducer.send, yields_bind]
  have hs : s ∈ spilled ++ s :: producers.map (·.number) := by simp
  refine comes_mono ?_ (fun _ _ h => h) (fun _ _ h => h)
    (routes_yields p.routeStrategy message p.metadata h.holds hs)
  rintro _ ⟨routes, metadata⟩ s' w₁ ⟨rfl, hholds⟩
  have h₁ : Holding base s' { p with metadata := metadata } producers spilled w₁ :=
    ⟨⟨h.listed.distinct, h.listed.mem⟩, hholds⟩
  by_cases hempty : routes.isEmpty = true
  · simp only [if_pos hempty]
    exact ⟨rfl, producers, spilled, h₁, Nat.le_add_right _ _⟩
  · simp only [if_neg hempty]
    exact sendAll_yields message cb routes h₁

end Sending

/-- Calls of `send` one after the other on one producer that have returned, with what they have
returned. -/
inductive Sends [Murmur3] (self : Environment) (rounds : ℕ) :
    SuperStreamProducer × ℕ × Leases → List (Except SuperStreamProducerPublishError Unit) →
      SuperStreamProducer × ℕ × Leases → Prop where
  | nil {v : SuperStreamProducer × ℕ × Leases} : Sends self rounds v [] v
  | send {p p' : SuperStreamProducer} {s s' : ℕ} {w w' : Leases} {message : Message}
      {cb : Producer.Callback} {trace : Trace}
      {result : Except SuperStreamProducerPublishError Unit}
      {results : List (Except SuperStreamProducerPublishError Unit)}
      {v : SuperStreamProducer × ℕ × Leases} :
      Runs surroundings (self.connected rounds (p.send message cb) s) w trace
        (.returned (some ((result, p'), s'))) w' →
      Sends self rounds (p', s', w') results v → Sends self rounds (p, s, w) (result :: results) v

/-- **Any number of sends.** -/
theorem sends_holding [Murmur3] {self : Environment} {rounds : ℕ} {base : Leases}
    {v v' : SuperStreamProducer × ℕ × Leases}
    {results : List (Except SuperStreamProducerPublishError Unit)}
    (h : Sends self rounds v results v') {producers : List ProducerInternal} {spilled : List ℕ}
    (hholding : Holding base v.2.1 v.1 producers spilled v.2.2) :
    v'.2.1 = v.2.1 ∧ ∃ producers' spilled', Holding base v.2.1 v'.1 producers' spilled' v'.2.2 ∧
      spilled'.length ≤ spilled.length + (results.map spills).sum := by
  induction h generalizing producers spilled with
  | nil => exact ⟨rfl, producers, spilled, hholding, Nat.le_add_right _ _⟩
  | send hsend _ ih =>
    obtain ⟨rfl, producers₁, spilled₁, hholding₁, hlen₁⟩ :=
      yields_iff.mp (superSend_yields _ _ hholding) _ _ _ _ hsend
    obtain ⟨hsame, producers₂, spilled₂, hholding₂, hlen₂⟩ := ih hholding₁
    refine ⟨hsame, producers₂, spilled₂, hholding₂, ?_⟩
    rw [List.map_cons, List.sum_cons]
    exact hlen₂.trans (Nat.add_assoc .. ▸ Nat.add_le_add_right hlen₁ _)

/-! ## 3. Closing

When the client cannot be closed the loop is not begun.  Else it comes to all producers,
whatever becomes of the ones before. -/

section Closing

variable {base w : Leases} {room : ℕ} {others spilled : List ℕ} {flags : Flags}

/-- **The loop over the producers** comes to all of them, and keeps an error of those it could not
close. -/
theorem closeAll_givesBack (producers : List ProducerInternal) (err : Option ProducerCloseError)
    (h : Holds base room (producers.map (·.number) ++ others) w) :
    wp closing (SuperStreamProducer.closeAll producers err err.isSome) (flags, w) fun _ out w' =>
      ∃ err' left, out = .returned (err', err'.isSome) ∧ left.Sublist producers ∧
        Holds base room (left.map (·.number) ++ others) w'.2 ∧
          (left = [] ∧ err' = err ∨ left ≠ [] ∧ err'.isSome = true) := by
  induction producers generalizing err others w flags with
  | nil => exact ⟨err, [], rfl, .refl _, h, Or.inl ⟨rfl, rfl⟩⟩
  | cons producer producers ih =>
    rw [SuperStreamProducer.closeAll, wp_bind]
    refine wp_mono ?_ (closeOnce_givesBack (o := .producer producer.number) h)
    rintro trace out ⟨flags₁, w₁⟩ (⟨rfl, hholds⟩ | ⟨e, rfl, hholds⟩)
    · refine wp_mono ?_ (ih err hholds)
      rintro trace' out w' ⟨err', left, rfl, hsub, hleft⟩
      exact ⟨err', left, rfl, hsub.cons _, hleft⟩
    · have hlater : Holds base room (producers.map (·.number) ++ producer.number :: others) w₁ :=
        hholds.perm List.perm_middle.symm
      refine wp_mono ?_ (ih (some e) hlater)
      rintro trace' out w' ⟨err', left, rfl, hsub, hleft, herr⟩
      refine ⟨err', producer :: left, rfl, hsub.cons_cons _, hleft.perm List.perm_middle,
        Or.inr ⟨by simp, ?_⟩⟩
      rcases herr with ⟨-, rfl⟩ | ⟨-, hsome⟩
      · rfl
      · exact hsome

/-- What a call of `close` has left open of the connections of the client and the producers, beside
what was `spilled`. -/
def SuperCloseLeaves (client : ℕ) (producers : List ProducerInternal) (spilled left : List ℕ) :
    Outcome (Except ProducerCloseError Unit) → Prop
  | .returned (.ok _) => left = spilled
  | .returned (.error e) =>
    ((∃ e', e = .client e') ∧ left = spilled ++ client :: producers.map (·.number)) ∨
      ∃ unclosed, unclosed ≠ [] ∧ unclosed.Sublist producers ∧
        left = unclosed.map (·.number) ++ spilled
  | .panicked => False

/-- **`SuperStreamProducer::close`**.  When the client cannot be closed, no producer is. -/
theorem superClose_leaves {client : ℕ} {producers : List ProducerInternal}
    (h : Holds base room (spilled ++ client :: producers.map (·.number)) w) :
    wp closing (SuperStreamProducer.close client producers) (flags, w) fun _ out w' =>
      ∃ left, Holds base room left w'.2 ∧
        SuperCloseLeaves client producers spilled left out := by
  unfold SuperStreamProducer.close
  rw [wp_bind]
  have hperm : (spilled ++ client :: producers.map (·.number)).Perm
      (client :: (producers.map (·.number) ++ spilled)) :=
    List.perm_middle.trans (List.Perm.cons _ List.perm_append_comm)
  refine wp_mono ?_ (closeClient_givesBack (o := .superStream client) (h.perm hperm))
  rintro trace out ⟨flags₁, w₁⟩ (⟨rfl, hholds⟩ | ⟨e, rfl, hholds⟩)
  · simp only [behind, wp_bind]
    refine wp_mono ?_ (closeAll_givesBack producers none hholds)
    rintro trace' out w' ⟨err, left, rfl, hsub, hleft, hend⟩
    rcases hend with ⟨rfl, rfl⟩ | ⟨hne, hsome⟩
    · exact ⟨_, hleft, rfl⟩
    · obtain ⟨e, rfl⟩ := Option.isSome_iff_exists.mp hsome
      exact ⟨_, hleft, Or.inr ⟨left, hne, hsub, rfl⟩⟩
  · exact ⟨_, hholds.perm hperm.symm, Or.inl ⟨⟨e, rfl⟩, rfl⟩⟩

end Closing

/-! ## 4. From the first call to the last

The three calls one behind the other.  What is open in the end are the failed builds and what
`close` could not close. -/

/-- **The client of a super stream's producer.** -/
theorem superBuild_yields {self : Environment} {rounds : ℕ} (builder : SuperStreamProducerBuilder)
    (superStream : String) {s : ℕ} {base : Leases} :
    yields surroundings (self.connected rounds (builder.build superStream) s) base
      fun _ r s' w' => ∀ p client, r = .ok (p, client) → s' = client ∧
        Holding base client p [] [] w' := by
  unfold SuperStreamProducerBuilder.build
  rw [yields_ask]
  refine yields_of_comes ?_ (self.createClient_comes rounds (Keeps.refl base 3) (by simp))
  rintro _ r s' w₁ (⟨rfl, hkeeps⟩ | ⟨e, more, rfl, -⟩)
  · rintro p client hok
    obtain ⟨rfl, rfl⟩ := Prod.mk.inj (Except.ok.inj hok)
    exact ⟨rfl, ⟨List.nodup_nil, by simp⟩, hkeeps.holds⟩
  · rintro p client hok
    cases hok

/-- The map has one list, up to its order. -/
theorem Listed.perm {p : SuperStreamProducer} {first second : List ProducerInternal}
    (hfirst : Listed p first) (hsecond : Listed p second) : first.Perm second :=
  (List.perm_ext_iff_of_nodup hfirst.distinct.of_map hsecond.distinct.of_map).mpr fun producer =>
    (hfirst.mem producer).trans (hsecond.mem producer).symm

/-- **From `build` over any number of sends to `close`.**  The producer holds a connection for its
client, one for each stream that has a producer of its own, and at most two for each send that has
returned `ProducerCreateError`.  It never uses another one.  `close` gives back those of the client
and of the producers exactly when it returns `Ok`; what failed sends have left open stays so.  When
the client cannot be closed, all of them stay open.

Three parts, each from the ledger the one before has left: the client, the sends by induction, and
the two loops of `close`. -/
theorem superStreamProducer_life [Murmur3] {self : Environment} {rounds : ℕ}
    {builder : SuperStreamProducerBuilder} {superStream : String} {s s' s'' client : ℕ}
    {w w₁ w₂ w₃ : Leases} {flags flags' : Flags} {trace : Trace}
    {trace' : List (Event Client.Close.Operation.Answer)} {p p' : SuperStreamProducer}
    {results : List (Except SuperStreamProducerPublishError Unit)}
    {producers : List ProducerInternal} {out : Outcome (Except ProducerCloseError Unit)}
    (hbuild : Runs surroundings (self.connected rounds (builder.build superStream) s) w trace
      (.returned (some (.ok (p, client), s'))) w₁)
    (hsends : Sends self rounds (p, s', w₁) results (p', s'', w₂)) (hlisted : Listed p' producers)
    (hclose : Runs closing (SuperStreamProducer.close client producers) (flags, w₂) trace' out
      (flags', w₃)) :
    ∃ spilled, spilled.length ≤ (results.map spills).sum ∧
      Holds w (producers.length + spilled.length + 3)
        (spilled ++ client :: producers.map (·.number)) w₂ ∧
      ∃ left, Holds w (producers.length + spilled.length + 3) left w₃ ∧
        SuperCloseLeaves client producers spilled left out := by
  obtain ⟨rfl, hholding⟩ :=
    yields_iff.mp (superBuild_yields builder superStream) _ _ _ _ hbuild _ _ rfl
  obtain ⟨-, built, spilled, ⟨hbuilt, hholds⟩, hlen⟩ := sends_holding hsends hholding
  have hperm : built.Perm producers := hbuilt.perm hlisted
  have hheld : Holds w (producers.length + spilled.length + 3)
      (spilled ++ s' :: producers.map (·.number)) w₂ := by
    rw [hperm.length_eq] at hholds
    exact hholds.perm (List.Perm.append_left _ ((hperm.map _).cons _))
  refine ⟨spilled, by simpa using hlen, hheld, ?_⟩
  exact wp_iff.mp (superClose_leaves hheld) _ _ _ hclose

/-- A producer that has routed a message and has not sent it. -/
def routedProducer : SuperStreamProducer :=
  { SuperStream.sampleProducer SuperStream.byKey with
    metadata :=
      { superStream := "invoices"
        partitions := []
        routes := Function.update (fun _ => none) "orders" (some ["invoices-0"]) } }

theorem routedProducer_listed : Listed routedProducer [] :=
  ⟨List.nodup_nil, fun producer => by simp [routedProducer, SuperStream.sampleProducer]⟩

/-- A producer that has sent to one stream. -/
def sentProducer : SuperStreamProducer :=
  routedProducer.insert "invoices-0" ⟨2, 1, "invoices-0"⟩ rfl

theorem sentProducer_listed : Listed sentProducer [⟨2, 1, "invoices-0"⟩] := by
  have hnone : routedProducer.producers "invoices-0" = none := rfl
  exact routedProducer_listed.insert hnone rfl

/-- A client that is closed, and a producer. -/
theorem sample_closes (w : Leases) : ∃ trace flags',
    Runs closing (SuperStreamProducer.close 0 [⟨2, 1, "invoices-0"⟩]) (.down, w) trace
      (.returned (.ok ())) (flags', ((((w.use 0).release 0).use 2).use 2).release 2) :=
  ⟨[⟨.channelIsClosed (.superStream 0), false⟩,
      ⟨.closeRequest (.superStream 0) .ok "Ok", .ok ⟨9, .ok⟩⟩,
      ⟨.takeHeartbeat (.superStream 0), ()⟩, ⟨.channelClose (.superStream 0), .ok ()⟩,
      ⟨.compareExchange (.producer 2), true⟩,
      ⟨.request (.producer 2) (.deletePublisher 1), .ok ⟨7, .ok⟩⟩,
      ⟨.channelIsClosed (.producer 2), false⟩,
      ⟨.closeRequest (.producer 2) .ok "Ok", .ok ⟨8, .ok⟩⟩, ⟨.takeHeartbeat (.producer 2), ()⟩,
      ⟨.channelClose (.producer 2), .ok ()⟩], _,
    runs_closing ⟨_, le_refl _, rfl, rfl⟩ rfl <| runs_closing ⟨_, le_refl _, rfl⟩ rfl <|
      runs_closing ⟨_, le_refl _, rfl⟩ rfl <| runs_closing ⟨_, le_refl _, rfl⟩ rfl <|
      runs_closing ⟨_, le_refl _, rfl, rfl⟩ rfl <| runs_closing ⟨_, le_refl _, rfl⟩ rfl <|
      runs_closing ⟨_, le_refl _, rfl, rfl⟩ rfl <| runs_closing ⟨_, le_refl _, rfl⟩ rfl <|
      runs_closing ⟨_, le_refl _, rfl⟩ rfl <| runs_closing ⟨_, le_refl _, rfl⟩ rfl .ret⟩

/-- One message is sent, to one stream, and all is closed. -/
theorem superStreamProducer_life_one :
    ∃ w₃ : Leases, w₃.held = [] ∧ Holds Leases.empty 4 [] w₃ := by
  let _ := SuperStream.ordersMurmur3
  have hbuild : Runs surroundings ((⟨{}⟩ : Environment).connected 0
      (SuperStreamProducerBuilder.build ⟨none, SuperStream.byKey, "sample"⟩ "invoices") 0)
      Leases.empty
      [⟨.createConnection {}, .ok ⟨0, HashMap.empty⟩⟩,
        ⟨.exchangeCommandVersions 0, .ok ⟨0, .ok, []⟩⟩]
      (.returned (some (.ok (SuperStream.sampleProducer SuperStream.byKey, 0), 0))) _ :=
    .call ⟨Nat.zero_le _, rfl⟩ <| .call rfl .ret
  have hsend : Runs surroundings ((⟨{}⟩ : Environment).connected 0
      ((SuperStream.sampleProducer SuperStream.byKey).send SuperStream.sampleMessage 0) 0)
      ((Leases.empty.take 0 (Nat.zero_le _)).use 0)
      [⟨.route 0 "orders" "invoices", .ok ⟨0, .ok, ["invoices-0"]⟩⟩,
        ⟨.createConnection { clientProvidedName := "sample" }, .ok ⟨1, HashMap.empty⟩⟩,
        ⟨.exchangeCommandVersions 1, .ok ⟨0, .ok, []⟩⟩,
        ⟨.metadata 1 ["invoices-0"], .ok ⟨0, [⟨1, "b", 5552⟩], [⟨"invoices-0", .ok, 1, []⟩]⟩⟩,
        ⟨.close 1, .ok ()⟩,
        ⟨.createConnection { clientProvidedName := "sample", host := "b" },
          .ok ⟨2, HashMap.empty⟩⟩,
        ⟨.exchangeCommandVersions 2, .ok ⟨0, .ok, []⟩⟩, ⟨.setHandler 2 .producerConfirm, ()⟩,
        ⟨.send 2 (.declarePublisher 1 none "invoices-0"), .ok ⟨0, .ok⟩⟩,
        ⟨.sendMessage 2 SuperStream.sampleMessage 0, .ok ()⟩]
      (.returned (some ((.ok (), sentProducer), 0))) _ :=
    .call rfl <| .call ⟨le_refl _, rfl⟩ <| .call rfl <| .call rfl <| .call rfl <|
      .call ⟨le_refl _, rfl⟩ <| .call rfl <| .call rfl <| .call rfl <| .call rfl .ret
  obtain ⟨trace', flags', hclose⟩ := sample_closes _
  obtain ⟨spilled, hspilled, -, left, hholds, hleft⟩ :=
    superStreamProducer_life hbuild (.send hsend .nil) sentProducer_listed hclose
  obtain rfl : spilled = [] := List.length_eq_zero_iff.mp (Nat.le_zero.mp hspilled)
  obtain rfl : left = [] := hleft
  exact ⟨_, rfl, hholds⟩

end RabbitMqStream.Api
