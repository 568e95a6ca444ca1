/-
# What an application holds

The calls of the API one behind the other, each of them with any outcome: environments are checked,
streams and super streams are created and deleted, producers and consumers are built.  The question
is which connections are open then.

* `once_spec`: the calls that make one request.  They leave no connection when the broker answers,
  whatever it says.
* `createSuperStream_run`: the partitions that a super stream is created with, and the number of
  them that there is no memory for.
* `history_held`: after any history, what is held is what each call has left: nothing for a stream,
  the connection of the client for a producer or consumer, at most two for a call that has failed.
  While the history goes on, at most two more are held.

**The argument.**  A call is specified from any ledger, and leaves on top of it the connections
that its outcome allows (`call_leaves`).  So a history is the calls one behind the other, each
from the ledger that the one before has left, and what is held in the end is what they have left,
in the reverse order.  Nothing has to be known of a call but its specification.
-/
import RabbitMqStream.Api.Builders

namespace RabbitMqStream.Api

open Lts Lts.Program Lts.Leases
open Protocol hiding Broker StreamMetadata
open RabbitMqStream.Client.Close (ClientError)

/-! ## 1. Calls that make one request

The body that these calls share is specified once, with the command as a parameter.  The code of
the response is looked at last, behind the close. -/

section Once

variable {base w : Leases} (self : Environment)

/-- **Open, ask, close**: nothing is left open when all of it succeeds, whatever the code of the
response is.  When a step fails, nothing is left open exactly when the connection was not opened.
Line by line.  The code is looked at behind the close, so a refusal is an error with nothing left
open. -/
theorem once_spec (stream : String) (command : Command) :
    ends surroundings (self.once stream command) base
      (fun trace _ w' => Keeps base 1 [] w' ∧
        ∃ c response, ⟨.send c command, .ok response⟩ ∈ trace ∧ response.code = .ok)
      (fun trace e w' =>
        (Keeps base 1 [] w' ∧ ∃ c response, ⟨.send c command, .ok response⟩ ∈ trace ∧
          response.code ≠ .ok ∧ e = .refused stream response.code) ∨
        ∃ kept e', Keeps base 1 kept w' ∧ (kept = [] ↔ NotOpened trace) ∧ e = .client e')
      never := by
  unfold Environment.once
  rw [ends_bind, ends_mapErr]
  refine ends_mono ?_ ?_ (fun _ _ h => h)
    (connect_spec self.options (Keeps.refl base 1) (by simp))
  · rintro trace client w₁ ⟨hkeeps₁, -, -⟩
    rw [ends_bind, ends_mapErr]
    refine ends_mono ?_ ?_ (fun _ _ h => h)
      (request_spec (.send client.connection command) (fun _ => rfl) hkeeps₁ (by simp))
    · rintro _ response w₂ ⟨hkeeps₂, answer, rfl, rfl⟩
      rw [ends_bind, ends_mapErr]
      refine ends_mono ?_ ?_ (fun _ _ h => h) (close_spec client hkeeps₂ (by simp))
      · rintro _ _ w₃ ⟨hkeeps₃, rfl⟩
        rw [List.erase_cons_head] at hkeeps₃
        by_cases hcode : response.code = .ok
        · rw [if_pos hcode, ends_pure]
          exact ⟨hkeeps₃, client.connection, response, by simp, hcode⟩
        · rw [if_neg hcode, ends_throw]
          exact Or.inl ⟨hkeeps₃, client.connection, response, by simp, hcode, rfl⟩
      · rintro _ e w₃ ⟨hkeeps₃, e', rfl⟩
        exact Or.inr ⟨_, e, hkeeps₃, by simp [NotOpened], rfl⟩
    · rintro _ e w₂ ⟨hkeeps₂, answer, rfl, -⟩
      exact Or.inr ⟨_, e, hkeeps₂, by simp [NotOpened], rfl⟩
  · rintro trace e w₁ ⟨-, more, hkeeps₁, hmore, -⟩
    rw [List.append_nil] at hkeeps₁
    exact Or.inr ⟨more, e, hkeeps₁, hmore, rfl⟩

/-- **`Environment::boostrap`** leaves nothing open when it succeeds. -/
theorem boostrap_spec (options : ClientOptions) :
    ends surroundings (Environment.boostrap options) base
      (fun _ env w' => Keeps base 1 [] w' ∧ env = ⟨options⟩)
      (fun trace _ w' => ∃ kept, Keeps base 1 kept w' ∧ (kept = [] ↔ NotOpened trace))
      never := by
  unfold Environment.boostrap
  rw [ends_bind]
  refine ends_mono ?_ ?_ (fun _ _ h => h) (connect_spec options (Keeps.refl base 1) (by simp))
  · rintro trace client w₁ ⟨hkeeps₁, -, -⟩
    rw [ends_bind]
    refine ends_mono ?_ ?_ (fun _ _ h => h) (close_spec client hkeeps₁ (by simp))
    · rintro _ _ w₂ ⟨hkeeps₂, rfl⟩
      rw [List.erase_cons_head] at hkeeps₂
      exact ⟨hkeeps₂, rfl⟩
    · rintro _ e w₂ ⟨hkeeps₂, e', rfl⟩
      exact ⟨_, hkeeps₂, by simp [NotOpened]⟩
  · rintro trace e w₁ ⟨-, more, hkeeps₁, hmore, -⟩
    rw [List.append_nil] at hkeeps₁
    exact ⟨more, hkeeps₁, hmore⟩

end Once

/-! ## 2. The partitions of a super stream

The names of the partitions are the name of the super stream with the keys behind it, so they
are different when the keys are.  The two vectors are the only thing that can stop the call
before its first connection. -/

namespace StreamCreator

section Create

variable [Allocator] {creator : StreamCreator} {superStream : String} {numberOfPartitions : ℕ}
  {given : Option (List String)}

/-- With the memory for its vectors it is the one request, -/
theorem createSuperStream_of_room (h : HasRoom numberOfPartitions) :
    creator.createSuperStream superStream numberOfPartitions given =
      creator.env.once superStream (.createSuperStream superStream
        (partitionsOf superStream (bindingKeysOf numberOfPartitions given))
        (bindingKeysOf numberOfPartitions given) creator.options) := by
  unfold createSuperStream withCapacity
  rw [if_pos h]
  rfl

/-- and without it there is nothing but the panic. -/
theorem createSuperStream_of_no_room (h : ¬ HasRoom numberOfPartitions) :
    creator.createSuperStream superStream numberOfPartitions given = ExceptT.lift .panic := by
  unfold createSuperStream withCapacity
  rw [if_neg h]
  rfl

end Create

end StreamCreator

/-! ## 3. Calls of the API

All calls under one type, with what each may leave open according to how it has ended.  A failed
call leaves two at most. -/

inductive ApiCall : Type where
  | boostrap (options : ClientOptions)
  | create (creator : StreamCreator) (stream : String)
  | createSuperStream (creator : StreamCreator) (superStream : String) (numberOfPartitions : ℕ)
      (bindingKeys : Option (List String))
  | deleteStream (env : Environment) (stream : String)
  | deleteSuperStream (env : Environment) (superStream : String)
  | producer (builder : ProducerBuilder) (rounds : ℕ) (stream : String)
  | consumer (builder : ConsumerBuilder) (rounds : ℕ) (stream : String)

/-- What a call returns that has not failed. -/
inductive Made : Type where
  | nothing
  | producer (p : BuiltProducer)
  | consumer (c : BuiltConsumer)
  /-- The call has not returned: it is looking for a broker behind a load balancer. -/
  | searching

/-- The call, with what it returns under one type. -/
def ApiCall.program [Allocator] : ApiCall → Call Unit Made
  | .boostrap options => do
    let _ ← mapErr (fun _ => ()) (Environment.boostrap options)
    pure .nothing
  | .create creator stream => do
    mapErr (fun _ => ()) (creator.create stream)
    pure .nothing
  | .createSuperStream creator superStream numberOfPartitions bindingKeys => do
    mapErr (fun _ => ())
      (creator.createSuperStream superStream numberOfPartitions bindingKeys)
    pure .nothing
  | .deleteStream env stream => do
    mapErr (fun _ => ()) (env.deleteStream stream)
    pure .nothing
  | .deleteSuperStream env superStream => do
    mapErr (fun _ => ()) (env.deleteSuperStream superStream)
    pure .nothing
  | .producer builder rounds stream => do
    let producer ← mapErr (fun _ => ()) (builder.build rounds stream)
    pure (producer.elim .searching .producer)
  | .consumer builder rounds stream => do
    let consumer ← mapErr (fun _ => ()) (builder.build rounds stream)
    pure (consumer.elim .searching .consumer)

/-- What a call may leave open. -/
def Made.Leaves (kept : List ℕ) : Made → Prop
  | .nothing => kept = []
  | .producer p => kept = [p.client.connection]
  | .consumer c => kept = [c.client.connection]
  | .searching => kept.length = 1

/-- What a call may leave open, however it ends. -/
def LeavesOpen (kept : List ℕ) : Outcome (Except Unit Made) → Prop
  | .returned (.ok made) => made.Leaves kept
  | .returned (.error _) | .panicked => kept.length ≤ 2

section Calls

variable [Allocator] {base : Leases}

omit [Allocator] in
/-- A call that opens one connection at a time, and makes nothing. -/
theorem leaves_nothing {ε α : Type} {call : Call ε α} {Err : Trace → ε → Leases → Prop}
    (hcall : ends surroundings call base (fun _ _ w' => Keeps base 1 [] w') Err never)
    (herr : ∀ trace e w', Err trace e w' → ∃ kept, Keeps base 1 kept w') :
    ends surroundings (do
        let _ ← mapErr (fun _ => ()) call
        pure Made.nothing) base
      (fun _ made w' => ∃ kept, Keeps base 2 kept w' ∧ made.Leaves kept)
      (fun _ _ w' => ∃ kept, Keeps base 2 kept w') fun _ w' => ∃ kept, Keeps base 2 kept w' := by
  rw [ends_bind, ends_mapErr]
  refine ends_mono ?_ ?_ (fun _ _ h => h.elim) hcall
  · intro trace a w' hkeeps
    exact ⟨[], hkeeps.mono (by omega), rfl⟩
  · intro trace e w' he
    obtain ⟨kept, hkeeps⟩ := herr trace e w' he
    exact ⟨kept, hkeeps.mono (by omega)⟩

omit [Allocator] in
theorem once_leaves (self : Environment) (stream : String) (command : Command) :
    ends surroundings (do
        let _ ← mapErr (fun _ => ()) (self.once stream command)
        pure Made.nothing) base
      (fun _ made w' => ∃ kept, Keeps base 2 kept w' ∧ made.Leaves kept)
      (fun _ _ w' => ∃ kept, Keeps base 2 kept w') fun _ w' => ∃ kept, Keeps base 2 kept w' := by
  refine leaves_nothing (ends_mono (fun _ _ _ h => h.1) (fun _ _ _ h => h) (fun _ _ h => h)
    (once_spec self stream command)) ?_
  rintro trace e w' (⟨hkeeps, -⟩ | ⟨kept, e', hkeeps, -⟩)
  · exact ⟨_, hkeeps⟩
  · exact ⟨kept, hkeeps⟩

/-- **Every call**, from any ledger.  By cases on the call: a check of the environment, one request,
or a builder.  A super stream may panic before its first connection, with nothing open. -/
theorem program_spec (call : ApiCall) :
    ends surroundings call.program base
      (fun _ made w' => ∃ kept, Keeps base 2 kept w' ∧ made.Leaves kept)
      (fun _ _ w' => ∃ kept, Keeps base 2 kept w') fun _ w' => ∃ kept, Keeps base 2 kept w' := by
  cases call with
  | boostrap options =>
    refine leaves_nothing (ends_mono (fun _ _ _ h => h.1) (fun _ _ _ h => h) (fun _ _ h => h)
      (boostrap_spec options)) ?_
    rintro trace e w' ⟨kept, hkeeps, -⟩
    exact ⟨kept, hkeeps⟩
  | create creator stream => exact once_leaves _ _ _
  | createSuperStream creator superStream numberOfPartitions bindingKeys =>
    rw [ApiCall.program]
    by_cases hroom : StreamCreator.HasRoom numberOfPartitions
    · rw [StreamCreator.createSuperStream_of_room hroom]
      exact once_leaves _ _ _
    · rw [StreamCreator.createSuperStream_of_no_room hroom]
      exact ⟨[], Keeps.refl _ _⟩
  | deleteStream env stream => exact once_leaves _ _ _
  | deleteSuperStream env superStream => exact once_leaves _ _ _
  | producer builder rounds stream =>
    unfold ApiCall.program
    rw [ends_bind, ends_mapErr]
    refine ends_mono ?_ ?_ ?_ (builder.build_spec rounds stream)
    · intro trace r w' hr
      cases r with
      | none =>
        obtain ⟨connection, hkeeps, -⟩ := hr
        exact ⟨_, hkeeps, rfl⟩
      | some p => exact ⟨_, hr.1, rfl⟩
    · rintro trace e w' (⟨kept, hkeeps, -⟩ | ⟨client, front, back, -, -, hkeeps, -⟩)
      · exact ⟨kept, hkeeps⟩
      · exact ⟨_, hkeeps⟩
    · rintro trace w' ⟨-, client, front, back, sequence, -, -, -, hkeeps⟩
      exact ⟨_, hkeeps⟩
  | consumer builder rounds stream =>
    unfold ApiCall.program
    rw [ends_bind, ends_mapErr]
    refine ends_mono ?_ ?_ (fun _ _ h => h.elim) (builder.build_spec rounds stream)
    · rintro trace r w' ⟨-, hr⟩
      cases r with
      | none =>
        obtain ⟨connection, hkeeps, -⟩ := hr
        exact ⟨_, hkeeps, rfl⟩
      | some c => exact ⟨_, hr.1, rfl⟩
    · rintro trace e w'
        (⟨-, -, -, rfl⟩ | ⟨kept, hkeeps, -⟩ | ⟨client, front, back, -, -, hkeeps, -⟩)
      · exact ⟨[], Keeps.refl _ _⟩
      · exact ⟨kept, hkeeps⟩
      · exact ⟨_, hkeeps⟩

/-- One call, whatever becomes of it. -/
theorem call_leaves {call : ApiCall} {trace : Trace} {out : Outcome (Except Unit Made)}
    {w' : Leases} (h : CallRuns call.program base trace out w') :
    ∃ kept, Keeps base 2 kept w' ∧ LeavesOpen kept out := by
  rcases ends_iff.mp (program_spec call) trace out w' h with
    ⟨made, rfl, kept, hkeeps, hleaves⟩ | ⟨e, rfl, kept, hkeeps⟩ | ⟨rfl, kept, hkeeps⟩
  · exact ⟨kept, hkeeps, hleaves⟩
  · exact ⟨kept, hkeeps, hkeeps.within⟩
  · exact ⟨kept, hkeeps, hkeeps.within⟩

end Calls

/-! ## 4. A history of calls

One call begins with the ledger that the one before has left.  Nothing that an earlier call
holds is used or given back by a later one. -/

/-- The calls that a task makes, with what has become of them. -/
inductive History [Allocator] :
    Leases → List (ApiCall × Outcome (Except Unit Made)) → Leases → Prop where
  | nil {w : Leases} : History w [] w
  | cons {call : ApiCall} {out : Outcome (Except Unit Made)} {trace : Trace} {w w' w'' : Leases}
      {rest : List (ApiCall × Outcome (Except Unit Made))} :
      CallRuns call.program w trace out w' → History w' rest w'' →
        History w ((call, out) :: rest) w''

/-- **What an application holds** is what each of its calls has left, the last one first.  By
induction on the history: a call adds what it leaves to any ledger (`call_leaves`), and what two
tasks keep one behind the other adds up (`Keeps.trans`). -/
theorem history_held [Allocator] {base w : Leases}
    {entries : List (ApiCall × Outcome (Except Unit Made))} (h : History base entries w) :
    ∃ leavings : List (List ℕ),
      List.Forall₂ (fun kept entry => LeavesOpen kept entry.2) leavings entries ∧
        Keeps base (leavings.flatten.length + 2) leavings.reverse.flatten w := by
  induction h with
  | nil => exact ⟨[], .nil, Keeps.refl _ _⟩
  | @cons call out trace w w₁ w₂ rest hcall _ ih =>
    obtain ⟨kept, hkeeps, hleaves⟩ := call_leaves hcall
    obtain ⟨leavings, hall, hrest⟩ := ih
    refine ⟨kept :: leavings, .cons hleaves hall, ?_⟩
    have hboth := hkeeps.trans hrest
    rw [List.reverse_cons, List.flatten_append, List.flatten_singleton]
    refine hboth.mono ?_
    rw [List.flatten_cons, List.length_append]
    omega

/-- The producer of the sample. -/
def sampleProducer : BuiltProducer :=
  ProducerBuilder.sample.built
    ⟨1, { ProducerBuilder.sampleOpts with host := "b" }, HashMap.empty, false⟩ "s" 1 42

/-- A stream is deleted, and the connection for that cannot be closed. -/
def deleteTrace : Trace :=
  [⟨.createConnection {}, .ok ⟨2, HashMap.empty⟩⟩, ⟨.exchangeCommandVersions 2, .ok ⟨0, .ok, []⟩⟩,
    ⟨.send 2 (.deleteStream "t"), .ok ⟨0, .ok⟩⟩, ⟨.close 2, .error .connectionClosed⟩]

/-- Another one is created. -/
def createTrace : Trace :=
  [⟨.createConnection {}, .ok ⟨3, HashMap.empty⟩⟩, ⟨.exchangeCommandVersions 3, .ok ⟨0, .ok, []⟩⟩,
    ⟨.send 3 (.createStream "u" (StreamCreator.new ⟨{}⟩).options), .ok ⟨0, .ok⟩⟩,
    ⟨.close 3, .ok ()⟩]

/-- Three calls, of which the second fails: it leaves the one connection that it has opened. -/
def threeCalls : List (ApiCall × Outcome (Except Unit Made)) :=
  [(.producer ProducerBuilder.sample 0 "s", .returned (.ok (.producer sampleProducer))),
    (.deleteStream ⟨{}⟩ "t", .returned (.error ())),
    (.create (StreamCreator.new ⟨{}⟩) "u", .returned (.ok .nothing))]

theorem history_held_three :
    letI := Allocator.unbounded
    ∃ (w : Leases) (leavings : List (List ℕ)), History Leases.empty threeCalls w ∧ w.held = [2, 1] ∧
      leavings = [[1], [2], []] ∧
        Keeps Leases.empty (leavings.flatten.length + 2) leavings.reverse.flatten w := by
  let _ := Allocator.unbounded
  obtain ⟨w₁, hbuild, hnext, hheld₁⟩ := ProducerBuilder.sample_runs
  have hproducer : CallRuns (ApiCall.producer ProducerBuilder.sample 0 "s").program Leases.empty
      _ (.returned (.ok (.producer sampleProducer))) w₁ := runs_bind (runs_bind hbuild .ret) .ret
  have hdelete : ∃ w₂, CallRuns (ApiCall.deleteStream ⟨{}⟩ "t").program w₁ deleteTrace
      (.returned (.error ())) w₂ ∧ w₂.next = 3 ∧ w₂.held = 2 :: w₁.held :=
    ⟨_, .call ⟨hnext.le, rfl⟩ <| .call rfl <| .call rfl <| .call rfl .ret, rfl, rfl⟩
  obtain ⟨w₂, hdelete, hnext, hheld₂⟩ := hdelete
  have hcreate : ∃ w₃, CallRuns (ApiCall.create (StreamCreator.new ⟨{}⟩) "u").program w₂ createTrace
      (.returned (.ok .nothing)) w₃ ∧ w₃.held = (3 :: w₂.held).erase 3 :=
    ⟨_, .call ⟨hnext.le, rfl⟩ <| .call rfl <| .call rfl <| .call rfl .ret, rfl⟩
  obtain ⟨w₃, hcreate, hheld₃⟩ := hcreate
  have hhistory : History Leases.empty threeCalls w₃ :=
    .cons hproducer (.cons hdelete (.cons hcreate .nil))
  have hheld : w₃.held = [2, 1] := by
    rw [hheld₃, hheld₂, hheld₁]
    rfl
  obtain ⟨leavings, hall, hkeeps⟩ := history_held hhistory
  refine ⟨w₃, leavings, hhistory, hheld, ?_, hkeeps⟩
  -- the ledger tells what the call that has failed has left
  unfold threeCalls at hall
  obtain _ | @⟨kept₁, _, _, _, h₁, _ | @⟨kept₂, _, _, _, -, _ | @⟨kept₃, _, _, _, h₃, ⟨⟩⟩⟩⟩ := hall
  obtain rfl : kept₁ = [1] := h₁
  obtain rfl : kept₃ = [] := h₃
  have heq : [2, 1] = kept₂ ++ [1] := by simpa [hheld, Leases.empty] using hkeeps.held
  rw [← List.append_cancel_right (show [2] ++ [1] = kept₂ ++ [1] from heq)]

end RabbitMqStream.Api
