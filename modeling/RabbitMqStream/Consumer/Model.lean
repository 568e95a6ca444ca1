/-
# The consumer

`consumer.rs`, with the parts of `client/mod.rs` that bring frames to it and the broker at the
other end of the connection.  The broker sends chunks of messages, as many as it has credit for.
One task reads the frames; for each frame that is not an answer to a request it spawns a task
that calls the handler of the consumer.  The handler filters the messages of a chunk, counts
their offsets, puts them into a channel and gives the broker one more unit of credit.  The
application polls the other end of the channel.

**Steps.**  The tasks run at the same time.  One step is one atomic operation: a `send` on the
channel, a load, a store or a `compare_exchange` of the flag, a `poll_recv`, the hand-over of a
frame to the connection, the reading of a frame.  Reading a frame and spawning the task for it
are one step, since nobody can look between the two.  What a handler computes from its frame it
computes at once.

**The channel** of the consumer has room for 10000 messages; a handler waits while it is full.
When the `Consumer` is dropped, a `send` fails and the handler goes on.

**Polling.**  `poll_next` asks the channel first and loads the flag then, and other tasks can
move in between.  `poll_recv` may say `Pending` although there is a message (a spurious failure,
in the words of its documentation).

The broker is only as far fixed as it keeps the credit it is given; whether it respects it is a
condition on its steps.  The fields below the line in `State` record what has happened.

**Two descriptions**, as for the producer: `step` can be run, and `Step` says the same with one
constructor for each atomic operation (`step_cases`).  The proofs about consumers go by cases on
the second.
-/
import RabbitMqStream.Client.Requests

namespace RabbitMqStream.Consumer

open Protocol

/-! ## 1. The consumer and what it makes of a chunk

The part of the handler that computes: which messages of a chunk it delivers and with which
offsets.  It filters first and counts then. -/

structure FilterConfiguration : Type where
  filterValues : List String
  predicate : Option (Message → Bool) := none
  matchUnfiltered : Bool

/-- The parts of a consumer that never change. -/
structure ConsumerInternal : Type where
  name : Option String
  stream : String
  offsetSpecification : OffsetSpecification
  subscriptionId : UInt8 := 1
  filterConfiguration : Option FilterConfiguration := none
  /-- A `consumer_update_listener` is set. -/
  consumerUpdateListener : Bool := false

structure Delivery : Type where
  name : Option String
  stream : String
  subscriptionId : UInt8
  message : Message
  offset : UInt64
  deriving DecidableEq

/-- The client filter. -/
def ConsumerInternal.filterMessages (c : ConsumerInternal) (messages : List Message) :
    List Message :=
  match c.filterConfiguration with
  | some filterInput =>
    match filterInput.predicate with
    | some f => messages.filter f
    | none => messages
  | none => messages

/-- A message with this offset is in front of where the consumer wants to start. -/
def ConsumerInternal.skips (c : ConsumerInternal) (offset : UInt64) : Bool :=
  match c.offsetSpecification with
  | .offset offset_ => offset_ > offset
  | _ => false

def ConsumerInternal.delivery (c : ConsumerInternal) (message : Message) (offset : UInt64) :
    Delivery :=
  ⟨c.name, c.stream, c.subscriptionId, message, offset⟩

/-- The loop of the handler over the messages, with the offset it has come to. -/
def ConsumerInternal.deliverLoop (c : ConsumerInternal) : UInt64 → List Message → List Delivery
  | _, [] => []
  | offset, message :: messages =>
    if c.skips offset then c.deliverLoop (offset + 1) messages
    else c.delivery message offset :: c.deliverLoop (offset + 1) messages

/-- What the handler puts into the channel for a chunk. -/
def ConsumerInternal.deliveries (c : ConsumerInternal) (delivery : DeliverCommand) :
    List Delivery :=
  c.deliverLoop delivery.chunkFirstOffset (c.filterMessages delivery.messages)

/-! ## 2. The state

What the broker holds and what is on the wire in both directions, the channel, the flag and the
tasks.  What has happened is recorded below the line, and no step looks at it. -/

/-- What the consumer hands to the connection. -/
inductive Outgoing : Type where
  | subscribe (credit : UInt16)
  | credit (cmd : CreditCommand)
  | consumerUpdate (correlationId : UInt32) (offsetSpecification : OffsetSpecification)
  | unsubscribe (subscriptionId : UInt8)
  deriving DecidableEq

/-- How `internal_close` ends. -/
inductive CloseResult : Type where
  | ok
  | alreadyClosed
  /-- The broker refuses to unsubscribe. -/
  | refused
  /-- A request fails. -/
  | failed
  deriving DecidableEq

inductive Task : Type where
  /-- The handler of a chunk, with what it has still to put into the channel; when that is
  nothing, at `Client::credit`. -/
  | deliver (rest : List Delivery)
  /-- The handler of a `ConsumerUpdate`. -/
  | consumerUpdate (cmd : ConsumerUpdateCommand)
  /-- In the listener. -/
  | listening (cmd : ConsumerUpdateCommand)
  /-- In `Client::consumer_update`, at the hand-over. -/
  | updating (correlationId : UInt32) (offsetSpecification : OffsetSpecification)
  /-- Waiting for the answer. -/
  | updated
  /-- The handler of `None`, at the `store`. -/
  | closing
  /-- `internal_close`, at the `compare_exchange`. -/
  | closeFlag
  /-- At the hand-over of the `UnSubscribe` request. -/
  | unsubscribe
  /-- Waiting for the answer to it. -/
  | unsubscribed
  /-- In `Client::close`. -/
  | closeClient
  | closeReturned (result : CloseResult)
  | finished
  /-- In the `unwrap` of the name. -/
  | panicked
  deriving DecidableEq

/-- How far `poll_next` has come: between its two steps it has what `poll_recv` gave it. -/
inductive Polling : Type where
  | idle
  | received (item : Option Delivery)
  deriving DecidableEq

inductive Poll : Type where
  | pending
  | ready (item : Option Delivery)
  deriving DecidableEq

structure State : Type where
  /-- The credit that the broker holds. -/
  credit : ℕ := 0
  /-- Frames on their way to the broker. -/
  outbound : List Outgoing := []
  /-- Frames on their way from the broker. -/
  inbound : List Response := []
  /-- The dispatcher has read the end of the stream. -/
  ended : Bool := false
  closed : Bool := false
  queue : List Delivery := []
  /-- The `Consumer` has been dropped, and with it the receiving end of the channel. -/
  dropped : Bool := false
  polling : Polling := .idle
  tasks : List Task := []
  -- Records of what has happened:
  sent : List DeliverCommand := []
  read : List DeliverCommand := []
  entered : List Delivery := []
  returned : List Delivery := []
  results : List Poll := []

/-- A consumer that has just handed over its `Subscribe` request, with one unit of credit. -/
def init : State := { outbound := [.subscribe 1] }

/-! ## 3. The steps

The broker and the connection take steps too: a chunk is sent, credit arrives, a frame is read,
a hand-over succeeds or fails.  A task waits where the channel is full, where the listener has
not returned and where a request is unanswered. -/

/-- The credit that a frame brings to the broker. -/
def Outgoing.grants : Outgoing → ℕ
  | .subscribe n => n.toNat
  | .credit cmd => cmd.credit.toNat
  | .consumerUpdate _ _ | .unsubscribe _ => 0

/-- The chunk in a frame, if it is one. -/
def chunk (r : Response) : Option DeliverCommand :=
  match r.kind with
  | .deliver d => some d
  | _ => none

/-- What is spawned for a frame.  `Client::handle_message` keeps `Tune` and `Heartbeat` frames
for the client, and the handler of the consumer ignores all but two kinds. -/
def ConsumerInternal.spawns (c : ConsumerInternal) (r : Response) : List Task :=
  match Client.Dispatcher.route r with
  | .notifying r =>
    match r.kind with
    | .tunes _ | .heartbeat _ => []
    | .deliver d => [.deliver (c.deliveries d)]
    | .consumerUpdate cmd => [.consumerUpdate cmd]
    | _ => [.finished]
  | _ => []

/-- A frame is handed over. -/
def State.write (s : State) (result : Client.SendResult) (frame : Outgoing) : State :=
  match result with
  | .ok | .failedWritten => { s with outbound := s.outbound ++ [frame] }
  | .failed => s

/-- How a request that the task waits for ends. -/
inductive Outcome : Type where
  | ok
  /-- The response has a code other than `Ok`. -/
  | refused
  | failed
  deriving DecidableEq

inductive Event : Type where
  | brokerSend (r : Response)
  | brokerReceive
  /-- The dispatcher reads a frame. -/
  | read
  /-- The dispatcher reads the end of the stream, or an error. -/
  | eof
  /-- `ConsumerHandle::close` is called. -/
  | close
  /-- The `Consumer` is dropped. -/
  | drop
  | pollRecv (spurious : Bool)
  /-- `poll_next` loads the flag and returns. -/
  | pollClosed
  /-- Task `t` takes its next step. -/
  | move (t : ℕ)
  /-- The hand-over that task `t` is at ends. -/
  | handOver (t : ℕ) (result : Client.SendResult)
  /-- The listener that task `t` is in returns. -/
  | listener (t : ℕ) (offsetSpecification : OffsetSpecification)
  /-- The request that task `t` waits for ends. -/
  | answer (t : ℕ) (outcome : Outcome)
  deriving DecidableEq

/-- The room in the channel. -/
def capacity : ℕ := 10000

/-- The next step of a task. -/
def advance (c : ConsumerInternal) (s : State) : Task → Option (State × Task)
  | .deliver (d :: rest) =>
    if s.dropped then some (s, .deliver rest)
    else if s.queue.length < capacity then
      some ({ s with queue := s.queue ++ [d], entered := s.entered ++ [d] }, .deliver rest)
    else none
  | .consumerUpdate cmd =>
    if c.consumerUpdateListener then
      match c.name with
      | some _ => some (s, .listening cmd)
      | none => some (s, .panicked)
    else some (s, .updating cmd.correlationId .next)
  | .closing => some ({ s with closed := true }, .finished)
  | .closeFlag =>
    if s.closed then some (s, .closeReturned .alreadyClosed)
    else some ({ s with closed := true }, .unsubscribe)
  | .deliver [] | .listening _ | .updating _ _ | .updated | .unsubscribe | .unsubscribed
  | .closeClient | .closeReturned _ | .finished | .panicked => none

/-- The frame that a task is about to hand over, and where it goes when that has worked or has
failed. -/
def Task.handsOver (c : ConsumerInternal) : Task → Option (Outgoing × Task × Task)
  | .deliver [] => some (.credit ⟨c.subscriptionId, 1⟩, .finished, .finished)
  | .updating correlationId offsetSpecification =>
    some (.consumerUpdate correlationId offsetSpecification, .updated, .finished)
  | .unsubscribe => some (.unsubscribe c.subscriptionId, .unsubscribed, .closeReturned .failed)
  | _ => none

def Task.answered (outcome : Outcome) : Task → Option Task
  | .updated => some .finished
  | .unsubscribed =>
    match outcome with
    | .ok => some .closeClient
    | .refused => some (.closeReturned .refused)
    | .failed => some (.closeReturned .failed)
  | .closeClient =>
    match outcome with
    -- the code of the response to `Close` is not looked at
    | .ok | .refused => some (.closeReturned .ok)
    | .failed => some (.closeReturned .failed)
  | _ => none

def step (c : ConsumerInternal) (s : State) : Event → Option State
  | .brokerSend r => some { s with
      inbound := s.inbound ++ [r]
      credit := s.credit - (chunk r).toList.length
      sent := s.sent ++ (chunk r).toList }
  | .brokerReceive =>
    match s.outbound with
    | frame :: rest => some { s with outbound := rest, credit := s.credit + frame.grants }
    | [] => none
  | .read =>
    if s.ended then none
    else
      match s.inbound with
      | r :: rest => some { s with
          inbound := rest
          tasks := s.tasks ++ c.spawns r
          read := s.read ++ (chunk r).toList }
      | [] => none
  | .eof =>
    if s.ended then none else some { s with ended := true, tasks := s.tasks ++ [.closing] }
  | .close => some { s with tasks := s.tasks ++ [.closeFlag] }
  | .drop =>
    if s.dropped = false ∧ s.polling = .idle then some { s with dropped := true, queue := [] }
    else none
  | .pollRecv spurious =>
    if s.dropped = false ∧ s.polling = .idle then
      match spurious, s.queue with
      | false, d :: rest => some { s with queue := rest, polling := .received (some d) }
      | _, _ => some { s with polling := .received none }
    else none
  | .pollClosed =>
    match s.polling with
    | .received (some d) => some { s with
        polling := .idle
        returned := s.returned ++ [d]
        results := s.results ++ [.ready (some d)] }
    | .received none => some { s with
        polling := .idle
        results := s.results ++ [if s.closed then .ready none else .pending] }
    | .idle => none
  | .move t =>
    match s.tasks[t]? with
    | some τ =>
      match advance c s τ with
      | some (s', τ') => some { s' with tasks := s.tasks.set t τ' }
      | none => none
    | none => none
  | .handOver t result =>
    match s.tasks[t]? with
    | some τ =>
      match τ.handsOver c with
      | some (frame, sent, failed) => some { s.write result frame with
          tasks := s.tasks.set t (if result = .ok then sent else failed) }
      | none => none
    | none => none
  | .listener t offsetSpecification =>
    match s.tasks[t]? with
    | some (.listening cmd) => some { s with
        tasks := s.tasks.set t (.updating cmd.correlationId offsetSpecification) }
    | _ => none
  | .answer t outcome =>
    match s.tasks[t]? with
    | some τ =>
      match τ.answered outcome with
      | some τ' => some { s with tasks := s.tasks.set t τ' }
      | none => none
    | none => none

/-! ## 4. What a step can do

A step of a task that touches nothing but the task is a `Walk`, and many operations are that;
the others have a constructor of `Step` each. -/

/-- A step of task `t` that touches nothing but the task. -/
inductive Walk (c : ConsumerInternal) (s : State) (t : ℕ) : Event → Task → Task → Prop where
  | listen {cmd : ConsumerUpdateCommand} (hl : c.consumerUpdateListener = true)
      (hn : c.name ≠ none) : Walk c s t (.move t) (.consumerUpdate cmd) (.listening cmd)
  | unwrap {cmd : ConsumerUpdateCommand} (hl : c.consumerUpdateListener = true)
      (hn : c.name = none) : Walk c s t (.move t) (.consumerUpdate cmd) .panicked
  | next {cmd : ConsumerUpdateCommand} (hl : c.consumerUpdateListener = false) :
      Walk c s t (.move t) (.consumerUpdate cmd) (.updating cmd.correlationId .next)
  | listened {cmd : ConsumerUpdateCommand} (spec : OffsetSpecification) :
      Walk c s t (.listener t spec) (.listening cmd) (.updating cmd.correlationId spec)
  | alreadyClosed (hc : s.closed = true) :
      Walk c s t (.move t) .closeFlag (.closeReturned .alreadyClosed)
  | answered {τ τ' : Task} {outcome : Outcome} (h : τ.answered outcome = some τ') :
      Walk c s t (.answer t outcome) τ τ'

/-- The steps once more, as a relation to argue by cases on. -/
inductive Step (c : ConsumerInternal) (s : State) : Event → State → Prop where
  | brokerSend (r : Response) : Step c s (.brokerSend r) { s with
      inbound := s.inbound ++ [r]
      credit := s.credit - (chunk r).toList.length
      sent := s.sent ++ (chunk r).toList }
  | brokerReceive {frame : Outgoing} {rest : List Outgoing} (ho : s.outbound = frame :: rest) :
      Step c s .brokerReceive { s with outbound := rest, credit := s.credit + frame.grants }
  | read {r : Response} {rest : List Response} (he : s.ended = false)
      (hi : s.inbound = r :: rest) :
      Step c s .read { s with
        inbound := rest
        tasks := s.tasks ++ c.spawns r
        read := s.read ++ (chunk r).toList }
  | eof (he : s.ended = false) :
      Step c s .eof { s with ended := true, tasks := s.tasks ++ [.closing] }
  | close : Step c s .close { s with tasks := s.tasks ++ [.closeFlag] }
  | drop (hd : s.dropped = false) (hp : s.polling = .idle) :
      Step c s .drop { s with dropped := true, queue := [] }
  | pollItem {d : Delivery} {rest : List Delivery} (hd : s.dropped = false)
      (hp : s.polling = .idle) (hq : s.queue = d :: rest) :
      Step c s (.pollRecv false) { s with queue := rest, polling := .received (some d) }
  | pollNone {spurious : Bool} (hd : s.dropped = false) (hp : s.polling = .idle)
      (hq : spurious = false → s.queue = []) :
      Step c s (.pollRecv spurious) { s with polling := .received none }
  | returnItem {d : Delivery} (hp : s.polling = .received (some d)) :
      Step c s .pollClosed { s with
        polling := .idle
        returned := s.returned ++ [d]
        results := s.results ++ [.ready (some d)] }
  | returnNone (hp : s.polling = .received none) :
      Step c s .pollClosed { s with
        polling := .idle
        results := s.results ++ [if s.closed then .ready none else .pending] }
  | enter {t : ℕ} {d : Delivery} {rest : List Delivery}
      (ht : s.tasks[t]? = some (.deliver (d :: rest))) (hd : s.dropped = false)
      (hq : s.queue.length < capacity) :
      Step c s (.move t) { s with
        queue := s.queue ++ [d]
        entered := s.entered ++ [d]
        tasks := s.tasks.set t (.deliver rest) }
  | discard {t : ℕ} {d : Delivery} {rest : List Delivery}
      (ht : s.tasks[t]? = some (.deliver (d :: rest))) (hd : s.dropped = true) :
      Step c s (.move t) { s with tasks := s.tasks.set t (.deliver rest) }
  | closing {t : ℕ} (ht : s.tasks[t]? = some .closing) :
      Step c s (.move t) { s with closed := true, tasks := s.tasks.set t .finished }
  | closeFlag {t : ℕ} (ht : s.tasks[t]? = some .closeFlag) (hc : s.closed = false) :
      Step c s (.move t) { s with closed := true, tasks := s.tasks.set t .unsubscribe }
  | handOver {t : ℕ} {τ sent failed : Task} {frame : Outgoing} (result : Client.SendResult)
      (ht : s.tasks[t]? = some τ) (ho : τ.handsOver c = some (frame, sent, failed)) :
      Step c s (.handOver t result) { s.write result frame with
        tasks := s.tasks.set t (if result = .ok then sent else failed) }
  | walk {e : Event} {t : ℕ} {τ τ' : Task} (ht : s.tasks[t]? = some τ)
      (hw : Walk c s t e τ τ') : Step c s e { s with tasks := s.tasks.set t τ' }

theorem step_move_cases {c : ConsumerInternal} {s s' : State} {t : ℕ}
    (h : step c s (.move t) = some s') : Step c s (.move t) s' := by
  simp only [step] at h
  split at h
  · rename_i τ ht
    split at h
    · rename_i u τ' hadv
      rw [Option.some.injEq] at h
      subst h
      cases τ with
      | deliver rest =>
        cases rest with
        | nil => cases hadv
        | cons d rest =>
          simp only [advance] at hadv
          split at hadv
          · rename_i hd
            cases hadv
            exact .discard ht hd
          · rename_i hd
            split at hadv
            · rename_i hq
              cases hadv
              exact .enter ht (by simpa using hd) hq
            · exact absurd hadv (by simp)
      | consumerUpdate cmd =>
        simp only [advance] at hadv
        split at hadv
        · rename_i hl
          split at hadv
          · rename_i name hn
            cases hadv
            exact .walk ht (.listen hl (by simp [hn]))
          · rename_i hn
            cases hadv
            exact .walk ht (.unwrap hl hn)
        · rename_i hl
          cases hadv
          exact .walk ht (.next (by simpa using hl))
      | closing =>
        cases hadv
        exact .closing ht
      | closeFlag =>
        simp only [advance] at hadv
        split at hadv
        · rename_i hc
          cases hadv
          exact .walk ht (.alreadyClosed hc)
        · rename_i hc
          cases hadv
          exact .closeFlag ht (by simpa using hc)
      | _ => cases hadv
    · exact absurd h (by simp)
  · exact absurd h (by simp)

theorem step_cases {c : ConsumerInternal} {s s' : State} {e : Event}
    (h : step c s e = some s') : Step c s e s' := by
  cases e with
  | brokerSend r =>
    cases h
    exact .brokerSend r
  | close =>
    cases h
    exact .close
  | move t => exact step_move_cases h
  | brokerReceive =>
    simp only [step] at h
    split at h
    · rename_i frame rest ho
      cases h
      exact .brokerReceive ho
    · exact absurd h (by simp)
  | read =>
    simp only [step] at h
    split at h
    · exact absurd h (by simp)
    · rename_i he
      split at h
      · rename_i r rest hi
        cases h
        exact .read (by simpa using he) hi
      · exact absurd h (by simp)
  | eof =>
    simp only [step] at h
    split at h
    · exact absurd h (by simp)
    · rename_i he
      cases h
      exact .eof (by simpa using he)
  | drop =>
    simp only [step] at h
    split at h
    · rename_i hc
      cases h
      exact .drop hc.1 hc.2
    · exact absurd h (by simp)
  | pollRecv spurious =>
    simp only [step] at h
    split at h
    · rename_i hc
      split at h
      · rename_i d rest hq
        cases h
        exact .pollItem hc.1 hc.2 hq
      · rename_i hne
        cases h
        refine .pollNone hc.1 hc.2 fun hs => ?_
        cases hq : s.queue with
        | nil => rfl
        | cons d rest => exact absurd hq (hne d rest hs)
    · exact absurd h (by simp)
  | pollClosed =>
    simp only [step] at h
    split at h
    · rename_i d hp
      cases h
      exact .returnItem hp
    · rename_i hp
      cases h
      exact .returnNone hp
    · exact absurd h (by simp)
  | handOver t result =>
    simp only [step] at h
    split at h
    · rename_i τ ht
      split at h
      · rename_i frame sent failed ho
        cases h
        exact .handOver result ht ho
      · exact absurd h (by simp)
    · exact absurd h (by simp)
  | listener t spec =>
    simp only [step] at h
    split at h
    · rename_i cmd ht
      cases h
      exact .walk ht (.listened spec)
    · exact absurd h (by simp)
  | answer t outcome =>
    simp only [step] at h
    split at h
    · rename_i τ ht
      split at h
      · rename_i τ' ha
        cases h
        exact .walk ht (.answered ha)
      · exact absurd h (by simp)
    · exact absurd h (by simp)

end RabbitMqStream.Consumer
