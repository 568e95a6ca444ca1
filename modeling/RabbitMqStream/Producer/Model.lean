/-
# The producer

`producer.rs`: messages are given an id, a waiter with the caller's callback is put into a map
under the id, and the message is published, either through the accumulator, which the sender
that fills it or a timer flushes, or directly as a batch.  The broker's answers come back in
frames of their own, and for each frame a task is spawned that takes the waiters out of the map
and calls them.

**Tasks.**  Every call of `send`, `batch_send` and `close`, the timer and every answer frame is
a task, and the tasks of all clones of a producer run at the same time over the same shared
state.  A task is the place it has come to, with the local variables that are still used.  One
step of a task is one atomic operation of the code: a `fetch_add` or `fetch_sub`, a load of the
flag, an insertion into or a removal from the map, a `send` or a `try_recv` on the channel of
the accumulator, the hand-over of a frame to the connection, the call of a callback.

**The channel** of the accumulator is a bounded queue: a sender waits while it is full.  The
lock on its receiving end is held from before the first `try_recv` to behind the `fetch_sub`.

**Publishing** may fail at any time, before or after the frame has been written.

The fields below the line in `Shared` are not state of the program.  They record what has
happened: how many ids were drawn, what was registered, which answers came and which callbacks
were called with what.

**Two descriptions.**  `step` is the code, as a function that can be run.  `Move` says the same as
a relation with one constructor for each atomic operation (`step_move`), and all proofs about the
producer go by cases on it: a change of one operation of the source is a change of one
constructor, and of the cases that speak of it.
-/
import Mathlib.Logic.Function.Basic
import RabbitMqStream.Lts.Run
import RabbitMqStream.Protocol.Response

namespace RabbitMqStream.Producer

open Protocol

/-! ## 1. Messages and waiters

A callback is known by a name only, since nothing depends on what it does.  A message has the id
that its caller gave it, or none yet, and keeps the one that is chosen for it. -/

/-- A callback, by a name that stands for the closure. -/
abbrev Callback : Type := ℕ

structure ClientMessage : Type where
  publishingId : UInt64
  message : Message
  filterValue : Option String := none
  deriving DecidableEq

/-- `PublishedMessage::new(publishing_id, message.to_message(), filter_value)`, as
`Client::publish` does it.  A `ClientMessage` always has an id. -/
def ClientMessage.toPublished (m : ClientMessage) : PublishedMessage :=
  ⟨m.publishingId, m.message, m.filterValue⟩

structure ProducerMessageWaiter : Type where
  cb : Callback
  msg : Message
  deriving DecidableEq

structure ConfirmationStatus : Type where
  publishingId : UInt64
  confirmed : Bool
  status : ResponseCode
  message : Message
  deriving DecidableEq

/-- What a frame of the broker says about one id. -/
inductive Answer : Type where
  | confirm (publishingId : UInt64)
  | error (publishingId : UInt64) (code : ResponseCode)
  deriving DecidableEq

def Answer.publishingId : Answer → UInt64
  | .confirm id => id
  | .error id _ => id

/-- `handle_confirm` and `handle_error` of the waiter: what its callback is called with. -/
def Answer.status (msg : Message) : Answer → ConfirmationStatus
  | .confirm id => ⟨id, true, .ok, msg⟩
  | .error id code => ⟨id, false, code, msg⟩

/-- The settings of a producer, which never change. -/
structure Config : Type where
  producerId : UInt8
  batchSize : UInt64
  publishVersion : UInt16
  filterValueExtractor : Option (Message → String)

/-- `ClientMessage::new` and `filter_value_extract`. -/
def Config.wrap (cfg : Config) (publishingId : UInt64) (message : Message) : ClientMessage :=
  match cfg.filterValueExtractor with
  | some f => ⟨publishingId, message, some (f message)⟩
  | none => ⟨publishingId, message, none⟩

/-! ## 2. The state

What all clones of a producer share, and the tasks that are at work on it.  A task that has
ended stays in the list, so that its number names it in every later state. -/

/-- What is handed to the connection. -/
inductive Outgoing : Type where
  | publish (cmd : PublishCommand)
  | deletePublisher (publisherId : UInt8)
  deriving DecidableEq

structure Shared : Type where
  publishSequence : UInt64
  waitingConfirmations : UInt64 → Option ProducerMessageWaiter := fun _ => none
  closed : Bool := false
  /-- The channel of the accumulator. -/
  queue : List ClientMessage := []
  messageCount : UInt64 := 0
  /-- Someone holds the receiving end of the channel. -/
  locked : Bool := false
  wire : List Outgoing := []
  -- Records of what has happened:
  drawn : ℕ := 0
  registrations : List (UInt64 × ProducerMessageWaiter) := []
  answered : List Answer := []
  invocations : List (Callback × ConfirmationStatus) := []

/-- Who flushes or publishes. -/
inductive Owner : Type where
  | sender
  | batch
  | timer
  deriving DecidableEq

inductive Task : Type where
  /-- `internal_send`, at `is_closed`. -/
  | sendCheck (cb : Callback) (m : Message)
  /-- At the choice of the id. -/
  | sendDraw (cb : Callback) (m : Message)
  /-- At the insertion of the waiter. -/
  | sendRegister (cb : Callback) (m : Message) (id : UInt64)
  /-- In `MessageAccumulator::add`, at the `send`. -/
  | sendAdd (msg : ClientMessage)
  /-- At the `fetch_add`. -/
  | sendCount
  /-- `internal_batch_send`, at `is_closed`. -/
  | batchCheck (cb : Callback) (ms : List Message)
  /-- At the head of its loop. -/
  | batchDraw (cb : Callback) (ms : List Message) (wrapped : List ClientMessage)
  | batchRegister (cb : Callback) (m : Message) (id : UInt64) (ms : List Message)
      (wrapped : List ClientMessage)
  /-- `ProducerInternal::batch_send`: in `MessageAccumulator::get`, at the lock. -/
  | lock (owner : Owner)
  /-- At the head of the loop of `try_recv`. -/
  | drain (owner : Owner) (messages : List ClientMessage)
  /-- At the `fetch_sub`. -/
  | release (owner : Owner) (messages : List ClientMessage)
  /-- In `Client::publish`. -/
  | publish (owner : Owner) (messages : List ClientMessage)
  /-- `schedule_batch_send`, waiting for the next tick. -/
  | tick
  /-- `handle_message` with the answers it has not come to yet. -/
  | handle (answers : List Answer)
  /-- In `with_waiter`, with the waiter. -/
  | callback (a : Answer) (w : ProducerMessageWaiter) (answers : List Answer)
  /-- `close`, at the `compare_exchange`. -/
  | closeFlag
  /-- At the hand-over of the `DeletePublisher` request. -/
  | deletePublisher
  /-- Waiting for the answer to it. -/
  | deleted
  | returned (ok : Bool)
  /-- In the `todo!()` of `with_waiter`. -/
  | panicked
  deriving DecidableEq

structure State : Type where
  shared : Shared
  tasks : List Task

/-- A producer that has just been built: its sequence is what the broker has told it. -/
def init (first : UInt64) : State := ⟨{ publishSequence := first }, [.tick]⟩

/-! ## 3. The steps

`advance` takes a task from one atomic operation to the next, by the place it has come to.  What
a task cannot decide by itself is an event of its own: that it is called, that a frame comes,
and how the hand-over of a frame to the connection ends. -/

/-- The id of a message: its own, or the next one of the sequence. -/
def Shared.draw (s : Shared) (m : Message) : Shared × UInt64 :=
  match m.publishingId with
  | some id => (s, id)
  | none =>
    ({ s with publishSequence := s.publishSequence + 1, drawn := s.drawn + 1 },
      s.publishSequence)

/-- `waiting_confirmations.insert`. -/
def Shared.register (s : Shared) (id : UInt64) (w : ProducerMessageWaiter) : Shared :=
  { s with
    waitingConfirmations := Function.update s.waitingConfirmations id (some w)
    registrations := s.registrations ++ [(id, w)] }

/-- Where a task goes when its flush or its publishing is over.  The timer logs an error and
waits for its next tick. -/
def Owner.finish (owner : Owner) (ok : Bool) : Task :=
  match owner with
  | .timer => .tick
  | .sender | .batch => .returned ok

/-- The next step of a task. -/
def advance (cfg : Config) (s : Shared) : Task → Option (Shared × Task)
  | .sendCheck cb m => if s.closed then some (s, .returned false) else some (s, .sendDraw cb m)
  | .sendDraw cb m =>
    let (s, id) := s.draw m
    some (s, .sendRegister cb m id)
  | .sendRegister cb m id => some (s.register id ⟨cb, m⟩, .sendAdd (cfg.wrap id m))
  | .sendAdd msg =>
    if s.queue.length < cfg.batchSize.toNat then
      some ({ s with queue := s.queue ++ [msg] }, .sendCount)
    else none
  | .sendCount =>
    some ({ s with messageCount := s.messageCount + 1 },
      if s.messageCount + 1 = cfg.batchSize then .lock .sender else .returned true)
  | .batchCheck cb ms =>
    if s.closed then some (s, .returned false) else some (s, .batchDraw cb ms [])
  | .batchDraw _ [] wrapped => some (s, .publish .batch wrapped)
  | .batchDraw cb (m :: ms) wrapped =>
    let (s, id) := s.draw m
    some (s, .batchRegister cb m id ms wrapped)
  | .batchRegister cb m id ms wrapped =>
    some (s.register id ⟨cb, m⟩, .batchDraw cb ms (wrapped ++ [cfg.wrap id m]))
  | .lock owner => if s.locked then none else some ({ s with locked := true }, .drain owner [])
  | .drain owner messages =>
    if messages.length < cfg.batchSize.toNat then
      match s.queue with
      | msg :: rest => some ({ s with queue := rest }, .drain owner (messages ++ [msg]))
      | [] => some (s, .release owner messages)
    else some (s, .release owner messages)
  | .release owner messages =>
    some ({ s with
        messageCount := s.messageCount - UInt64.ofNat messages.length
        locked := false },
      if messages.isEmpty then owner.finish true else .publish owner messages)
  | .tick => some (s, .lock .timer)
  | .handle [] => some (s, .returned true)
  | .handle (a :: answers) =>
    match s.waitingConfirmations a.publishingId with
    | some w =>
      some ({ s with
        waitingConfirmations := Function.update s.waitingConfirmations a.publishingId none },
        .callback a w answers)
    | none => some (s, .panicked)
  | .callback a w answers =>
    some ({ s with invocations := s.invocations ++ [(w.cb, a.status w.msg)] }, .handle answers)
  | .closeFlag =>
    if s.closed then some (s, .returned false)
    else some ({ s with closed := true }, .deletePublisher)
  | .deletePublisher =>
    some ({ s with wire := s.wire ++ [.deletePublisher cfg.producerId] }, .deleted)
  | .publish _ _ | .deleted | .returned _ | .panicked => none

/-- How a call of `Client::publish` ends. -/
inductive PublishResult : Type where
  | ok
  /-- It fails and nothing is written. -/
  | failed
  /-- It fails after the frame has been written. -/
  | failedWritten
  deriving DecidableEq

inductive Event : Type where
  | send (cb : Callback) (m : Message)
  | batchSend (cb : Callback) (ms : List Message)
  | close
  /-- A `PublishConfirm` frame. -/
  | confirm (publishingIds : List UInt64)
  /-- A `PublishError` frame. -/
  | error (publishingErrors : List PublishingError)
  /-- Task `t` takes its next step. -/
  | move (t : ℕ)
  /-- The publishing that task `t` is in ends. -/
  | publish (t : ℕ) (result : PublishResult)
  deriving DecidableEq

def State.spawn (s : State) (τ : Task) : State := { s with tasks := s.tasks ++ [τ] }

/-- A frame of answers arrives and a task is spawned for it. -/
def State.receive (s : State) (answers : List Answer) : State :=
  ⟨{ s.shared with answered := s.shared.answered ++ answers }, s.tasks ++ [.handle answers]⟩

/-- The frame that publishes the messages. -/
def Config.frame (cfg : Config) (messages : List ClientMessage) : PublishCommand :=
  ⟨cfg.producerId, messages.map ClientMessage.toPublished, cfg.publishVersion⟩

def PublishResult.write (result : PublishResult) (s : Shared) (cmd : PublishCommand) : Shared :=
  match result with
  | .ok | .failedWritten => { s with wire := s.wire ++ [.publish cmd] }
  | .failed => s

def step (cfg : Config) (s : State) : Event → Option State
  | .send cb m => some (s.spawn (.sendCheck cb m))
  | .batchSend cb ms => some (s.spawn (.batchCheck cb ms))
  | .close => some (s.spawn .closeFlag)
  | .confirm ids => some (s.receive (ids.map .confirm))
  | .error errs => some (s.receive (errs.map fun e => .error e.publishingId e.errorCode))
  | .move t =>
    match s.tasks[t]? with
    | some τ =>
      match advance cfg s.shared τ with
      | some (shared, τ') => some ⟨shared, s.tasks.set t τ'⟩
      | none => none
    | none => none
  | .publish t result =>
    match s.tasks[t]? with
    | some (.publish owner messages) =>
      some ⟨result.write s.shared (cfg.frame messages),
        s.tasks.set t (owner.finish (result = .ok))⟩
    | _ => none

/-! ## 4. What a step can do

The steps read backwards.  A constructor of `Move` has the place a task comes from, the place it
gets to, what the step finds in the shared state and what it leaves there, which is all that an
invariant can need. -/

/-- The steps of a task once more, as a relation to argue by cases on. -/
inductive Move (cfg : Config) (s : Shared) : Task → Shared → Task → Prop where
  | sendRefused {cb : Callback} {m : Message} (hc : s.closed = true) :
      Move cfg s (.sendCheck cb m) s (.returned false)
  | sendAllowed {cb : Callback} {m : Message} (hc : s.closed = false) :
      Move cfg s (.sendCheck cb m) s (.sendDraw cb m)
  | sendDraw {cb : Callback} {m : Message} :
      Move cfg s (.sendDraw cb m) (s.draw m).1 (.sendRegister cb m (s.draw m).2)
  | sendRegister {cb : Callback} {m : Message} {id : UInt64} :
      Move cfg s (.sendRegister cb m id) (s.register id ⟨cb, m⟩) (.sendAdd (cfg.wrap id m))
  | sendAdd {msg : ClientMessage} (hroom : s.queue.length < cfg.batchSize.toNat) :
      Move cfg s (.sendAdd msg) { s with queue := s.queue ++ [msg] } .sendCount
  | sendFull (hcount : s.messageCount + 1 = cfg.batchSize) :
      Move cfg s .sendCount { s with messageCount := s.messageCount + 1 } (.lock .sender)
  | sendDone (hcount : s.messageCount + 1 ≠ cfg.batchSize) :
      Move cfg s .sendCount { s with messageCount := s.messageCount + 1 } (.returned true)
  | batchRefused {cb : Callback} {ms : List Message} (hc : s.closed = true) :
      Move cfg s (.batchCheck cb ms) s (.returned false)
  | batchAllowed {cb : Callback} {ms : List Message} (hc : s.closed = false) :
      Move cfg s (.batchCheck cb ms) s (.batchDraw cb ms [])
  | batchDone {cb : Callback} {wrapped : List ClientMessage} :
      Move cfg s (.batchDraw cb [] wrapped) s (.publish .batch wrapped)
  | batchDraw {cb : Callback} {m : Message} {ms : List Message} {wrapped : List ClientMessage} :
      Move cfg s (.batchDraw cb (m :: ms) wrapped) (s.draw m).1
        (.batchRegister cb m (s.draw m).2 ms wrapped)
  | batchRegister {cb : Callback} {m : Message} {id : UInt64} {ms : List Message}
      {wrapped : List ClientMessage} :
      Move cfg s (.batchRegister cb m id ms wrapped) (s.register id ⟨cb, m⟩)
        (.batchDraw cb ms (wrapped ++ [cfg.wrap id m]))
  | lock {owner : Owner} (hl : s.locked = false) :
      Move cfg s (.lock owner) { s with locked := true } (.drain owner [])
  | pop {owner : Owner} {messages : List ClientMessage} {msg : ClientMessage}
      {rest : List ClientMessage} (hlt : messages.length < cfg.batchSize.toNat)
      (hq : s.queue = msg :: rest) :
      Move cfg s (.drain owner messages) { s with queue := rest }
        (.drain owner (messages ++ [msg]))
  | drained {owner : Owner} {messages : List ClientMessage}
      (hend : messages.length < cfg.batchSize.toNat → s.queue = []) :
      Move cfg s (.drain owner messages) s (.release owner messages)
  | releaseNone {owner : Owner} :
      Move cfg s (.release owner [])
        { s with messageCount := s.messageCount - UInt64.ofNat 0, locked := false }
        (owner.finish true)
  | release {owner : Owner} {messages : List ClientMessage} (hne : messages ≠ []) :
      Move cfg s (.release owner messages)
        { s with
          messageCount := s.messageCount - UInt64.ofNat messages.length
          locked := false }
        (.publish owner messages)
  | tick : Move cfg s .tick s (.lock .timer)
  | handled : Move cfg s (.handle []) s (.returned true)
  | take {a : Answer} {w : ProducerMessageWaiter} {answers : List Answer}
      (hw : s.waitingConfirmations a.publishingId = some w) :
      Move cfg s (.handle (a :: answers))
        { s with
          waitingConfirmations := Function.update s.waitingConfirmations a.publishingId none }
        (.callback a w answers)
  | miss {a : Answer} {answers : List Answer}
      (hw : s.waitingConfirmations a.publishingId = none) :
      Move cfg s (.handle (a :: answers)) s .panicked
  | call {a : Answer} {w : ProducerMessageWaiter} {answers : List Answer} :
      Move cfg s (.callback a w answers)
        { s with invocations := s.invocations ++ [(w.cb, a.status w.msg)] } (.handle answers)
  | closeRefused (hc : s.closed = true) : Move cfg s .closeFlag s (.returned false)
  | closeFlag (hc : s.closed = false) :
      Move cfg s .closeFlag { s with closed := true } .deletePublisher
  | deletePublisher :
      Move cfg s .deletePublisher { s with wire := s.wire ++ [.deletePublisher cfg.producerId] }
        .deleted

/-- By cases on the place of the task, and on what it finds. -/
theorem advance_cases {cfg : Config} {s s' : Shared} {τ τ' : Task}
    (h : advance cfg s τ = some (s', τ')) : Move cfg s τ s' τ' := by
  cases τ with
  | sendCheck cb m =>
    simp only [advance] at h
    split at h
    · rename_i hc
      cases h
      exact .sendRefused hc
    · rename_i hc
      cases h
      exact .sendAllowed (by simpa using hc)
  | sendDraw cb m =>
    cases h
    exact .sendDraw
  | sendRegister cb m id =>
    cases h
    exact .sendRegister
  | sendAdd msg =>
    simp only [advance] at h
    split at h
    · rename_i hroom
      cases h
      exact .sendAdd hroom
    · exact absurd h (by simp)
  | sendCount =>
    cases h
    split
    · rename_i hcount
      exact .sendFull hcount
    · rename_i hcount
      exact .sendDone hcount
  | batchCheck cb ms =>
    simp only [advance] at h
    split at h
    · rename_i hc
      cases h
      exact .batchRefused hc
    · rename_i hc
      cases h
      exact .batchAllowed (by simpa using hc)
  | batchDraw cb ms wrapped =>
    cases ms with
    | nil =>
      cases h
      exact .batchDone
    | cons m ms =>
      cases h
      exact .batchDraw
  | batchRegister cb m id ms wrapped =>
    cases h
    exact .batchRegister
  | lock owner =>
    simp only [advance] at h
    split at h
    · exact absurd h (by simp)
    · rename_i hl
      cases h
      exact .lock (by simpa using hl)
  | drain owner messages =>
    simp only [advance] at h
    split at h
    · rename_i hlt
      split at h
      · rename_i msg rest hq
        cases h
        exact .pop hlt hq
      · rename_i hq
        cases h
        exact .drained fun _ => hq
    · rename_i hge
      cases h
      exact .drained fun hlt => absurd hlt hge
  | release owner messages =>
    cases h
    split
    · rename_i hempty
      obtain rfl := List.isEmpty_iff.mp hempty
      exact .releaseNone
    · rename_i hne
      exact .release fun hnil => hne (List.isEmpty_iff.mpr hnil)
  | tick =>
    cases h
    exact .tick
  | handle answers =>
    cases answers with
    | nil =>
      cases h
      exact .handled
    | cons a answers =>
      simp only [advance] at h
      split at h
      · rename_i w hw
        cases h
        exact .take hw
      · rename_i hw
        cases h
        exact .miss hw
  | callback a w answers =>
    cases h
    exact .call
  | closeFlag =>
    simp only [advance] at h
    split at h
    · rename_i hc
      cases h
      exact .closeRefused hc
    · rename_i hc
      cases h
      exact .closeFlag (by simpa using hc)
  | deletePublisher =>
    cases h
    exact .deletePublisher
  | publish | deleted | returned | panicked => cases h

theorem step_move {cfg : Config} {s s' : State} {t : ℕ} (h : step cfg s (.move t) = some s') :
    ∃ τ sh τ', s.tasks[t]? = some τ ∧ Move cfg s.shared τ sh τ' ∧
      s' = ⟨sh, s.tasks.set t τ'⟩ := by
  simp only [step] at h
  split at h
  · rename_i τ ht
    split at h
    · rename_i sh τ' hadv
      cases h
      exact ⟨τ, sh, τ', ht, advance_cases hadv, rfl⟩
    · exact absurd h (by simp)
  · exact absurd h (by simp)

theorem step_publish {cfg : Config} {s s' : State} {t : ℕ} {result : PublishResult}
    (h : step cfg s (.publish t result) = some s') :
    ∃ owner messages, s.tasks[t]? = some (.publish owner messages) ∧
      s' = ⟨result.write s.shared (cfg.frame messages),
        s.tasks.set t (owner.finish (result = .ok))⟩ := by
  simp only [step] at h
  split at h
  · rename_i owner messages ht
    cases h
    exact ⟨owner, messages, ht, rfl⟩
  · exact absurd h (by simp)

/-- The choice of an id touches nothing but the sequence. -/
theorem draw_frame (s : Shared) (m : Message) :
    (s.draw m).1.waitingConfirmations = s.waitingConfirmations ∧
    (s.draw m).1.queue = s.queue ∧ (s.draw m).1.wire = s.wire := by
  unfold Shared.draw
  split <;> exact ⟨rfl, rfl, rfl⟩

/-- The choice of an id records nothing. -/
theorem draw_records (s : Shared) (m : Message) :
    (s.draw m).1.registrations = s.registrations ∧ (s.draw m).1.invocations = s.invocations := by
  unfold Shared.draw
  split <;> exact ⟨rfl, rfl⟩

/-- Publishing changes nothing but the wire. -/
theorem write_frame (result : PublishResult) (s : Shared) (cmd : PublishCommand) :
    (result.write s cmd).publishSequence = s.publishSequence ∧
    (result.write s cmd).drawn = s.drawn ∧
    (result.write s cmd).registrations = s.registrations ∧
    (result.write s cmd).queue = s.queue := by
  cases result <;> exact ⟨rfl, rfl, rfl, rfl⟩

/-- Publishing has nothing to do with the waiters. -/
theorem write_waiters (result : PublishResult) (s : Shared) (cmd : PublishCommand) :
    (result.write s cmd).waitingConfirmations = s.waitingConfirmations ∧
    (result.write s cmd).invocations = s.invocations := by
  cases result <;> exact ⟨rfl, rfl⟩

end RabbitMqStream.Producer
