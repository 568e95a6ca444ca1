/-
# Requests: which id a call waits for and which id it sends

`Client::send_and_receive` draws an id from the dispatcher and registers a channel under it,
passes the id to the closure that makes the request, hands the request to the connection and
waits on the channel.  About twenty methods of the client are a call of it with a closure of
their own.  All of them put the id they are given into the request, except `consumer_update`,
which answers a request of the broker with the broker's id.

**Calls.**  Call number `n` of `send_and_receive` makes call number `n` of `response_channel`, so
the calls here run beside those of the dispatcher.  Handing a request over may fail, before or
after it has been written.

* `waiters_match`: when every `consumer_update` is called with the id that it draws itself, the
  id that a call waits for is the id in its request, and the answers to all requests that were
  handed over take their entries out of the map.
* `consumerUpdate_leaks`: what happens otherwise.

**The argument.**  A call waits for the id under which its entry is, and sends the id that its
closure puts into the request; by cases on the methods these are the same for all but one of them
(`request_correlationId`), and for that one the condition on the run says it.  Beside this, a
request stays unanswered as long as the entry of its call is in the map (`Matched`): the
dispatcher takes the entry out when the answer comes, under the id in the answer.
-/
import RabbitMqStream.Client.Dispatcher
import RabbitMqStream.Protocol.Request

namespace RabbitMqStream

/-! ## 1. The methods

Each method is its closure, a function from the id it is given to the request.  One lemma
compares the id in the request with the id that was given, by cases on the methods. -/

/-- The correlation id that a request carries, if it is one that is answered. -/
def Protocol.RequestKind.correlationId : Protocol.RequestKind → Option UInt32
  | .peerProperties cmd => some cmd.correlationId
  | .saslHandshake cmd => some cmd.correlationId
  | .saslAuthenticate cmd => some cmd.correlationId
  | .open cmd => some cmd.correlationId
  | .close cmd => some cmd.correlationId
  | .delete cmd => some cmd.correlationId
  | .createStream cmd => some cmd.correlationId
  | .subscribe cmd => some cmd.correlationId
  | .metadata cmd => some cmd.correlationId
  | .declarePublisher cmd => some cmd.correlationId
  | .deletePublisher cmd => some cmd.correlationId
  | .queryOffset cmd => some cmd.correlationId
  | .queryPublisherSequence cmd => some cmd.correlationId
  | .unsubscribe cmd => some cmd.correlationId
  | .exchangeCommandVersions cmd => some cmd.correlationId
  | .createSuperStream cmd => some cmd.correlationId
  | .deleteSuperStream cmd => some cmd.correlationId
  | .superStreamPartitions cmd => some cmd.correlationId
  | .superStreamRoute cmd => some cmd.correlationId
  | .consumerUpdateRequest cmd => some cmd.correlationId
  | .tunes _ | .credit _ | .heartbeat _ | .publish _ | .storeOffset _ => none

namespace Client

open Lts Protocol

/-- The methods of the client that wait for a response, with what their closures capture. -/
inductive Method : Type where
  | close
  | subscribe (subscriptionId : UInt8) (stream : String)
      (offsetSpecification : OffsetSpecification) (credit : UInt16)
      (properties : HashMap String String)
  | unsubscribe (subscriptionId : UInt8)
  | partitions (superStream : String)
  | route (routingKey superStream : String)
  | createStream (stream : String) (options : HashMap String String)
  | createSuperStream (superStream : String) (partitions bindingKeys : List String)
      (options : HashMap String String)
  | deleteStream (stream : String)
  | deleteSuperStream (superStream : String)
  | metadata (streams : List String)
  | queryOffset (reference stream : String)
  | declarePublisher (publisherId : UInt8) (publisherReference : Option String) (stream : String)
  | deletePublisher (publisherId : UInt8)
  | queryPublisherSequence (reference stream : String)
  | exchangeCommandVersions
  | handleAuthentication (authData : Bytes)
  | saslMechanism
  | «open» (vHost : String)
  | peerProperties (clientProperties : HashMap String String)
  | consumerUpdate (correlationId : UInt32) (offsetSpecification : OffsetSpecification)
  deriving DecidableEq

/-- `msg_factory`: the request that a method makes of the id it is given. -/
def Method.request (correlationId : UInt32) : Method → RequestKind
  | .close => .close ⟨correlationId, .ok, "Ok"⟩
  | .subscribe subscriptionId stream offsetSpecification credit properties =>
    .subscribe ⟨correlationId, subscriptionId, stream, offsetSpecification, credit, properties⟩
  | .unsubscribe subscriptionId => .unsubscribe ⟨correlationId, subscriptionId⟩
  | .partitions superStream => .superStreamPartitions ⟨correlationId, superStream⟩
  | .route routingKey superStream =>
    .superStreamRoute ⟨correlationId, routingKey, superStream⟩
  | .createStream stream options => .createStream ⟨correlationId, stream, options⟩
  | .createSuperStream superStream streams bindingKeys options =>
    .createSuperStream ⟨correlationId, superStream, streams, bindingKeys, options⟩
  | .deleteStream stream => .delete ⟨correlationId, stream⟩
  | .deleteSuperStream superStream => .deleteSuperStream ⟨correlationId, superStream⟩
  | .metadata streams => .metadata ⟨correlationId, streams⟩
  | .queryOffset reference stream => .queryOffset ⟨correlationId, reference, stream⟩
  | .declarePublisher publisherId publisherReference stream =>
    .declarePublisher ⟨correlationId, publisherId, publisherReference, stream⟩
  | .deletePublisher publisherId => .deletePublisher ⟨correlationId, publisherId⟩
  | .queryPublisherSequence reference stream =>
    .queryPublisherSequence ⟨correlationId, reference, stream⟩
  | .exchangeCommandVersions => .exchangeCommandVersions ⟨correlationId, []⟩
  | .handleAuthentication authData => .saslAuthenticate ⟨correlationId, "PLAIN", authData⟩
  | .saslMechanism => .saslHandshake ⟨correlationId⟩
  | .open vHost => .open ⟨correlationId, vHost⟩
  | .peerProperties clientProperties => .peerProperties ⟨correlationId, clientProperties⟩
  -- the closure ignores its argument
  | .consumerUpdate correlationId offsetSpecification =>
    .consumerUpdateRequest ⟨correlationId, 1, offsetSpecification⟩

/-- `FromResponse`: the kind of response that a method takes. -/
def Method.expects : Method → ResponseKind → Bool
  | .close, .close _ => true
  | .partitions _, .superStreamPartitions _ => true
  | .route _ _, .superStreamRoute _ => true
  | .metadata _, .metadata _ => true
  | .queryOffset _ _, .queryOffset _ => true
  | .queryPublisherSequence _ _, .queryPublisherSequence _ => true
  | .exchangeCommandVersions, .exchangeCommandVersions _ => true
  | .saslMechanism, .saslHandshake _ => true
  | .open _, .open _ => true
  | .peerProperties _, .peerProperties _ => true
  | .subscribe .., .generic _ | .unsubscribe _, .generic _ | .createStream _ _, .generic _
  | .createSuperStream .., .generic _ | .deleteStream _, .generic _
  | .deleteSuperStream _, .generic _ | .declarePublisher _ _ _, .generic _
  | .deletePublisher _, .generic _ | .handleAuthentication _, .generic _
  | .consumerUpdate _ _, .generic _ => true
  | _, _ => false

/-- The id that `consumer_update` is called with. -/
def Method.updateId : Method → Option UInt32
  | .consumerUpdate correlationId _ => some correlationId
  | _ => none

/-- **Every method but one sends the id it is given.** -/
theorem request_correlationId {id : UInt32} {m : Method}
    (h : m.updateId = none ∨ m.updateId = some id) : (m.request id).correlationId = some id := by
  cases m with
  | consumerUpdate correlationId spec => exact h.resolve_left (by simp [Method.updateId])
  | _ => rfl

/-! ## 2. The calls

A call is in `response_channel`, or about to hand over its request, or waiting, or it has
returned.  The steps of the dispatcher come in as they are, and the answers it takes up are
taken off the list of the unanswered requests. -/

/-- How a call of `send_and_receive` ends. -/
inductive CallResult : Type where
  | response (r : Response)
  /-- The map was closed before the call, or the sender was dropped. -/
  | connectionClosed
  | sendFailed
  /-- The response is not of the kind that the method takes. -/
  | castError (r : Response)
  deriving DecidableEq

inductive Progress : Type where
  /-- In `response_channel`, or behind it and not at the connection yet. -/
  | begun
  /-- Waiting on its channel. -/
  | waiting
  | returned (result : CallResult)
  deriving DecidableEq

structure SendAndReceive : Type where
  method : Method
  progress : Progress
  deriving DecidableEq

structure Requests : Type where
  dispatcher : Dispatcher.DispatcherState := {}
  calls : List SendAndReceive := []
  -- Records of what has happened:
  /-- The requests that were handed over, each with the call that did it. -/
  frames : List (ℕ × RequestKind) := []
  /-- Those of them whose id the dispatcher has not looked up since. -/
  unanswered : List (ℕ × RequestKind) := []

/-- How the hand-over of a frame ends. -/
inductive SendResult : Type where
  | ok
  /-- It fails and nothing is written. -/
  | failed
  /-- It fails after the frame has been written. -/
  | failedWritten
  deriving DecidableEq

def SendResult.written : SendResult → Bool
  | .ok | .failedWritten => true
  | .failed => false

namespace Requests

inductive Event : Type where
  /-- A method is called: a new call, which draws its id. -/
  | request (m : Method)
  /-- A step of the dispatcher, or of call `n` in `response_channel`. -/
  | dispatcher (e : Dispatcher.Event)
  /-- Call `n` has got no channel. -/
  | refused (n : ℕ)
  /-- Call `n` hands its request over. -/
  | handOver (n : ℕ) (result : SendResult)
  /-- Call `n` gets its response, or learns that its sender is gone. -/
  | recv (n : ℕ)
  deriving DecidableEq

/-- The requests that stay unanswered when the dispatcher makes a step. -/
def stillUnanswered (s : Requests) : Dispatcher.Event → List (ℕ × RequestKind)
  | .remove =>
    match s.dispatcher.loop with
    | .dispatching id _ =>
      s.unanswered.filter fun x => x.2.correlationId ≠ some id
    | _ => s.unanswered
  | _ => s.unanswered

def setProgress (s : Requests) (n : ℕ) (m : Method) (progress : Progress) : Requests :=
  { s with calls := s.calls.set n ⟨m, progress⟩ }

/-- The sender of call `n` is gone unused: `close` has dropped it, or the sender of another call
has been inserted under the same id. -/
def SenderGone (s : Requests) (n : ℕ) : Prop :=
  ∃ c ∈ s.dispatcher.calls[n]?, c.phase = .dropped ∨
    (c.phase = .registered ∧ s.dispatcher.requests c.correlationId ≠ some n)

instance (s : Requests) (n : ℕ) : Decidable (s.SenderGone n) :=
  inferInstanceAs (Decidable (∃ c ∈ s.dispatcher.calls[n]?, _))

def step (s : Requests) : Event → Option Requests
  | .request m =>
    match Dispatcher.step s.dispatcher .alloc with
    | some d => some { s with dispatcher := d, calls := s.calls ++ [⟨m, .begun⟩] }
    | none => none
  | .dispatcher e =>
    if e = .alloc then none
    else
      match Dispatcher.step s.dispatcher e with
      | some d => some { s with dispatcher := d, unanswered := s.stillUnanswered e }
      | none => none
  | .refused n =>
    match s.calls[n]?, s.dispatcher.calls[n]? with
    | some ⟨m, .begun⟩, some ⟨_, .refused⟩ =>
      some (s.setProgress n m (.returned .connectionClosed))
    | _, _ => none
  | .handOver n result =>
    match s.calls[n]?, (s.dispatcher.calls[n]?).bind Dispatcher.Call.returned with
    | some ⟨m, .begun⟩, some id =>
      let frame := if result.written then [(n, m.request id)] else []
      some { s with
        calls := s.calls.set n ⟨m, if result = .ok then .waiting else .returned .sendFailed⟩
        frames := s.frames ++ frame
        unanswered := s.unanswered ++ frame }
    | _, _ => none
  | .recv n =>
    match s.calls[n]? with
    | some ⟨m, .waiting⟩ =>
      match s.dispatcher.sent n with
      | r :: _ => some (s.setProgress n m (.returned
          (if m.expects r.kind then .response r else .castError r)))
      | [] =>
        if s.SenderGone n then some (s.setProgress n m (.returned .connectionClosed)) else none
    | _ => none

/-- What a step does. -/
inductive Step (s : Requests) : Event → Requests → Prop where
  | request (m : Method) : Step s (.request m) { s with
      dispatcher := { s.dispatcher with
        calls := s.dispatcher.calls ++ [⟨s.dispatcher.correlationId, .allocated⟩]
        correlationId := s.dispatcher.correlationId + 1 }
      calls := s.calls ++ [⟨m, .begun⟩] }
  | dispatcher {e : Dispatcher.Event} {d : Dispatcher.DispatcherState} (he : e ≠ .alloc)
      (hd : Dispatcher.step s.dispatcher e = some d) :
      Step s (.dispatcher e) { s with dispatcher := d, unanswered := s.stillUnanswered e }
  | handOver {n : ℕ} {m : Method} {id : UInt32} {call : Dispatcher.Call} (result : SendResult)
      (hn : s.calls[n]? = some ⟨m, .begun⟩) (hd : s.dispatcher.calls[n]? = some call)
      (hid : call.returned = some id) :
      Step s (.handOver n result) { s with
        calls := s.calls.set n ⟨m, if result = .ok then .waiting else .returned .sendFailed⟩
        frames := s.frames ++ if result.written then [(n, m.request id)] else []
        unanswered := s.unanswered ++ if result.written then [(n, m.request id)] else [] }
  | refused {n : ℕ} {m : Method} {id : UInt32} (hn : s.calls[n]? = some ⟨m, .begun⟩)
      (hd : s.dispatcher.calls[n]? = some ⟨id, .refused⟩) :
      Step s (.refused n) (s.setProgress n m (.returned .connectionClosed))
  | response {n : ℕ} {m : Method} {r : Response} {rs : List Response}
      (hn : s.calls[n]? = some ⟨m, .waiting⟩) (hs : s.dispatcher.sent n = r :: rs) :
      Step s (.recv n) (s.setProgress n m (.returned
        (if m.expects r.kind then .response r else .castError r)))
  | dropped {n : ℕ} {m : Method} (hn : s.calls[n]? = some ⟨m, .waiting⟩)
      (hd : s.SenderGone n) : Step s (.recv n)
        (s.setProgress n m (.returned .connectionClosed))

theorem step_cases {s s' : Requests} {e : Event} (h : step s e = some s') : Step s e s' := by
  cases e with
  | request m =>
    cases h
    exact .request m
  | dispatcher e =>
    simp only [step] at h
    split at h
    · exact absurd h (by simp)
    · rename_i he
      split at h
      · rename_i d hd
        cases h
        exact .dispatcher he hd
      · exact absurd h (by simp)
  | refused n =>
    simp only [step] at h
    split at h
    · rename_i m id hn hd
      cases h
      exact .refused hn hd
    · exact absurd h (by simp)
  | handOver n result =>
    simp only [step] at h
    split at h
    · rename_i m id hn hid
      obtain ⟨call, hd, hid⟩ := Option.bind_eq_some_iff.mp hid
      cases h
      exact .handOver result hn hd hid
    · exact absurd h (by simp)
  | recv n =>
    simp only [step] at h
    split at h
    · rename_i m hn
      split at h
      · rename_i r rs hs
        cases h
        exact .response hn hs
      · split at h
        · rename_i hd
          cases h
          exact .dropped hn hd
        · exact absurd h (by simp)
    · exact absurd h (by simp)

/-! ## 3. The id that is waited for and the id that is sent

The invariant compares a call with its request when that has been handed over.  A step of the
dispatcher keeps it, since it changes neither; the hand-over makes the request, from the id of
the call. -/

/-- A `consumer_update` is called with the id that it is about to draw. -/
def Faithful (s : Requests) : Event → Prop
  | .request m => m.updateId = none ∨ m.updateId = some s.dispatcher.correlationId
  | _ => True

instance (s : Requests) : ∀ e, Decidable (Faithful s e)
  | .request m => inferInstanceAs (Decidable (m.updateId = none ∨ _))
  | .dispatcher _ | .refused _ | .handOver _ _ | .recv _ => inferInstanceAs (Decidable True)

structure Matched (s : Requests) : Prop where
  inv : Dispatcher.Inv s.dispatcher
  length : s.calls.length = s.dispatcher.calls.length
  /-- The request that a call makes carries the id of the call. -/
  own : ∀ (n : ℕ) (call : SendAndReceive) (c : Dispatcher.Call), s.calls[n]? = some call →
    s.dispatcher.calls[n]? = some c →
    (call.method.request c.correlationId).correlationId = some c.correlationId
  frames : ∀ n frame, (n, frame) ∈ s.frames → ∃ call c id, s.calls[n]? = some call ∧
    s.dispatcher.calls[n]? = some c ∧ c.returned = some id ∧ frame = call.method.request id
  unanswered : ∀ id n frame, s.dispatcher.requests id = some n → (n, frame) ∈ s.frames →
    (n, frame) ∈ s.unanswered

theorem returned_eq {c : Dispatcher.Call} {id : UInt32} (h : c.returned = some id) :
    c.correlationId = id := by
  unfold Dispatcher.Call.returned at h
  split at h
  · exact Option.some.inj h
  · exact Option.some.inj h
  · exact Option.some.inj h
  all_goals exact absurd h (by simp)

/-- The frame of an entry carries the id of the entry. -/
theorem Matched.frame_correlationId {s : Requests} (hm : Matched s) {id : UInt32} {n : ℕ}
    {frame : RequestKind} (hentry : s.dispatcher.requests id = some n)
    (hmem : (n, frame) ∈ s.frames) : frame.correlationId = some id := by
  obtain ⟨call, c, id', hcall, hc, hid', rfl⟩ := hm.frames n frame hmem
  have hreg := hm.inv.entries id n hentry
  rw [hc, Option.some.injEq] at hreg
  subst hreg
  obtain rfl : id = id' := returned_eq hid'
  exact hm.own n call _ hcall hc

theorem matched_request {s : Requests} (hm : Matched s) {m : Method}
    (hf : Faithful s (.request m)) {s' : Requests} (h : step s (.request m) = some s') :
    Matched s' := by
  cases step_cases h with
  | request m =>
    refine ⟨Dispatcher.inv_alloc hm.inv, ?_, fun n call c hn hc => ?_, fun n frame hmem => ?_,
      hm.unanswered⟩
    · simp only [List.length_append, List.length_singleton, hm.length]
    · rcases getElem?_of_snoc hn with hn | ⟨hlast, rfl⟩
      · rcases getElem?_of_snoc hc with hc | ⟨hlast, -⟩
        · exact hm.own n call c hn hc
        · -- a call that was there before is not the new call of `response_channel`
          have hlt := (List.getElem?_eq_some_iff.mp hn).1
          rw [hm.length] at hlt
          omega
      · rcases getElem?_of_snoc hc with hc | ⟨-, rfl⟩
        · have hlt := (List.getElem?_eq_some_iff.mp hc).1
          rw [← hm.length] at hlt
          omega
        · exact request_correlationId hf
    · obtain ⟨call, c, id, hcall, hc, hid, rfl⟩ := hm.frames n frame hmem
      exact ⟨call, c, id, getElem?_snoc hcall, getElem?_snoc hc, hid, rfl⟩

/-- Only `alloc` begins a call of `response_channel`. -/
theorem length_dispatcher {d d' : Dispatcher.DispatcherState} {e : Dispatcher.Event}
    (he : e ≠ .alloc) (h : Dispatcher.step d e = some d') : d.calls.length = d'.calls.length := by
  cases Dispatcher.step_cases h with
  | alloc => exact absurd rfl he
  | _ => simp

/-- The dispatcher begins no call and changes no id.  An entry that is in the map behind the step
was there before or has just been put in by its call, and the request of an entry that has gone is
no longer unanswered. -/
theorem matched_dispatcher {s : Requests} (hm : Matched s) {e : Dispatcher.Event}
    {d : Dispatcher.DispatcherState} (he : e ≠ .alloc)
    (h : Dispatcher.step s.dispatcher e = some d) :
    Matched { s with dispatcher := d, unanswered := s.stillUnanswered e } := by
  have hinv := Dispatcher.inv_step hm.inv h
  have hlength := length_dispatcher he h
  -- a call that is there now was there before, with the same id
  have hback : ∀ (n : ℕ) c, d.calls[n]? = some c → ∃ c₀, s.dispatcher.calls[n]? = some c₀ ∧
      c.correlationId = c₀.correlationId := by
    intro n c hc
    have hlt := (List.getElem?_eq_some_iff.mp hc).1
    rw [← hlength] at hlt
    obtain ⟨c', hc', hid, -⟩ := Dispatcher.calls_step h (List.getElem?_eq_getElem hlt)
    rw [hc, Option.some.injEq] at hc'
    exact ⟨_, List.getElem?_eq_getElem hlt, hc' ▸ hid⟩
  refine ⟨hinv, hm.length.trans hlength, fun n call c hn hc => ?_, fun n frame hmem => ?_,
    fun id n frame hentry hmem => ?_⟩
  · obtain ⟨c₀, hc₀, hid⟩ := hback n c hc
    rw [hid]
    exact hm.own n call c₀ hn hc₀
  · obtain ⟨call, c, id, hcall, hc, hid, rfl⟩ := hm.frames n frame hmem
    obtain ⟨c', hc', -, hreturned⟩ := Dispatcher.calls_step h hc
    exact ⟨call, c', id, hcall, hc', hreturned id hid, rfl⟩
  · have hbefore : s.dispatcher.requests id = some n → (n, frame) ∈ s.unanswered :=
      fun hentry => hm.unanswered id n frame hentry hmem
    -- a look-up of another id leaves the request where it is
    have hother : ∀ id', id ≠ id' → s.dispatcher.requests id = some n →
        (n, frame) ∈ s.unanswered.filter fun x => x.2.correlationId ≠ some id' := by
      intro id' hne hentry
      refine List.mem_filter.mpr ⟨hbefore hentry, ?_⟩
      rw [hm.frame_correlationId hentry hmem]
      simpa using hne
    cases Dispatcher.step_cases h with
    | alloc => exact absurd rfl he
    | load | setHandler | frame | eof | send | notify | store | farewell => exact hbefore hentry
    | @insert m id' hn =>
      simp only [Function.update_apply] at hentry
      split at hentry
      · -- the call that inserts has not handed anything over
        rw [Option.some.injEq] at hentry
        subst hentry
        obtain ⟨call, c, id'', -, hc, hid, -⟩ := hm.frames m frame hmem
        rw [hn, Option.some.injEq] at hc
        rw [← hc] at hid
        exact absurd hid (by simp [Dispatcher.Call.returned])
      · exact hbefore hentry
    | @remove id' r m hl hreq =>
      simp only [Function.update_apply] at hentry
      split at hentry
      · exact absurd hentry (by simp)
      · rename_i hne
        simp only [stillUnanswered, hl]
        exact hother id' hne hentry
    | @miss id' r hl hreq =>
      have hne : id ≠ id' := by
        rintro rfl
        rw [show s.dispatcher.requests id = some n from hentry] at hreq
        exact absurd hreq (by simp)
      simp only [stillUnanswered, hl]
      exact hother id' hne hentry
    | clear hc => exact absurd hentry (by simp)

/-- A call keeps its method. -/
theorem methods_set {calls : List SendAndReceive} {n k : ℕ} {m : Method} {p q : Progress}
    {call : SendAndReceive} (hn : calls[n]? = some ⟨m, p⟩) (hk : calls[k]? = some call) :
    ∃ call', (calls.set n ⟨m, q⟩)[k]? = some call' ∧ call'.method = call.method := by
  by_cases hnk : n = k
  · subst hnk
    rw [hn, Option.some.injEq] at hk
    exact ⟨_, getElem?_set_moved hn, by rw [← hk]⟩
  · exact ⟨call, by rw [List.getElem?_set_ne hnk, hk], rfl⟩

theorem methods_of_set {calls : List SendAndReceive} {n k : ℕ} {m : Method} {p q : Progress}
    {call : SendAndReceive} (hn : calls[n]? = some ⟨m, p⟩)
    (hk : (calls.set n ⟨m, q⟩)[k]? = some call) :
    ∃ call', calls[k]? = some call' ∧ call'.method = call.method := by
  rcases getElem?_of_set hk with ⟨rfl, rfl⟩ | ⟨-, hk⟩
  · exact ⟨_, hn, rfl⟩
  · exact ⟨call, hk, rfl⟩

/-- A call goes on without handing anything over. -/
theorem matched_setProgress {s : Requests} (hm : Matched s) {n : ℕ} {m : Method} {p : Progress}
    (hn : s.calls[n]? = some ⟨m, p⟩) (q : Progress) : Matched (s.setProgress n m q) := by
  refine { hm with length := ?_, own := fun k call c hk hc => ?_, frames := fun k frame hmem => ?_ }
  · exact (List.length_set).trans hm.length
  · obtain ⟨call₀, hk₀, hmethod⟩ := methods_of_set hn hk
    rw [← hmethod]
    exact hm.own k call₀ c hk₀ hc
  · obtain ⟨call, c, id, hcall, hc, hid, rfl⟩ := hm.frames k frame hmem
    obtain ⟨call', hcall', hmethod⟩ := methods_set (q := q) hn hcall
    exact ⟨call', c, id, hcall', hc, hid, by rw [hmethod]⟩

theorem matched_handOver {s : Requests} (hm : Matched s) {n : ℕ} {m : Method} {id : UInt32}
    {c : Dispatcher.Call} {p : Progress} (hn : s.calls[n]? = some ⟨m, p⟩)
    (hc : s.dispatcher.calls[n]? = some c) (hid : c.returned = some id) :
    Matched { s with
      frames := s.frames ++ [(n, m.request id)]
      unanswered := s.unanswered ++ [(n, m.request id)] } := by
  refine { hm with frames := fun k frame hmem => ?_, unanswered := fun id' k frame hentry hmem => ?_ }
  · rcases List.mem_append.mp hmem with hmem | hmem
    · exact hm.frames k frame hmem
    · rw [List.mem_singleton, Prod.mk.injEq] at hmem
      obtain ⟨rfl, rfl⟩ := hmem
      exact ⟨_, c, id, hn, hc, hid, rfl⟩
  · rcases List.mem_append.mp hmem with hmem | hmem
    · exact List.mem_append_left _ (hm.unanswered id' k frame hentry hmem)
    · exact List.mem_append_right _ hmem

theorem matched_step {s s' : Requests} {e : Event} (hf : Faithful s e) (hm : Matched s)
    (h : step s e = some s') : Matched s' := by
  cases step_cases h with
  | request m => exact matched_request hm hf h
  | dispatcher he hd => exact matched_dispatcher hm he hd
  | @handOver n m id c result hn hc hid =>
    have hset := fun q => matched_setProgress hm hn q
    cases result with
    | failed =>
      have hsame : Matched { s.setProgress n m (.returned .sendFailed) with
          frames := s.frames ++ []
          unanswered := s.unanswered ++ [] } := by
        rw [List.append_nil, List.append_nil]
        exact hset _
      exact hsame
    | ok | failedWritten =>
      exact matched_handOver (hset _) (getElem?_set_moved hn) hc hid
  | refused hn hd => exact matched_setProgress hm hn _
  | response hn hs => exact matched_setProgress hm hn _
  | dropped hn hd => exact matched_setProgress hm hn _

/-! ## 4. Every run -/

theorem matched_init : Matched {} := by
  refine ⟨Dispatcher.inv_init, rfl, ?_, ?_, ?_⟩ <;> simp

/-- **What is waited for is what was sent**, in every run in which every `consumer_update` is
called with the id that it draws.

If call `n` has an entry under `id`, the request that it makes carries `id`, and that is the one
it hands over.  If the ids of all requests that were handed over have come back, no call that has
handed its request over has an entry left.

By induction on the run.  Only the hand-over of a `consumer_update` could break the invariant, and
this is the step that the condition is about. -/
theorem waiters_match (es : List Event) (s : Requests) (h : run step {} es = some s)
    (hfaithful : Steps step Faithful {} es) :
    (∀ id n, s.dispatcher.requests id = some n → ∃ call, s.calls[n]? = some call ∧
      (call.method.request id).correlationId = some id ∧
      ∀ frame, (n, frame) ∈ s.frames → frame = call.method.request id) ∧
    (s.unanswered = [] → ∀ id n, s.dispatcher.requests id = some n →
      ∀ frame, (n, frame) ∉ s.frames) := by
  have hm := run_invariant_steps (P := Matched) (fun u e u' hC hP hs => matched_step hC hP hs)
    hfaithful matched_init h
  refine ⟨fun id n hentry => ?_, fun hnil id n hentry frame hmem => ?_⟩
  · have hc := hm.inv.entries id n hentry
    have hlt : n < s.calls.length := by
      rw [hm.length]
      exact (List.getElem?_eq_some_iff.mp hc).1
    have hcall := List.getElem?_eq_getElem hlt
    refine ⟨_, hcall, hm.own n _ _ hcall hc, fun frame hmem => ?_⟩
    obtain ⟨call, c, id', hcall', hc', hid', rfl⟩ := hm.frames n frame hmem
    rw [hcall, Option.some.injEq] at hcall'
    rw [hc, Option.some.injEq] at hc'
    subst hc'
    obtain rfl : id = id' := returned_eq hid'
    rw [hcall']
  · have hun := hm.unanswered id n frame hentry hmem
    rw [hnil] at hun
    exact absurd hun (by simp)

/-- A stream is deleted, and the broker answers. -/
def deleteStream : List Event :=
  [.request (.deleteStream "invoices"), .dispatcher (.load 0), .dispatcher (.insert 0),
    .handOver 0 .ok, .dispatcher (.frame ⟨⟨14, 1⟩, .generic ⟨0, .ok⟩⟩), .dispatcher .remove]

theorem waiters_match_deleteStream : ∃ s, run step {} deleteStream = some s ∧
    s.frames = [(0, .delete ⟨0, "invoices"⟩)] ∧
    ∀ id n, s.dispatcher.requests id = some n → ∀ frame, (n, frame) ∉ s.frames :=
  ⟨_, rfl, rfl, (waiters_match deleteStream _ rfl (by decide +kernel)).2 rfl⟩

/-- A `ConsumerUpdate` with the id 7 is answered, by the first call that the client makes: the
call waits under the id 0, its request carries the id 7, and when the broker answers that one,
the entry stays. -/
theorem consumerUpdate_leaks : ∃ s,
    run step {} [.request (.consumerUpdate 7 .next), .dispatcher (.load 0),
      .dispatcher (.insert 0), .handOver 0 .ok,
      .dispatcher (.frame ⟨⟨26, 1⟩, .generic ⟨7, .ok⟩⟩), .dispatcher .remove] = some s ∧
    s.dispatcher.requests 0 = some 0 ∧
    s.frames = [(0, .consumerUpdateRequest ⟨7, 1, .next⟩)] ∧
    RequestKind.correlationId (.consumerUpdateRequest ⟨7, 1, .next⟩) ≠ some 0 ∧
    s.unanswered = [] :=
  ⟨_, rfl, rfl, rfl, by decide, rfl⟩

end Requests

end Client

end RabbitMqStream
