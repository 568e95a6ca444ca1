/-
# Closing a client, a producer and a consumer

`Client::close`, `Producer::close` and `ConsumerHandle::internal_close`, each as a program over the
operations it makes: on flags that it shares with other tasks, on the connection, and requests to
the broker.  An operation can be answered in every way its type has; what the flags say is as they
are.

**Flags.**  `closed` of a producer or consumer and `closed` of the channel of its client are
`AtomicBool`s that nobody lowers again.  Other tasks may raise them between any two operations: a
clone that is closed at the same time, or the handler of a consumer whose connection has ended.

Both `close` functions exchange the flag first and make three fallible steps then: a request, a
look at its response code, and `Client::close`.

* `close_retriable_iff`: an error other than `AlreadyClosed` leaves the flag as it was only when
  there is no such error; after any call the flag is up, and every later call is refused.
* `close_after_refusal`: a broker that answers with another code than `Ok`.
* `producer_step_raises`, `consumer_step_raises`: no step of the machines of `Producer/Model.lean`
  and `Consumer/Model.lean` lowers the flag, so they are such other tasks.

**The argument.**  A specification of `close` goes down its lines (`closeOnce_spec`).  Between two
operations the flags may rise but never fall, so a flag that the call has raised, or has found up,
is up at its end, and it is up for every later call from wherever that starts.  An error of any
step behind the exchange therefore cannot leave the flag as it was: the two statements are the
same one, said of a call that returns an error and of the operations that it has made.
-/
import RabbitMqStream.Client.Codec
import RabbitMqStream.Consumer.Model
import RabbitMqStream.Lts.Program
import RabbitMqStream.Producer.Model
import Mathlib.Order.BooleanAlgebra.Basic
import Mathlib.Logic.Function.Basic

namespace RabbitMqStream.Client.Close

open Lts Lts.Program Protocol

/-! ## 1. The operations -/

/-- `ClientError`, with what it wraps of other crates kept as text. -/
inductive ClientError : Type where
  | io (text : String)
  | protocol (e : ProtocolError)
  | castError (text : String)
  | genericError (text : String)
  | alreadyClosed
  | connectionClosed
  | tls (text : String)
  | requestError (code : ResponseCode)
  deriving DecidableEq

/-- Each producer, consumer and super stream makes a client of its own. -/
inductive Owner : Type where
  | producer (n : ℕ)
  | consumer (n : ℕ)
  | superStream (n : ℕ)
  deriving DecidableEq

inductive Flag : Type where
  /-- `closed` of the owner. -/
  | closed (o : Owner)
  /-- `closed` of the channel of its client. -/
  | channel (o : Owner)
  deriving DecidableEq

/-- What the flags say. -/
abbrev Flags : Type := Flag → Bool

def Flags.raise (w : Flags) (f : Flag) : Flags := Function.update w f true

/-- The requests of the two `close` functions, which are both answered by a `GenericResponse`. -/
inductive Leave : Type where
  | deletePublisher (publisherId : UInt8)
  | unsubscribe (subscriptionId : UInt8)
  deriving DecidableEq

inductive Operation : Type where
  /-- `closed.compare_exchange(false, true)`. -/
  | compareExchange (o : Owner)
  | request (o : Owner) (leave : Leave)
  /-- `waker.wake()`. -/
  | wake (o : Owner)
  /-- `channel.is_closed()`. -/
  | channelIsClosed (o : Owner)
  /-- `send_and_receive` of a `CloseRequest`. -/
  | closeRequest (o : Owner) (closeCode : ResponseCode) (closeReason : String)
  /-- `heartbeat_task.take()`. -/
  | takeHeartbeat (o : Owner)
  /-- `ChannelSender::close`. -/
  | channelClose (o : Owner)
  deriving DecidableEq

/-- Whose flag, waker or connection the operation is on. -/
def Operation.owner : Operation → Owner
  | .compareExchange o | .request o _ | .wake o | .channelIsClosed o | .closeRequest o _ _
  | .takeHeartbeat o | .channelClose o => o

/-- What an operation is answered with.  `compare_exchange` says whether it has exchanged. -/
abbrev Operation.Answer : Operation → Type
  | .compareExchange _ => Bool
  | .request _ _ => Except ClientError GenericResponse
  | .wake _ => Unit
  | .channelIsClosed _ => Bool
  | .closeRequest _ _ _ => Except ClientError CloseResponse
  | .takeHeartbeat _ => Unit
  | .channelClose _ => Except ClientError Unit

/-- `ChannelSender::close` raises its flag behind the close of the sink, when that succeeds. -/
def Flags.afterClose (w : Flags) (f : Flag) : Except ClientError Unit → Flags
  | .ok _ => w.raise f
  | .error _ => w

/-- An operation on the flags as they are. -/
def Operation.Effect : (op : Operation) → Flags → op.Answer → Flags → Prop
  | .compareExchange o, w, exchanged, w' => exchanged = !w (.closed o) ∧ w' = w.raise (.closed o)
  | .channelIsClosed o, w, closed, w' => closed = w (.channel o) ∧ w' = w
  | .channelClose o, w, result, w' => w' = w.afterClose (.channel o) result
  | _, w, _, w' => w' = w

/-- Other tasks have raised flags before the operation comes to them. -/
def surroundings : Surroundings Flags Operation.Answer := fun op w answer w' =>
  ∃ v, w ≤ v ∧ op.Effect v answer w'

abbrev Call (α : Type) : Type := Program Operation Operation.Answer α

/-- Make one operation. -/
abbrev perform (op : Operation) : Call op.Answer := ask op

/-- A run of a call, among other tasks. -/
abbrev CallRuns {α : Type} : Call α → Flags → List (Event Operation.Answer) → Outcome α → Flags →
    Prop := Runs surroundings

/-! ## 2. The calls -/

/-- `Client::close`. -/
def clientClose (o : Owner) : Call (Except ClientError Unit) := do
  let closed : Bool ← perform (.channelIsClosed o)
  if closed then pure (.error .alreadyClosed)
  else do
    let response : Except ClientError CloseResponse ← perform (.closeRequest o .ok "Ok")
    match response with
    | .error e => pure (.error e)
    | .ok _ => do
      let _ ← perform (.takeHeartbeat o)
      perform (.channelClose o)

/-- `ProducerCloseError` and `ConsumerCloseError`, which have the same variants. -/
inductive CloseError : Type where
  | close (stream : String) (status : ResponseCode)
  | alreadyClosed
  | client (e : ClientError)
  deriving DecidableEq

abbrev ProducerCloseError : Type := CloseError

abbrev ConsumerCloseError : Type := CloseError

/-- `client.close().await?; Ok(())`. -/
def closeClient (o : Owner) : Call (Except CloseError Unit) := do
  let closed ← clientClose o
  match closed with
  | .error e => pure (.error (.client e))
  | .ok _ => pure (.ok ())

/-- The body of the two `close` functions: what they exchange is the flag of the owner, what they
ask of the broker is `leave`, and the consumer wakes its stream when that is granted. -/
def closeOnce (o : Owner) (stream : String) (leave : Leave) (wakes : Bool) :
    Call (Except CloseError Unit) := do
  let exchanged : Bool ← perform (.compareExchange o)
  if exchanged then do
    let response : Except ClientError GenericResponse ← perform (.request o leave)
    match response with
    | .error e => pure (.error (.client e))
    | .ok response =>
      if response.code = .ok then do
        if wakes then perform (.wake o)
        closeClient o
      else pure (.error (.close stream response.code))
  else pure (.error .alreadyClosed)

/-- What `close` uses of a producer. -/
structure ProducerInternal : Type where
  number : ℕ
  producerId : UInt8
  stream : String

/-- `ConsumerHandle`, a pointer to the consumer. -/
structure ConsumerHandle : Type where
  number : ℕ
  internal : Consumer.ConsumerInternal

/-- `Producer::close`. -/
def ProducerInternal.close (p : ProducerInternal) : Call (Except ProducerCloseError Unit) :=
  closeOnce (.producer p.number) p.stream (.deletePublisher p.producerId) false

/-- `ConsumerHandle::internal_close`. -/
def ConsumerHandle.internalClose (c : ConsumerHandle) : Call (Except ConsumerCloseError Unit) :=
  closeOnce (.consumer c.number) c.internal.stream (.unsubscribe c.internal.subscriptionId) true

/-! ## 3. What the calls do -/

theorem raise_self (w : Flags) (f : Flag) : w.raise f f = true := Function.update_self ..

theorem le_raise (w : Flags) (f : Flag) : w ≤ w.raise f := by
  intro g
  by_cases hg : g = f
  · rw [hg, raise_self]
    exact Bool.le_true _
  · rw [Flags.raise, Function.update_of_ne hg]

/-- No operation lowers a flag. -/
theorem effect_le {op : Operation} {w w' : Flags} {answer : op.Answer}
    (h : op.Effect w answer w') : w ≤ w' := by
  cases op with
  | compareExchange o => exact h.2 ▸ le_raise w _
  | channelIsClosed o => exact h.2 ▸ le_refl w
  | channelClose o =>
    cases answer with
    | ok _ => exact h ▸ le_raise w _
    | error _ => exact h ▸ le_refl w
  | request | wake | closeRequest | takeHeartbeat => exact h ▸ le_refl w

theorem surroundings_le (op : Operation) (w : Flags) (answer : op.Answer) (w' : Flags)
    (h : surroundings op w answer w') : w ≤ w' := by
  obtain ⟨v, hv, heffect⟩ := h
  exact hv.trans (effect_le heffect)

/-- A flag that is up stays up. -/
theorem raised {w w' : Flags} (h : w ≤ w') {f : Flag} (hf : w f = true) : w' f = true := by
  have := h f
  rw [hf] at this
  exact Bool.eq_true_of_true_le this

/-- Every operation can be answered, whatever the flags say. -/
theorem surroundings_total (op : Operation) (w : Flags) :
    ∃ answer w', surroundings op w answer w' := by
  cases op with
  | compareExchange o => exact ⟨_, _, w, le_refl w, rfl, rfl⟩
  | channelIsClosed o => exact ⟨_, _, w, le_refl w, rfl, rfl⟩
  | channelClose o => exact ⟨.ok (), _, w, le_refl w, rfl⟩
  | request o leave => exact ⟨.error .connectionClosed, w, w, le_refl w, rfl⟩
  | wake o => exact ⟨(), w, w, le_refl w, rfl⟩
  | closeRequest o closeCode closeReason =>
    exact ⟨.error .connectionClosed, w, w, le_refl w, rfl⟩
  | takeHeartbeat o => exact ⟨(), w, w, le_refl w, rfl⟩

/-- A request that is answered, and with `Ok`. -/
def Granted : Except ClientError GenericResponse → Prop
  | .ok response => response.code = .ok
  | .error _ => False

def Succeeded {ε α : Type} : Except ε α → Prop
  | .ok _ => True
  | .error _ => False

/-- The operation has gone as the call needs it to go on. -/
def Succeeds : Event Operation.Answer → Prop
  | ⟨.compareExchange _, exchanged⟩ => exchanged = true
  | ⟨.request _ _, response⟩ => Granted response
  | ⟨.wake _, _⟩ => True
  | ⟨.channelIsClosed _, closed⟩ => closed = false
  | ⟨.closeRequest _ _ _, response⟩ => Succeeded response
  | ⟨.takeHeartbeat _, _⟩ => True
  | ⟨.channelClose _, result⟩ => Succeeded result

/-- **`Client::close`** begins with a look at the flag of the channel, and returns `Ok` exactly when
everything it does succeeds. -/
theorem clientClose_spec (o : Owner) (w : Flags) :
    wp surroundings (clientClose o) w fun trace out _ =>
      (∃ closed, ⟨.channelIsClosed o, closed⟩ ∈ trace) ∧ (∀ ev ∈ trace, ev.op.owner = o) ∧
        ∃ result, out = .returned result ∧ (Succeeded result ↔ ∀ ev ∈ trace, Succeeds ev) := by
  unfold clientClose
  rw [wp_ask]
  intro closed w₁ _
  cases closed with
  | true => simp [Succeeded, Succeeds, Operation.owner]
  | false =>
    rw [if_neg (by simp), wp_ask]
    intro response w₂ _
    cases response with
    | error e => simp [Succeeded, Succeeds, Operation.owner]
    | ok response =>
      rw [wp_ask]
      intro _ w₃ _ result w₄ _
      cases result <;> simp [Succeeded, Succeeds, Operation.owner]

theorem closeClient_spec (o : Owner) (w : Flags) :
    wp surroundings (closeClient o) w fun trace out w' =>
      (∃ closed, ⟨.channelIsClosed o, closed⟩ ∈ trace) ∧ w ≤ w' ∧
        (∀ ev ∈ trace, ev.op.owner = o) ∧
          ∃ result, out = .returned result ∧ result ≠ .error .alreadyClosed ∧
            (Succeeded result ↔ ∀ ev ∈ trace, Succeeds ev) := by
  unfold closeClient
  rw [wp_bind]
  refine wp_mono ?_ (wp_and (wp_le surroundings_le _) (clientClose_spec o w))
  rintro trace out w' ⟨hle, hlook, hown, result, rfl, hsucceeds⟩
  cases result with
  | error e =>
    exact ⟨by simpa using hlook, hle, by simpa using hown, _, rfl, by simp,
      by simpa [Succeeded] using hsucceeds⟩
  | ok u =>
    exact ⟨by simpa using hlook, hle, by simpa using hown, _, rfl, by simp,
      by simpa [Succeeded] using hsucceeds⟩

section CloseOnce

variable (o : Owner) (stream : String) (leave : Leave) (wakes : Bool)

/-- The call has found the flag up. -/
def Refused (trace : List (Event Operation.Answer)) : Prop := trace = [⟨.compareExchange o, false⟩]

/-- What a call of `close` has done when it returns. -/
structure Closed (w : Flags) (trace : List (Event Operation.Answer))
    (result : Except CloseError Unit) (w' : Flags) : Prop where
  /-- It has tried to raise the flag. -/
  attempt : ∃ exchanged, ⟨.compareExchange o, exchanged⟩ ∈ trace
  own : ∀ ev ∈ trace, ev.op.owner = o
  raised : w' (.closed o) = true
  refused : result = .error .alreadyClosed ↔ Refused o trace
  lowered : ¬ Refused o trace → w (.closed o) = false
  succeeded : Succeeded result ↔ ∀ ev ∈ trace, Succeeds ev

/-- A flag that is up refuses the call. -/
theorem closeOnce_refused {w : Flags} (h : w (.closed o) = true) :
    wp surroundings (closeOnce o stream leave wakes) w fun trace out _ =>
      out = .returned (.error .alreadyClosed) ∧ Refused o trace := by
  unfold closeOnce
  rw [wp_ask]
  rintro exchanged w₁ ⟨v, hv, hexchanged, -⟩
  rw [Close.raised hv h] at hexchanged
  obtain rfl : exchanged = false := hexchanged
  exact ⟨rfl, rfl⟩

/-- A call that has raised the flag. -/
theorem Closed.of_exchanged {w w' : Flags} {rest : List (Event Operation.Answer)}
    {result : Except CloseError Unit} (hdown : w (.closed o) = false)
    (hup : w' (.closed o) = true) (hown : ∀ ev ∈ rest, ev.op.owner = o)
    (hne : result ≠ .error .alreadyClosed)
    (hsucceeds : Succeeded result ↔ ∀ ev ∈ rest, Succeeds ev) :
    Closed o w (⟨.compareExchange o, true⟩ :: rest) result w' where
  attempt := ⟨true, List.mem_cons_self⟩
  own := List.forall_mem_cons.mpr ⟨rfl, hown⟩
  raised := hup
  refused := iff_of_false hne (by simp [Refused])
  lowered _ := hdown
  succeeded := hsucceeds.trans (by simp [Succeeds])

/-- What is left when the request is granted. -/
theorem granted_spec (w : Flags) :
    wp surroundings (do
      if wakes then perform (.wake o)
      closeClient o) w fun trace out w' =>
        w ≤ w' ∧ (∀ ev ∈ trace, ev.op.owner = o) ∧
          ∃ result, out = .returned result ∧ result ≠ .error .alreadyClosed ∧
            (Succeeded result ↔ ∀ ev ∈ trace, Succeeds ev) := by
  cases wakes with
  | false => exact wp_mono (fun _ _ _ h => h.2) (closeClient_spec o w)
  | true =>
    rw [if_pos rfl, wp_ask]
    intro _ w₁ hw₁
    refine wp_mono ?_ (closeClient_spec o w₁)
    rintro trace out w' ⟨-, hle, hown, result, rfl, hne, hsucceeds⟩
    refine ⟨(surroundings_le _ _ _ _ hw₁).trans hle, List.forall_mem_cons.mpr ⟨rfl, hown⟩, result,
      rfl, hne, hsucceeds.trans ?_⟩
    simp [Succeeds]

/-- **The body of the two `close` functions.** When the exchange fails the flag was up, and is.
When it succeeds the flag was down before the call, and whatever comes of the other steps it is up
at the end. -/
theorem closeOnce_spec (w : Flags) :
    wp surroundings (closeOnce o stream leave wakes) w fun trace out w' =>
      ∃ result, out = .returned result ∧ Closed o w trace result w' := by
  unfold closeOnce
  rw [wp_ask]
  rintro exchanged w₁ ⟨v, hv, hexchanged, rfl⟩
  have hraised : (v.raise (.closed o)) (.closed o) = true := raise_self v _
  cases exchanged with
  | false =>
    refine ⟨_, rfl, ⟨false, by simp⟩, by simp [Operation.owner], hraised, by simp [Refused],
      fun h => absurd rfl h, ?_⟩
    simp [Succeeded, Succeeds]
  | true =>
    have hdown : w (.closed o) = false := by
      cases hw : w (.closed o) with
      | false => rfl
      | true =>
        rw [Close.raised hv hw] at hexchanged
        exact absurd hexchanged (by simp)
    rw [if_pos rfl, wp_ask]
    intro response w₂ hw₂
    have hraised₂ := Close.raised (surroundings_le _ _ _ _ hw₂) hraised
    cases response with
    | error e =>
      refine ⟨_, rfl, .of_exchanged o hdown hraised₂ (by simp [Operation.owner]) (by simp) ?_⟩
      simp [Succeeded, Succeeds, Granted]
    | ok response =>
      by_cases hcode : response.code = .ok
      · simp only [if_pos hcode]
        refine wp_mono ?_ (granted_spec o wakes w₂)
        rintro trace out w' ⟨hle, hown, result, rfl, hne, hsucceeds⟩
        refine ⟨_, rfl, .of_exchanged o hdown (Close.raised hle hraised₂)
          (List.forall_mem_cons.mpr ⟨rfl, hown⟩) hne (hsucceeds.trans ?_)⟩
        simp [Succeeds, Granted, hcode]
      · simp only [if_neg hcode]
        refine ⟨_, rfl, .of_exchanged o hdown hraised₂ (by simp [Operation.owner]) (by simp) ?_⟩
        simp [Succeeded, Succeeds, Granted, hcode]

/-- A call of `close` ends, when its operations are answered, and it does not panic. -/
theorem closeOnce_ends (w : Flags) :
    (∃ trace out w', CallRuns (closeOnce o stream leave wakes) w trace out w') ∧
      ∀ trace out w', CallRuns (closeOnce o stream leave wakes) w trace out w' →
        out ≠ .panicked := by
  refine ⟨runs_exists surroundings_total _ w, fun trace out w' h => ?_⟩
  obtain ⟨result, rfl, -⟩ := wp_iff.mp (closeOnce_spec o stream leave wakes w) _ _ _ h
  simp

end CloseOnce

/-! ## 4. Closing again -/

/-- A call that returns an error other than `AlreadyClosed` leaves the flag as it was. -/
def Retriable (o : Owner) (w : Flags) (out : Outcome (Except CloseError Unit)) (w' : Flags) :
    Prop :=
  ∀ e, out = .returned (.error e) → e ≠ .alreadyClosed → w' (.closed o) = w (.closed o)

/-- Whatever the flags of other tasks and the connection are, every later call is refused. -/
def RefusedFrom (o : Owner) (call : Call (Except CloseError Unit)) (w : Flags) : Prop :=
  ∀ v, w ≤ v → ∀ trace out v', CallRuns call v trace out v' →
    out = .returned (.error .alreadyClosed) ∧ Refused o trace

theorem closeOnce_retriable_iff {o : Owner} {stream : String} {leave : Leave} {wakes : Bool}
    {w w' : Flags} {trace : List (Event Operation.Answer)}
    {out : Outcome (Except CloseError Unit)}
    (h : CallRuns (closeOnce o stream leave wakes) w trace out w') :
    (Retriable o w out w' ↔ Refused o trace ∨ ∀ ev ∈ trace, Succeeds ev) ∧
      RefusedFrom o (closeOnce o stream leave wakes) w' := by
  obtain ⟨result, rfl, hclosed⟩ := wp_iff.mp (closeOnce_spec o stream leave wakes w) _ _ _ h
  refine ⟨⟨fun hretry => ?_, fun hgood e he hne => ?_⟩, ?_⟩
  · cases result with
    | ok u => exact Or.inr (hclosed.succeeded.mp trivial)
    | error e =>
      by_cases hrefused : Refused o trace
      · exact Or.inl hrefused
      · have hsame := hretry e rfl (fun he => hrefused (hclosed.refused.mp (he ▸ rfl)))
        rw [hclosed.raised, hclosed.lowered hrefused] at hsame
        exact absurd hsame (by simp)
  · obtain rfl := Outcome.returned.inj he
    rcases hgood with hrefused | hall
    · exact absurd (Except.error.inj (hclosed.refused.mpr hrefused)) hne
    · exact absurd (hclosed.succeeded.mpr hall) (by simp [Succeeded])
  · intro v hv trace' out' v' h'
    exact wp_iff.mp (closeOnce_refused o stream leave wakes (raised hv hclosed.raised)) _ _ _ h'

/-- **A failed close cannot be tried again.**  Of a run of `Producer::close`, and of one of
`ConsumerHandle::internal_close`, among any other tasks: an error other than `AlreadyClosed` leaves
the flag as it was exactly when there is none, because the flag was up before or because every
operation has succeeded.  The flag is up behind every call, and every later call is refused.

Both functions are `closeOnce` with an owner and a request of their own, and it is proved once for
that (`closeOnce_retriable_iff`). -/
theorem close_retriable_iff {p : ProducerInternal} {c : ConsumerHandle} {w w' v v' : Flags}
    {trace trace' : List (Event Operation.Answer)} {out out' : Outcome (Except CloseError Unit)}
    (hp : CallRuns p.close w trace out w') (hc : CallRuns c.internalClose v trace' out' v') :
    ((Retriable (.producer p.number) w out w' ↔
        Refused (.producer p.number) trace ∨ ∀ ev ∈ trace, Succeeds ev) ∧
      RefusedFrom (.producer p.number) p.close w') ∧
    ((Retriable (.consumer c.number) v out' v' ↔
        Refused (.consumer c.number) trace' ∨ ∀ ev ∈ trace', Succeeds ev) ∧
      RefusedFrom (.consumer c.number) c.internalClose v') :=
  ⟨closeOnce_retriable_iff hp, closeOnce_retriable_iff hc⟩

/-- No flag is up. -/
def Flags.down : Flags := fun _ => false

/-- The handle of a consumer of the stream `orders`. -/
def sampleHandle : ConsumerHandle where
  number := 0
  internal := { name := none, stream := "orders", offsetSpecification := .next }

/-- A producer whose requests are granted, and a consumer whose connection is lost before the
answer. -/
theorem close_retriable_iff_lost :
    Retriable (.producer 0) .down (.returned (.ok ()))
        ((Flags.down.raise (.closed (.producer 0))).raise (.channel (.producer 0))) ∧
      ¬ Retriable (.consumer 0) .down (.returned (.error (.client .connectionClosed)))
        (Flags.down.raise (.closed (.consumer 0))) := by
  have hp : CallRuns (ProducerInternal.close ⟨0, 1, "orders"⟩) .down
      [⟨.compareExchange (.producer 0), true⟩,
        ⟨.request (.producer 0) (.deletePublisher 1), .ok ⟨7, .ok⟩⟩,
        ⟨.channelIsClosed (.producer 0), false⟩,
        ⟨.closeRequest (.producer 0) .ok "Ok", .ok ⟨8, .ok⟩⟩,
        ⟨.takeHeartbeat (.producer 0), ()⟩, ⟨.channelClose (.producer 0), .ok ()⟩]
      (.returned (.ok ()))
      ((Flags.down.raise (.closed (.producer 0))).raise (.channel (.producer 0))) :=
    .call ⟨_, le_refl _, rfl, rfl⟩ (.call ⟨_, le_refl _, rfl⟩ (.call ⟨_, le_refl _, rfl, rfl⟩
      (.call ⟨_, le_refl _, rfl⟩ (.call ⟨_, le_refl _, rfl⟩ (.call ⟨_, le_refl _, rfl⟩ .ret)))))
  have hc : CallRuns sampleHandle.internalClose .down
      [⟨.compareExchange (.consumer 0), true⟩,
        ⟨.request (.consumer 0) (.unsubscribe 1), .error .connectionClosed⟩]
      (.returned (.error (.client .connectionClosed))) (Flags.down.raise (.closed (.consumer 0))) :=
    .call ⟨_, le_refl _, rfl, rfl⟩ (.call ⟨_, le_refl _, rfl⟩ .ret)
  obtain ⟨⟨hproducer, -⟩, hconsumer, -⟩ := close_retriable_iff hp hc
  refine ⟨hproducer.mpr (Or.inr ?_), fun hretry => ?_⟩
  · simp [Succeeds, Granted, Succeeded]
  · have hgood := hconsumer.mp hretry
    simp [Refused, Succeeds, Granted] at hgood

/-- The broker answers the request of a producer, and that of a consumer, with another code than
`Ok`.  The error says so, and the connection is open; the flag is up, and `close` is refused from
then on. -/
theorem close_after_refusal :
    (∃ trace w', CallRuns (ProducerInternal.close ⟨0, 1, "orders"⟩) .down trace
        (.returned (.error (.close "orders" .publisherDoesNotExist))) w' ∧
      w' (.channel (.producer 0)) = false ∧
      ¬ Retriable (.producer 0) .down
        (.returned (.error (.close "orders" .publisherDoesNotExist))) w' ∧
      RefusedFrom (.producer 0) (ProducerInternal.close ⟨0, 1, "orders"⟩) w') ∧
    (∃ trace w', CallRuns sampleHandle.internalClose .down trace
        (.returned (.error (.close "orders" .subscriptionIdDoesNotExist))) w' ∧
      w' (.channel (.consumer 0)) = false ∧
      ¬ Retriable (.consumer 0) .down
        (.returned (.error (.close "orders" .subscriptionIdDoesNotExist))) w' ∧
      RefusedFrom (.consumer 0) sampleHandle.internalClose w') := by
  have hp : CallRuns (ProducerInternal.close ⟨0, 1, "orders"⟩) .down
      [⟨.compareExchange (.producer 0), true⟩,
        ⟨.request (.producer 0) (.deletePublisher 1), .ok ⟨7, .publisherDoesNotExist⟩⟩]
      (.returned (.error (.close "orders" .publisherDoesNotExist)))
      (Flags.down.raise (.closed (.producer 0))) :=
    .call ⟨_, le_refl _, rfl, rfl⟩ (.call ⟨_, le_refl _, rfl⟩ .ret)
  have hc : CallRuns sampleHandle.internalClose .down
      [⟨.compareExchange (.consumer 0), true⟩,
        ⟨.request (.consumer 0) (.unsubscribe 1), .ok ⟨7, .subscriptionIdDoesNotExist⟩⟩]
      (.returned (.error (.close "orders" .subscriptionIdDoesNotExist)))
      (Flags.down.raise (.closed (.consumer 0))) :=
    .call ⟨_, le_refl _, rfl, rfl⟩ (.call ⟨_, le_refl _, rfl⟩ .ret)
  refine ⟨⟨_, _, hp, by decide, fun hretry => ?_, (closeOnce_retriable_iff hp).2⟩,
    ⟨_, _, hc, by decide, fun hretry => ?_, (closeOnce_retriable_iff hc).2⟩⟩
  · exact absurd (hretry _ rfl (by decide)) (by decide)
  · exact absurd (hretry _ rfl (by decide)) (by decide)

/-! ## 5. The other tasks -/

theorem update_le {w : Flags} {f : Flag} {b b' : Bool} (h : b = true → b' = true) :
    Function.update w f b ≤ Function.update w f b' := by
  intro g
  by_cases hg : g = f
  · subst hg
    rw [Function.update_self, Function.update_self]
    exact Bool.le_iff_imp.mpr h
  · rw [Function.update_of_ne hg, Function.update_of_ne hg]

theorem producer_move_raises {cfg : Producer.Config} {s s' : Producer.Shared}
    {τ τ' : Producer.Task} (h : Producer.Move cfg s τ s' τ') (hc : s.closed = true) :
    s'.closed = true := by
  cases h with
  | sendDraw | batchDraw =>
    unfold Producer.Shared.draw
    split <;> exact hc
  | closeFlag => rfl
  | _ => exact hc

/-- **The machine of the producer** raises its flag and never lowers it. -/
theorem producer_step_raises {cfg : Producer.Config} {s s' : Producer.State} {e : Producer.Event}
    (h : Producer.step cfg s e = some s') (n : ℕ) (w : Flags) :
    Function.update w (.closed (.producer n)) s.shared.closed ≤
      Function.update w (.closed (.producer n)) s'.shared.closed := by
  refine update_le fun hc => ?_
  cases e with
  | move t =>
    obtain ⟨τ, sh, τ', -, hmove, rfl⟩ := Producer.step_move h
    exact producer_move_raises hmove hc
  | publish t result =>
    obtain ⟨owner, messages, -, rfl⟩ := Producer.step_publish h
    cases result <;> exact hc
  | send | batchSend | close | confirm | error =>
    cases h
    exact hc

/-- **The machine of the consumer** raises its flag and never lowers it. -/
theorem consumer_step_raises {c : Consumer.ConsumerInternal} {s s' : Consumer.State}
    {e : Consumer.Event} (h : Consumer.step c s e = some s') (n : ℕ) (w : Flags) :
    Function.update w (.closed (.consumer n)) s.closed ≤
      Function.update w (.closed (.consumer n)) s'.closed := by
  refine update_le fun hc => ?_
  cases Consumer.step_cases h with
  | closing | closeFlag => rfl
  | handOver result =>
    cases result <;> exact hc
  | _ => exact hc

end RabbitMqStream.Client.Close
