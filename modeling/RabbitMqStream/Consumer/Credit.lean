/-
# One unit of credit keeps the chunks in order

Every frame is handled in a task of its own, so nothing in the client orders two chunks.  What
does is the credit: the consumer subscribes with one unit, and a handler gives one back when it
has put the last message of its chunk into the channel.  A broker that sends a chunk only when it
has credit for it then never has two chunks under way.

The consumer, the broker and the frames between them are a `Relay` (`relay_step`).  Nothing is
asked of the offsets that the broker sends: the messages enter the channel in the order of the
chunks whatever they are.

* `credit_order`: in every run, there is at most one unit of credit, wherever it is, and the
  messages enter the channel chunk after chunk.

**The argument.**  The relay of `Lts/Relay.lean` is found in the consumer: its source is the
broker, its units are the credits, its workers are the handlers of chunks, and the items of a
chunk are what the handler makes of it (`State.relay`).  Every step of the consumer is one of the
relay or is not seen by it; only one of them brings a chunk, and there the condition on the broker
stands.  That no frame grants more than one unit (`creditOne_step`) makes the number of credits on
their way the number of units.
-/
import RabbitMqStream.Consumer.Model
import RabbitMqStream.Lts.Relay

namespace RabbitMqStream.Consumer

open Lts Protocol

/-! ## 1. The consumer as a relay

The four places of a unit of credit: with the broker, on its way there as a frame, on its way
from there as a chunk, and with a handler that has not handed over its `Credit` request. -/

/-- The handler of a chunk has not sent its credit: what it has still to put into the channel. -/
def Task.owes : Task → Multiset (List Delivery)
  | .deliver rest => {rest}
  | _ => 0

def State.relay (s : State) : Relay DeliverCommand Delivery where
  credit := s.credit
  granted := (s.outbound.map Outgoing.grants).sum
  flight := s.inbound.filterMap chunk
  working := gather Task.owes s.tasks
  sent := s.sent
  out := s.entered
  abandoned := s.dropped

/-- The broker sends a chunk only when it has credit. -/
def Paced (s : State) : Event → Prop
  | .brokerSend r => (chunk r).isSome → 0 < s.credit
  | _ => True

instance (s : State) : ∀ e, Decidable (Paced s e)
  | .brokerSend r => inferInstanceAs (Decidable ((chunk r).isSome → 0 < s.credit))
  | .brokerReceive | .read | .eof | .close | .drop | .pollRecv _ | .pollClosed | .move _
  | .handOver _ _ | .listener _ _ | .answer _ _ => inferInstanceAs (Decidable True)

/-! ## 2. Every step is a step of the relay

One lemma for each kind of step that moves the unit: a chunk is sent, it is read, the credit is
handed over.  When the hand-over fails the unit is gone for good, which is a `lose` of the
relay. -/

section Refinement

variable {c : ConsumerInternal} {s : State}

/-- A chunk is handled, and nothing else is. -/
theorem spawns_of_chunk {r : Response} {d : DeliverCommand} (h : chunk r = some d) :
    c.spawns r = [.deliver (c.deliveries d)] := by
  obtain ⟨header, kind⟩ := r
  cases kind with
  | deliver cmd =>
    cases h
    rfl
  | _ => exact absurd h (by simp [chunk])

theorem owes_of_not_chunk {r : Response} (h : chunk r = none) : ∀ τ ∈ c.spawns r, τ.owes = 0 := by
  obtain ⟨header, kind⟩ := r
  cases kind with
  | deliver cmd => exact absurd h (by simp [chunk])
  | _ => simp [ConsumerInternal.spawns, Client.Dispatcher.route, Response.correlationId,
      Task.owes]

theorem walk_owes {t : ℕ} {e : Event} {τ τ' : Task} (h : Walk c s t e τ τ') :
    τ.owes = 0 ∧ τ'.owes = 0 := by
  cases h with
  | listen | unwrap | next | listened | alreadyClosed => exact ⟨rfl, rfl⟩
  | @answered τ τ' outcome h =>
    cases τ with
    | updated =>
      cases h
      exact ⟨rfl, rfl⟩
    | unsubscribed | closeClient => cases outcome <;> cases h <;> exact ⟨rfl, rfl⟩
    | _ => exact absurd h (by simp [Task.answered])

/-- What a task hands over is its credit, or it has nothing to do with credit. -/
theorem handsOver_cases {τ sent failed : Task} {frame : Outgoing}
    (h : τ.handsOver c = some (frame, sent, failed)) :
    (τ = .deliver [] ∧ frame = .credit ⟨c.subscriptionId, 1⟩ ∧ sent = .finished ∧
      failed = .finished) ∨
    (τ.owes = 0 ∧ frame.grants = 0 ∧ (∀ cmd, frame ≠ .credit cmd) ∧ sent.owes = 0 ∧
      failed.owes = 0) := by
  cases τ with
  | deliver rest =>
    cases rest with
    | nil =>
      cases h
      exact Or.inl ⟨rfl, rfl, rfl, rfl⟩
    | cons d rest => cases h
  | updating | unsubscribe =>
    cases h
    exact Or.inr ⟨rfl, rfl, by simp, rfl, rfl⟩
  | _ => cases h

/-- What a handler of a chunk has in its hands, apart from what the others have. -/
theorem working_split {t : ℕ} {rest : List Delivery}
    (ht : s.tasks[t]? = some (.deliver rest)) :
    ∃ others, s.relay.working = rest ::ₘ others ∧
      (∀ rest', gather Task.owes (s.tasks.set t (.deliver rest')) = rest' ::ₘ others) ∧
      gather Task.owes (s.tasks.set t .finished) = others := by
  obtain ⟨others, hall, hset⟩ := gather_split Task.owes ht
  refine ⟨others, ?_, fun rest' => ?_, ?_⟩
  · rw [← Multiset.singleton_add]
    exact hall
  · rw [hset, ← Multiset.singleton_add]
    rfl
  · rw [hset]
    exact zero_add others

theorem relay_brokerSend {r : Response} (hp : Paced s (.brokerSend r)) :
    let s' : State := { s with
      inbound := s.inbound ++ [r]
      credit := s.credit - (chunk r).toList.length
      sent := s.sent ++ (chunk r).toList }
    s'.relay = s.relay ∨ Relay.Step c.deliveries s.relay s'.relay := by
  intro s'
  cases hc : chunk r with
  | none =>
    refine Or.inl ?_
    simp [s', State.relay, hc]
  | some d =>
    have hcredit : 0 < s.credit := hp (by simp [hc])
    obtain ⟨n, hn⟩ : ∃ n, s.credit = n + 1 := ⟨s.credit - 1, by omega⟩
    have hstep := Relay.Step.send (f := c.deliveries) (R := s.relay) d hn
    refine Or.inr ?_
    have heq : s'.relay = { s.relay with
        credit := n
        flight := s.relay.flight ++ [d]
        sent := s.relay.sent ++ [d] } := by
      simp [s', State.relay, hc, hn]
    rw [heq]
    exact hstep

theorem relay_read {r : Response} {rest : List Response} (hi : s.inbound = r :: rest) :
    let s' : State := { s with
      inbound := rest
      tasks := s.tasks ++ c.spawns r
      read := s.read ++ (chunk r).toList }
    s'.relay = s.relay ∨ Relay.Step c.deliveries s.relay s'.relay := by
  intro s'
  cases hc : chunk r with
  | none =>
    have hnew : gather Task.owes (c.spawns r) = 0 :=
      (gather_eq_zero_iff _).mpr (owes_of_not_chunk hc)
    refine Or.inl ?_
    simp [s', State.relay, hi, hc, gather_append, hnew]
  | some d =>
    have hflight : s.relay.flight = d :: rest.filterMap chunk := by
      simp [State.relay, hi, hc]
    have hstep := Relay.Step.take (f := c.deliveries) (R := s.relay) hflight
    refine Or.inr ?_
    have heq : s'.relay = { s.relay with
        flight := rest.filterMap chunk
        working := c.deliveries d ::ₘ s.relay.working } := by
      simp only [s', State.relay, spawns_of_chunk hc, gather_snoc, Task.owes]
      rw [add_comm, Multiset.singleton_add]
    rw [heq]
    exact hstep

/-- The credit is handed over, or it is lost.  A frame that is written brings its credit to the
wire, also when the hand-over reports a failure; one that is not written takes it away. -/
theorem relay_handOver {t : ℕ} {τ sent failed : Task} {frame : Outgoing} (result : Client.SendResult)
    (ht : s.tasks[t]? = some τ) (ho : τ.handsOver c = some (frame, sent, failed)) :
    let s' : State := { s.write result frame with
      tasks := s.tasks.set t (if result = .ok then sent else failed) }
    s'.relay = s.relay ∨ Relay.Step c.deliveries s.relay s'.relay := by
  intro s'
  rcases handsOver_cases ho with ⟨rfl, rfl, rfl, rfl⟩ | ⟨hτ, hgrants, -, hsent, hfailed⟩
  · obtain ⟨others, hwork, -, hset⟩ := working_split ht
    cases result with
    | failed =>
      have hstep := Relay.Step.lose (f := c.deliveries) (R := s.relay) hwork
      have heq : s'.relay = { s.relay with working := others } := by
        simp [s', State.relay, State.write, hset]
      exact Or.inr (heq ▸ hstep)
    | ok | failedWritten =>
      have hstep := Relay.Step.give (f := c.deliveries) (R := s.relay) hwork
      have heq : s'.relay = { s.relay with
          granted := s.relay.granted + 1
          working := others } := by
        simp [s', State.relay, State.write, hset, Outgoing.grants]
      exact Or.inr (heq ▸ hstep)
  · have hset : gather Task.owes (s.tasks.set t (if result = .ok then sent else failed)) =
        gather Task.owes s.tasks := by
      refine gather_set_eq Task.owes ht ?_
      rw [hτ]
      split
      · exact hsent
      · exact hfailed
    refine Or.inl ?_
    cases result <;> simp_all [s', State.relay, State.write]

/-- **The consumer is a relay**: every step is one of its steps, or it does not see it.  By cases on
the step, with the lemmas above for the three that move the unit.  A message that is put into the
channel is passed on by its worker, or dropped when nobody takes messages any more. -/
theorem relay_step {s' : State} {e : Event} (hp : Paced s e) (h : step c s e = some s') :
    s'.relay = s.relay ∨ Relay.Step c.deliveries s.relay s'.relay := by
  have hquiet : ∀ {t : ℕ} {τ τ' : Task}, s.tasks[t]? = some τ → τ'.owes = τ.owes →
      { s.relay with working := gather Task.owes (s.tasks.set t τ') } = s.relay := by
    intro t τ τ' ht hτ
    rw [gather_set_eq Task.owes ht hτ]
    rfl
  cases step_cases h with
  | brokerSend r => exact relay_brokerSend hp
  | brokerReceive ho =>
    refine Or.inr (Relay.Step.arrive (R := s.relay) ?_)
    simp [State.relay, ho]
  | read he hi => exact relay_read hi
  | eof he | close => exact Or.inl (by simp [State.relay, Task.owes])
  | drop hd hp => exact Or.inr (Relay.Step.abandon (R := s.relay))
  | pollItem | pollNone | returnItem | returnNone => exact Or.inl rfl
  | @enter t d rest ht hd hq =>
    obtain ⟨others, hwork, hset, -⟩ := working_split ht
    have hstep := Relay.Step.pass (f := c.deliveries) (R := s.relay) hd hwork
    refine Or.inr ?_
    simp only [State.relay, hset]
    exact hstep
  | @discard t d rest ht hd =>
    obtain ⟨others, hwork, hset, -⟩ := working_split ht
    have hstep := Relay.Step.drop (f := c.deliveries) (R := s.relay) hd hwork
    refine Or.inr ?_
    simp only [State.relay, hset]
    exact hstep
  | closing ht => exact Or.inl (hquiet ht rfl)
  | closeFlag ht hc => exact Or.inl (hquiet ht rfl)
  | handOver result ht ho => exact relay_handOver result ht ho
  | walk ht hw =>
    obtain ⟨hτ, hτ'⟩ := walk_owes hw
    exact Or.inl (hquiet ht (hτ'.trans hτ.symm))

end Refinement

/-! ## 3. Every run

The multisets of the relay are lists of the consumer, so that its unit is counted there: frames
that grant credit, chunks that have not been read, and handlers that have not paid. -/

/-- Every credit that is on its way is one unit. -/
def CreditOne (s : State) : Prop := ∀ cmd, .credit cmd ∈ s.outbound → cmd.credit = 1

theorem creditOne_step {c : ConsumerInternal} {s s' : State} {e : Event} (ho : CreditOne s)
    (h : step c s e = some s') : CreditOne s' := by
  cases step_cases h with
  | brokerReceive hout =>
    intro cmd hcmd
    refine ho cmd ?_
    rw [hout]
    exact List.mem_cons_of_mem _ hcmd
  | handOver result ht hover =>
    intro cmd hcmd
    cases result with
    | failed => exact ho cmd hcmd
    | ok | failedWritten =>
      rcases List.mem_append.mp hcmd with hcmd | hcmd
      · exact ho cmd hcmd
      · rw [List.mem_singleton] at hcmd
        rcases handsOver_cases hover with ⟨-, rfl, -, -⟩ | ⟨-, -, hne, -, -⟩
        · cases hcmd
          rfl
        · exact absurd hcmd.symm (hne cmd)
  | _ => exact ho

def Outgoing.isCredit : Outgoing → Bool
  | .credit _ => true
  | _ => false

/-- The task is the handler of a chunk that has not sent its credit. -/
def Task.unpaid : Task → Bool
  | .deliver _ => true
  | _ => false

theorem length_credits_le {outbound : List Outgoing}
    (ho : ∀ cmd, .credit cmd ∈ outbound → cmd.credit = 1) :
    (outbound.filter Outgoing.isCredit).length ≤ (outbound.map Outgoing.grants).sum := by
  induction outbound with
  | nil => exact Nat.le_refl 0
  | cons frame outbound ih =>
    have hrest := ih fun cmd hcmd => ho cmd (List.mem_cons_of_mem _ hcmd)
    rw [List.map_cons, List.sum_cons]
    cases frame with
    | credit cmd =>
      have hone : (Outgoing.credit cmd).grants = 1 := by
        show cmd.credit.toNat = 1
        rw [ho cmd List.mem_cons_self]
        rfl
      rw [List.filter_cons_of_pos rfl, List.length_cons, hone]
      omega
    | _ =>
      rw [List.filter_cons_of_neg (by simp [Outgoing.isCredit])]
      omega

theorem card_gather_owes (tasks : List Task) :
    (gather Task.owes tasks).card = (tasks.filter Task.unpaid).length := by
  induction tasks with
  | nil => rfl
  | cons τ tasks ih =>
    rw [gather_cons, Multiset.card_add, ih]
    cases τ with
    | deliver rest =>
      rw [List.filter_cons_of_pos rfl, List.length_cons]
      exact Nat.add_comm _ _
    | _ =>
      rw [List.filter_cons_of_neg (by simp [Task.unpaid])]
      exact Nat.zero_add _

/-- **Credit keeps the chunks in order**, in every run in which the broker sends a chunk only
when it has credit for it.  The credit at the broker, the credits on their way to it, the chunks
on their way from it and the handlers that have not sent their credit are never more than one
together; and what has entered the channel is a beginning of the messages of the chunks, one
chunk after the other in the order in which the broker has sent them.

The run is one of the relay, so there is one unit in all its places together; read off the state
of the consumer, these places are the four that are counted here. -/
theorem credit_order (c : ConsumerInternal) (es : List Event) (s : State)
    (h : run (step c) init es = some s) (hpaced : Steps (step c) Paced init es) :
    s.credit + (s.outbound.filter Outgoing.isCredit).length +
      (s.inbound.filterMap chunk).length + (s.tasks.filter Task.unpaid).length ≤ 1 ∧
    s.entered <+: s.sent.flatMap c.deliveries := by
  have hinit : Relay.Inv c.deliveries init.relay :=
    ⟨by decide, fun _ _ => rfl, fun _ rest hrest => absurd hrest.symm (by simp [State.relay, init]),
      List.nil_prefix⟩
  obtain ⟨hi, ho⟩ := run_invariant_steps
    (P := fun u => Relay.Inv c.deliveries u.relay ∧ CreditOne u)
    (fun u e u' hC hP hs => by
      refine ⟨?_, creditOne_step hP.2 hs⟩
      rcases relay_step hC hs with heq | hstep
      · rw [heq]
        exact hP.1
      · exact hP.1.step hstep) hpaced ⟨hinit, by simp [CreditOne, init]⟩ h
  refine ⟨?_, hi.ordered⟩
  have htokens := hi.tokens
  have hcredits := length_credits_le ho
  simp only [Relay.tokens, State.relay, card_gather_owes] at htokens
  omega

/-- A consumer without a filter. -/
def plain : ConsumerInternal where
  name := none
  stream := "invoices"
  offsetSpecification := .next

/-- A chunk of one message, with its offset, in a frame. -/
def chunkFrame (offset : UInt64) : Response :=
  ⟨⟨8, 1⟩, .deliver ⟨1, 80, 0, 1, 0, 0, offset, 0, 0, 0, [{ message := {} }]⟩⟩

/-- Two chunks, the second of which is sent for the credit that the first has brought back. -/
def twoChunks : List Event :=
  [.brokerReceive, .brokerSend (chunkFrame 0), .read, .move 0, .handOver 0 .ok, .brokerReceive,
    .brokerSend (chunkFrame 1), .read, .move 1]

theorem credit_order_two_chunks : ∃ s, run (step plain) init twoChunks = some s ∧
    s.sent.length = 2 ∧ s.entered.length = 2 ∧ s.entered <+: s.sent.flatMap plain.deliveries :=
  ⟨_, rfl, rfl, rfl, (credit_order plain twoChunks _ rfl (by decide +kernel)).2⟩

end RabbitMqStream.Consumer
