/-
# Super streams: from the partitions to the application

`SuperStreamConsumerBuilder::build` spawns a task for each consumer of a partition.  The task asks
its consumer for the next message and sends that into a channel, until the consumer says that there
is nothing more; then the consumer and the sending end of the channel are dropped.  `poll_next` of
the super stream's consumer asks the other end of the channel, and then loads a flag of its own.

**Steps.**  The consumers are those of `Consumer.step`, each with its connection and its broker; a
step of one is a step here.  A consumer is polled and dropped by its forwarder only.  Besides, a
forwarder takes the steps of its `send`, and the two steps of `poll_next`, `poll_recv` and the load
of the flag, are as far apart as those of a single consumer.  The flag is raised by
`SuperStreamConsumerHandle::close`, which goes on to close the consumers one by one; here any of
them may be closed at any time.  In the channel a message stands with the number of its partition,
which no step looks at.

* `forwarding_exact`: in every run, what was returned of a partition is a beginning of what its
  consumer has returned, and nothing is missing but what is in the channel or in a forwarder's
  hands.
* `forwarding_order`: when the brokers keep to the credit, the deliveries of a partition are returned
  chunk after chunk, however the partitions are interleaved.
* `forwarding_end`: when the consumer of the super stream says that there is nothing more and was
  not closed, everything that the partitions' consumers have returned has been returned.
* `forwarding_complete`: when their steps are orderly as well, that is the deliveries of every chunk
  that any of the partitions has read.

**The argument.**  The forwarders are carriers of `Lts/Fanin.lean`, whose sources are the
consumers: what a source has given is what its consumer has returned.  This gives
`forwarding_exact` without looking into a consumer.  Everything else is known of one consumer
alone (`Consumer/Credit.lean`, `Consumer/Disconnect.lean`) and has to be carried over: a step of
the whole is a step of at most one consumer, so what a consumer keeps in its own steps it keeps
among the others (`each_run`).  For the end of the stream one follows the `None` backwards.  The
channel is closed when all forwarders have ended, and a forwarder ends when its consumer has said
that there is nothing more.
-/
import RabbitMqStream.Consumer.Disconnect
import RabbitMqStream.Lts.Fanin

namespace RabbitMqStream.SuperStream.Forwarding

open Lts
open Consumer (ConsumerInternal Delivery)

variable {n : ℕ}

/-! ## 1. The state -/

/-- Where the task of a partition is. -/
inductive Forwarder : Type where
  /-- In `consumer.next().await`. -/
  | next
  /-- In `tx_cloned.send(d).await`. -/
  | sending (d : Delivery)
  /-- The loop is over. -/
  | ended
  /-- `consumer` and `tx_cloned` have been dropped. -/
  | finished
  deriving DecidableEq

inductive Poll (n : ℕ) : Type where
  | pending
  | ready (item : Option (Fin n × Delivery))
  deriving DecidableEq

/-- How far `poll_next` has come: between its two steps it has what `poll_recv` gave it. -/
inductive Polling (n : ℕ) : Type where
  | idle
  | received (poll : Poll n)
  deriving DecidableEq

structure State (n : ℕ) : Type where
  consumers : Fin n → Consumer.State := fun _ => Consumer.init
  forwarders : Fin n → Forwarder := fun _ => .next
  channel : List (Fin n × Delivery) := []
  /-- The flag of the super stream's consumer. -/
  closed : Bool := false
  /-- The `SuperStreamConsumer` has been dropped, and with it the receiving end of the channel. -/
  dropped : Bool := false
  polling : Polling n := .idle
  -- Records of what has happened:
  returned : List (Fin n × Delivery) := []
  results : List (Poll n) := []

/-! ## 2. The steps

A step of a consumer may be one that its forwarder takes, such as a poll; what comes of it
decides where the forwarder is afterwards, in the same step. -/

inductive Event (n : ℕ) : Type where
  /-- The consumer of partition `i`, or what is around it, takes a step. -/
  | consumer (i : Fin n) (e : Consumer.Event)
  /-- The `send` of the forwarder of partition `i` ends. -/
  | send (i : Fin n)
  | pollRecv (spurious : Bool)
  /-- `poll_next` loads the flag and returns. -/
  | pollClosed
  /-- `close` raises the flag. -/
  | close
  /-- The `SuperStreamConsumer` is dropped. -/
  | drop
  deriving DecidableEq

/-- The room in the channel. -/
def capacity : ℕ := 10000

/-- Its consumer may take the step: only the forwarder polls and drops it. -/
def Forwarder.allows (f : Forwarder) : Consumer.Event → Bool
  | .pollRecv _ | .pollClosed => f = .next
  | .drop => f = .ended
  | _ => true

/-- What `consumer.next().await` makes of a poll. -/
def Forwarder.polled : Consumer.Poll → Forwarder
  | .pending => .next
  | .ready (some d) => .sending d
  | .ready none => .ended

/-- Where a forwarder is after a step of its consumer that has led to `u`. -/
def Forwarder.after (f : Forwarder) (u : Consumer.State) : Consumer.Event → Forwarder
  | .pollClosed =>
    match u.results.getLast? with
    | some poll => polled poll
    | none => f
  | .drop => .finished
  | _ => f

/-- `poll_recv`, when it does not fail spuriously: the channel is closed when all forwarders have
dropped their ends of it. -/
def State.recv (s : State n) : List (Fin n × Delivery) × Poll n :=
  match s.channel with
  | item :: rest => (rest, .ready (some item))
  | [] => ([], if ∀ i, s.forwarders i = .finished then .ready none else .pending)

/-- What `poll_next` returns. -/
def State.pollNext (s : State n) (poll : Poll n) : Poll n :=
  match s.closed, poll with
  | true, .pending => .ready none
  | _, poll => poll

/-- The message in a poll. -/
def Poll.item : Poll n → Option (Fin n × Delivery)
  | .ready item => item
  | .pending => none

def step (c : Fin n → ConsumerInternal) (s : State n) : Event n → Option (State n)
  | .consumer i e =>
    if (s.forwarders i).allows e then
      match Consumer.step (c i) (s.consumers i) e with
      | some u => some { s with
          consumers := Function.update s.consumers i u
          forwarders := Function.update s.forwarders i ((s.forwarders i).after u e) }
      | none => none
    else none
  | .send i =>
    match s.forwarders i with
    | .sending d =>
      -- the error of a `send` that nobody receives is not looked at
      if s.dropped then some { s with forwarders := Function.update s.forwarders i .next }
      else if s.channel.length < capacity then some { s with
        forwarders := Function.update s.forwarders i .next
        channel := s.channel ++ [(i, d)] }
      else none
    | _ => none
  | .pollRecv spurious =>
    if s.dropped = false ∧ s.polling = .idle then
      if spurious then some { s with polling := .received .pending }
      else some { s with channel := s.recv.1, polling := .received s.recv.2 }
    else none
  | .pollClosed =>
    match s.polling with
    | .received poll => some { s with
        polling := .idle
        returned := s.returned ++ poll.item.toList
        results := s.results ++ [s.pollNext poll] }
    | .idle => none
  | .close => some { s with closed := true }
  | .drop =>
    if s.dropped = false ∧ s.polling = .idle then some { s with dropped := true, channel := [] }
    else none

/-! ## 3. What a step can do

A turn of a consumer with what its forwarder makes of it, the `send` of a forwarder, and the
steps of the application, which polls, closes or drops the consumer of the super stream. -/

/-- A step of a consumer from `v` to `u`, and what its forwarder makes of it. -/
inductive Turn (v u : Consumer.State) : Consumer.Event → Forwarder → Forwarder → Prop where
  | beside {e : Consumer.Event} {f : Forwarder} (hclosed : e ≠ .pollClosed)
      (hrecv : f ≠ .next → ∀ spurious, e ≠ .pollRecv spurious)
      (hr : u.returned = v.returned) : Turn v u e f f
  | item {d : Delivery} (hr : u.returned = v.returned ++ [d]) :
      Turn v u .pollClosed .next (.sending d)
  | pending (hr : u.returned = v.returned) : Turn v u .pollClosed .next .next
  | none (hp : v.polling = .received none) (hc : v.closed = true)
      (hu : u = { v with polling := .idle, results := v.results ++ [.ready none] }) :
      Turn v u .pollClosed .next .ended
  | drop (hr : u.returned = v.returned) : Turn v u .drop .ended .finished

/-- The steps once more, as a relation to argue by cases on. -/
inductive Step (c : Fin n → ConsumerInternal) (s : State n) : Event n → State n → Prop where
  | consumer {i : Fin n} {e : Consumer.Event} {u : Consumer.State} {f : Forwarder}
      (hu : Consumer.step (c i) (s.consumers i) e = some u)
      (hf : Turn (s.consumers i) u e (s.forwarders i) f) :
      Step c s (.consumer i e) { s with
        consumers := Function.update s.consumers i u
        forwarders := Function.update s.forwarders i f }
  | sent {i : Fin n} {d : Delivery} (hf : s.forwarders i = .sending d) (hd : s.dropped = false)
      (hroom : s.channel.length < capacity) :
      Step c s (.send i) { s with
        forwarders := Function.update s.forwarders i .next
        channel := s.channel ++ [(i, d)] }
  | lost {i : Fin n} {d : Delivery} (hf : s.forwarders i = .sending d) (hd : s.dropped = true) :
      Step c s (.send i) { s with forwarders := Function.update s.forwarders i .next }
  | pollItem {item : Fin n × Delivery} {rest : List (Fin n × Delivery)} (hd : s.dropped = false)
      (hp : s.polling = .idle) (hq : s.channel = item :: rest) :
      Step c s (.pollRecv false) { s with
        channel := rest, polling := .received (.ready (some item)) }
  | pollNone (hd : s.dropped = false) (hp : s.polling = .idle) (hq : s.channel = [])
      (hf : ∀ i, s.forwarders i = .finished) :
      Step c s (.pollRecv false) { s with polling := .received (.ready none) }
  | pollPending {spurious : Bool} (hd : s.dropped = false) (hp : s.polling = .idle) :
      Step c s (.pollRecv spurious) { s with polling := .received .pending }
  | returns {poll : Poll n} (hp : s.polling = .received poll) :
      Step c s .pollClosed { s with
        polling := .idle
        returned := s.returned ++ poll.item.toList
        results := s.results ++ [s.pollNext poll] }
  | close : Step c s .close { s with closed := true }
  | drop (hd : s.dropped = false) (hp : s.polling = .idle) :
      Step c s .drop { s with dropped := true, channel := [] }

/-- A consumer returns a message only at the end of a `poll_next`. -/
theorem returned_of_step {d : ConsumerInternal} {v u : Consumer.State} {e : Consumer.Event}
    (h : Consumer.step d v e = some u) (he : e ≠ .pollClosed) : u.returned = v.returned := by
  cases Consumer.step_cases h with
  | returnItem hp => exact absurd rfl he
  | handOver result ht ho => cases result <;> rfl
  | _ => rfl

theorem turn_of_step {d : ConsumerInternal} {v u : Consumer.State} {e : Consumer.Event}
    {f : Forwarder} (h : Consumer.step d v e = some u) (ha : f.allows e = true) :
    Turn v u e f (f.after u e) := by
  cases e with
  | pollClosed =>
    obtain rfl : f = .next := by simpa [Forwarder.allows] using ha
    cases Consumer.step_cases h with
    | returnItem hp =>
      simp only [Forwarder.after, List.getLast?_append, List.getLast?_singleton, Option.some_or]
      exact .item rfl
    | returnNone hp =>
      simp only [Forwarder.after, List.getLast?_append, List.getLast?_singleton, Option.some_or]
      cases hc : v.closed with
      | false => exact .pending rfl
      | true => exact .none hp hc (by simp [hc])
    | walk ht hw => cases hw
  | drop =>
    obtain rfl : f = .ended := by simpa [Forwarder.allows] using ha
    exact .drop (returned_of_step h (by simp))
  | pollRecv spurious =>
    obtain rfl : f = .next := by simpa [Forwarder.allows] using ha
    exact .beside (by simp) (fun hne => absurd rfl hne) (returned_of_step h (by simp))
  | _ => exact .beside (by simp) (by simp) (returned_of_step h (by simp))

theorem step_cases {c : Fin n → ConsumerInternal} {s s' : State n} {e : Event n}
    (h : step c s e = some s') : Step c s e s' := by
  cases e with
  | consumer i e =>
    simp only [step] at h
    split at h
    · rename_i ha
      split at h
      · rename_i u hu
        cases h
        exact .consumer hu (turn_of_step hu ha)
      · cases h
    · cases h
  | send i =>
    simp only [step] at h
    split at h
    · rename_i d hf
      split at h
      · rename_i hd
        cases h
        exact .lost hf hd
      · rename_i hd
        split at h
        · rename_i hroom
          cases h
          exact .sent hf (by simpa using hd) hroom
        · cases h
    · cases h
  | pollRecv spurious =>
    simp only [step] at h
    split at h
    · rename_i hc
      cases spurious with
      | true =>
        cases h
        exact .pollPending hc.1 hc.2
      | false =>
        rw [if_neg (by simp), Option.some.injEq] at h
        subst h
        simp only [State.recv]
        split
        · rename_i item rest hq
          exact .pollItem hc.1 hc.2 hq
        · rename_i hq
          rw [← hq]
          by_cases hf : ∀ i, s.forwarders i = .finished
          · rw [if_pos hf]
            exact .pollNone hc.1 hc.2 hq hf
          · rw [if_neg hf]
            exact .pollPending hc.1 hc.2
    · cases h
  | pollClosed =>
    simp only [step] at h
    split at h
    · rename_i poll hp
      cases h
      exact .returns hp
    · cases h
  | close =>
    cases h
    exact .close
  | drop =>
    simp only [step] at h
    split at h
    · rename_i hc
      cases h
      exact .drop hc.1 hc.2
    · cases h

/-! ## 4. What was returned of a partition

The fan-in sees a turn of a consumer only when it returns a message, and then as the taking of
that message by the forwarder.  Nothing is asked of the consumers. -/

/-- The message that a forwarder has in its hands. -/
def Forwarder.inHand : Forwarder → Option Delivery
  | .sending d => some d
  | _ => none

/-- The message that `poll_next` is about to return. -/
def Polling.inHand : Polling n → List (Fin n × Delivery)
  | .received poll => poll.item.toList
  | .idle => []

def State.fanin (s : State n) : Fanin (Fin n) Delivery where
  taken i := (s.consumers i).returned
  hand i := (s.forwarders i).inHand
  queue := s.channel
  out := s.returned ++ s.polling.inHand
  abandoned := s.dropped

section Refinement

variable {c : Fin n → ConsumerInternal} {s s' : State n}

theorem taken_update (consumers : Fin n → Consumer.State) (i : Fin n) (u : Consumer.State) :
    (fun j => (Function.update consumers i u j).returned) =
      Function.update (fun j => (consumers j).returned) i u.returned :=
  funext fun j => Function.apply_update (fun _ v => v.returned) consumers i u j

theorem hand_update (forwarders : Fin n → Forwarder) (i : Fin n) (f : Forwarder) :
    (fun j => (Function.update forwarders i f j).inHand) =
      Function.update (fun j => (forwarders j).inHand) i f.inHand :=
  funext fun j => Function.apply_update (fun _ g => g.inHand) forwarders i f j

/-- A turn that gives the forwarder a message is seen as its taking; any other is not seen. -/
theorem fanin_turn {i : Fin n} {e : Consumer.Event} {u : Consumer.State} {f : Forwarder}
    (hf : Turn (s.consumers i) u e (s.forwarders i) f) :
    let s' : State n := { s with
      consumers := Function.update s.consumers i u
      forwarders := Function.update s.forwarders i f }
    s'.fanin = s.fanin ∨ Fanin.Step s.fanin s'.fanin := by
  intro s'
  have hsame : u.returned = (s.consumers i).returned → f.inHand = (s.forwarders i).inHand →
      s'.fanin = s.fanin := by
    intro hr hh
    simp only [s', State.fanin, taken_update, hand_update, hr, hh]
    rw [Function.update_eq_self_iff.mpr rfl, Function.update_eq_self_iff.mpr rfl]
  generalize hnow : s.forwarders i = now at hf hsame
  cases hf with
  | beside hclosed hrecv hr => exact Or.inl (hsame hr rfl)
  | pending hr => exact Or.inl (hsame hr rfl)
  | none hp hc hu => exact Or.inl (hsame (by rw [hu]) rfl)
  | drop hr => exact Or.inl (hsame hr rfl)
  | @item d hr =>
    have htake := Fanin.Step.take (F := s.fanin) i d (by simp [State.fanin, hnow, Forwarder.inHand])
    refine Or.inr ?_
    simp only [s', State.fanin, taken_update, hand_update, hr]
    exact htake

/-- **The forwarders share the channel**: every step is one of theirs, or it does not concern
them. -/
theorem fanin_step {e : Event n} (h : step c s e = some s') :
    s'.fanin = s.fanin ∨ Fanin.Step s.fanin s'.fanin := by
  cases step_cases h with
  | consumer hu hf => exact fanin_turn hf
  | @sent i d hf hd hroom =>
    have hput := Fanin.Step.put (F := s.fanin) (i := i) (a := d) hd
      (by simp [State.fanin, hf, Forwarder.inHand])
    refine Or.inr ?_
    simp only [State.fanin, hand_update]
    exact hput
  | @lost i d hf hd =>
    have hdrop := Fanin.Step.drop (F := s.fanin) (i := i) (a := d) hd
      (by simp [State.fanin, hf, Forwarder.inHand])
    refine Or.inr ?_
    simp only [State.fanin, hand_update]
    exact hdrop
  | @pollItem item rest hd hp hq =>
    have hemit := Fanin.Step.emit (F := s.fanin) hq
    refine Or.inr ?_
    simpa [State.fanin, hp, Polling.inHand, Poll.item] using hemit
  | pollNone hd hp hq hf => exact Or.inl (by simp [State.fanin, hp, Polling.inHand, Poll.item])
  | pollPending hd hp => exact Or.inl (by simp [State.fanin, hp, Polling.inHand, Poll.item])
  | returns hp => exact Or.inl (by simp [State.fanin, hp, Polling.inHand])
  | close => exact Or.inl rfl
  | drop hd hp => exact Or.inr Fanin.Step.abandon

end Refinement

theorem fanin_run {c : Fin n → ConsumerInternal} {es : List (Event n)} {s : State n}
    (h : run (step c) {} es = some s) : s.fanin.Inv := by
  have hinit : ({} : State n).fanin.Inv :=
    ⟨fun _ _ => rfl, fun _ => List.nil_prefix, fun _ => rfl⟩
  refine run_invariant (P := fun s => s.fanin.Inv) (fun s e s' hs he => ?_) hinit h
  rcases fanin_step he with heq | hstep
  · rw [heq]
    exact hs
  · exact hs.step hstep

/-- What was returned of a partition is a beginning of what its consumer has returned. -/
theorem returned_initial {c : Fin n → ConsumerInternal} {es : List (Event n)} {s : State n}
    (h : run (step c) {} es = some s) (i : Fin n) :
    ofSource i s.returned <+: (s.consumers i).returned := by
  refine List.IsPrefix.trans ?_ ((fanin_run h).ordered i)
  simp only [State.fanin, ofSource_append]
  exact List.prefix_append _ _

/-- **Nothing gets lost between a partition and the application**, in every run: what was returned
of a partition is a beginning of what its consumer has returned, and until the super stream's
consumer is dropped, the rest of that is about to be returned, in the channel or in the hands of
the forwarder, each message once.

The equation of the fan-in for that partition, with the channel and the hands read off the state. -/
theorem forwarding_exact (c : Fin n → ConsumerInternal) (es : List (Event n)) (s : State n)
    (h : run (step c) {} es = some s) (i : Fin n) :
    ofSource i s.returned <+: (s.consumers i).returned ∧
      (s.dropped = false →
        ofSource i (s.returned ++ s.polling.inHand ++ s.channel) ++
          (s.forwarders i).inHand.toList = (s.consumers i).returned) := by
  refine ⟨returned_initial h i, fun hd => ?_⟩
  rw [ofSource_append]
  exact (fanin_run h).kept hd i

/-- Two partitions. -/
def invoices (i : Fin 2) : ConsumerInternal where
  name := none
  stream := if i = 0 then "invoices-0" else "invoices-1"
  offsetSpecification := .next

/-- Its partition sends a chunk of one message, and the connection ends. -/
def chunkAndEnd (i : Fin 2) : List (Event 2) :=
  [Consumer.Event.brokerReceive, .brokerSend (Consumer.chunkFrame 0), .read, .move 0, .eof,
    .move 1].map (.consumer i)

/-- The forwarder polls its consumer. -/
def next (i : Fin 2) : List (Event 2) :=
  [.consumer i (.pollRecv false), .consumer i .pollClosed]

/-- Both messages are forwarded, that of the second partition first, and returned. -/
def bothForwarded : List (Event 2) :=
  chunkAndEnd 0 ++ chunkAndEnd 1 ++ next 0 ++ next 1 ++ [.send 1, .send 0] ++ next 0 ++ next 1 ++
    [.consumer 0 .drop, .consumer 1 .drop, .pollRecv false, .pollClosed, .pollRecv false,
      .pollClosed, .pollRecv false]

theorem forwarding_exact_both : ∃ s, run (step invoices) {} bothForwarded = some s ∧
    s.returned.map Prod.fst = [1, 0] ∧
    ofSource 0 s.returned <+: (s.consumers 0).returned :=
  ⟨_, rfl, rfl, (forwarding_exact invoices bothForwarded _ rfl 0).1⟩

/-! ## 5. The consumers keep what they keep alone

A step of the whole moves one consumer at most, and moves it as it may move alone.  So an
invariant of one consumer, with a condition on its steps, is an invariant of each of them here. -/

/-- The condition on the steps of the consumers, each with its number. -/
def Each (C : Fin n → Consumer.State → Consumer.Event → Prop) (s : State n) : Event n → Prop
  | .consumer i e => C i (s.consumers i) e
  | _ => True

instance {C : Fin n → Consumer.State → Consumer.Event → Prop} [∀ i v e, Decidable (C i v e)]
    (s : State n) : ∀ e, Decidable (Each C s e)
  | .consumer i e => inferInstanceAs (Decidable (C i (s.consumers i) e))
  | .send _ | .pollRecv _ | .pollClosed | .close | .drop => inferInstanceAs (Decidable True)

section Consumers

variable {c : Fin n → ConsumerInternal} {C : Fin n → Consumer.State → Consumer.Event → Prop}
  {P : Fin n → Consumer.State → Prop}

theorem each_step
    (hstep : ∀ i v e u, C i v e → P i v → Consumer.step (c i) v e = some u → P i u)
    {s s' : State n} {e : Event n} (hC : Each C s e) (hP : ∀ i, P i (s.consumers i))
    (h : step c s e = some s') : ∀ i, P i (s'.consumers i) := by
  cases step_cases h with
  | @consumer i e u f hu hf =>
    intro j
    by_cases hji : j = i
    · subst hji
      simpa using hstep j _ e u hC (hP j) hu
    · simpa [Function.update_of_ne hji] using hP j
  | _ => exact hP

/-- **What a consumer keeps alone** it keeps among the others. -/
theorem each_run (hstep : ∀ i v e u, C i v e → P i v → Consumer.step (c i) v e = some u → P i u)
    (hinit : ∀ i, P i Consumer.init) {es : List (Event n)} {s : State n}
    (h : run (step c) {} es = some s) (hC : Steps (step c) (Each C) {} es) :
    ∀ i, P i (s.consumers i) :=
  run_invariant_steps (P := fun s => ∀ i, P i (s.consumers i))
    (fun _ _ _ hC hP he => each_step hstep hC hP he) hC hinit h

end Consumers

/-! ## 6. Chunk after chunk

What a single consumer returns is compared with what came into its channel, and by the credit
that is in the order of the chunks.  The forwarder adds nothing to the order and takes nothing
away. -/

/-- What the `poll_next` of a consumer is about to return. -/
def received : Consumer.Polling → List Delivery
  | .received item => item.toList
  | .idle => []

/-- What a consumer returns has been in its channel, and comes out of it in order. -/
structure Passed (v : Consumer.State) : Prop where
  kept : v.dropped = false → v.returned ++ received v.polling ++ v.queue = v.entered
  ordered : v.returned <+: v.entered
  polling : v.dropped = true → v.polling = .idle

theorem passed_step {d : ConsumerInternal} {v u : Consumer.State} {e : Consumer.Event}
    (hv : Passed v) (h : Consumer.step d v e = some u) : Passed u := by
  cases Consumer.step_cases h with
  | drop hd hp => exact ⟨fun hopen => absurd hopen (by simp), hv.ordered, fun _ => hp⟩
  | pollItem hd hp hq =>
    have hkept := hv.kept hd
    rw [hp, hq] at hkept
    exact ⟨fun _ => by simpa [received] using hkept, hv.ordered,
      fun hdr => absurd (hd.symm.trans hdr) (by simp)⟩
  | pollNone hd hp hq =>
    have hkept := hv.kept hd
    rw [hp] at hkept
    exact ⟨fun _ => hkept, hv.ordered, fun hdr => absurd (hd.symm.trans hdr) (by simp)⟩
  | @returnItem m hp =>
    have hd : v.dropped = false := by
      by_contra hdr
      rw [hv.polling (by simpa using hdr)] at hp
      cases hp
    have hkept := hv.kept hd
    rw [hp] at hkept
    refine ⟨fun _ => by simpa [received] using hkept, ?_, fun _ => rfl⟩
    rw [← hkept]
    exact List.prefix_append _ _
  | returnNone hp =>
    refine ⟨fun hd => ?_, hv.ordered, fun _ => rfl⟩
    have hkept := hv.kept hd
    rw [hp] at hkept
    exact hkept
  | enter ht hd hq =>
    refine ⟨fun hopen => ?_, hv.ordered.trans (List.prefix_append _ _), hv.polling⟩
    simp only [← hv.kept hopen, List.append_assoc]
  | handOver result ht ho => cases result <;> exact ⟨hv.kept, hv.ordered, hv.polling⟩
  | _ => exact ⟨hv.kept, hv.ordered, hv.polling⟩

/-- **A partition is consumed in order**, in every run in which its broker sends a chunk only when
it has credit for it: what was returned of the partition is a beginning of the deliveries that its
consumer makes of the chunks, one chunk after the other as the broker has sent them, whatever the
other partitions do.  Two prefixes are put together.  The partition's own consumer returns in the
order in which the broker has sent (the relay of one credit), and the forwarding task passes on what
that consumer has returned without changing the order (`passed_step`). -/
theorem forwarding_order (c : Fin n → ConsumerInternal) (es : List (Event n)) (s : State n)
    (h : run (step c) {} es = some s)
    (hpaced : Steps (step c) (Each fun _ => Consumer.Paced) {} es) (i : Fin n) :
    ofSource i s.returned <+: (s.consumers i).sent.flatMap (c i).deliveries := by
  have hrelay := each_run (P := fun i v => Relay.Inv (c i).deliveries v.relay)
    (fun i v e u hC hv hu => by
      rcases Consumer.relay_step hC hu with heq | hstep
      · rw [heq]
        exact hv
      · exact hv.step hstep)
    (fun i => ⟨Nat.le_refl 1, fun _ _ => rfl,
      fun _ rest hrest => absurd hrest.symm (by simp [Consumer.State.relay, Consumer.init]),
      List.nil_prefix⟩) h hpaced i
  have hpassed := each_run (P := fun _ => Passed) (fun i v e u _ hv hu => passed_step hv hu)
    (fun _ => ⟨fun _ => rfl, List.nil_prefix, fun _ => rfl⟩) h hpaced i
  exact ((returned_initial h i).trans hpassed.ordered).trans hrelay.ordered

theorem forwarding_order_both : ∃ s, run (step invoices) {} bothForwarded = some s ∧
    (ofSource 1 s.returned).length = 1 ∧
    ofSource 1 s.returned <+: (s.consumers 1).sent.flatMap (invoices 1).deliveries :=
  ⟨_, rfl, rfl, forwarding_order invoices bothForwarded _ rfl (by decide +kernel) 1⟩

/-! ## 7. The end of the super stream

The `None` of the whole comes from a channel that is empty and whose senders are all gone.  A
sender is gone when its task has ended, and the task ends at the `None` of its consumer, of
which `Consumer/Disconnect.lean` says what has been returned then. -/

/-- The forwarder has heard from its consumer that there is nothing more. -/
def Forwarder.over (f : Forwarder) : Prop := f = .ended ∨ f = .finished

/-- Once there is nothing more to come from the channel, all the forwarders are finished. -/
structure Exhausted (s : State n) : Prop where
  finished : ∀ i, s.forwarders i = .finished
  channel : s.channel = []
  dropped : s.dropped = false

section Ends

variable {c : Fin n → ConsumerInternal} {s s' : State n}

theorem turn_finished {v u : Consumer.State} {e : Consumer.Event} {f : Forwarder}
    (h : Turn v u e .finished f) : f = .finished := by
  cases h
  rfl

/-- A `poll_recv` that finds the channel closed finds it exhausted, and so it stays until
`poll_next` returns. -/
theorem exhausted_step {e : Event n}
    (hs : s.polling = .received (.ready none) → Exhausted s) (h : step c s e = some s') :
    s'.polling = .received (.ready none) → Exhausted s' := by
  intro hp'
  cases step_cases h with
  | @consumer i e u f hu hf =>
    have hx := hs hp'
    rw [hx.finished i] at hf
    obtain rfl := turn_finished hf
    refine ⟨fun j => ?_, hx.channel, hx.dropped⟩
    show Function.update s.forwarders i .finished j = .finished
    rw [Function.update_eq_self_iff.mpr (hx.finished i).symm]
    exact hx.finished j
  | @sent i d hf hd hroom | @lost i d hf hd =>
    rw [(hs hp').finished i] at hf
    cases hf
  | pollItem hd hp hq => cases hp'
  | pollNone hd hp hq hf => exact ⟨hf, hq, hd⟩
  | pollPending hd hp => cases hp'
  | returns hp => cases hp'
  | close => exact ⟨(hs hp').finished, (hs hp').channel, (hs hp').dropped⟩
  | drop hd hp =>
    rw [hp] at hp'
    cases hp'

/-- What a forwarder finds out when it hears that there is nothing more it can rely on from then
on. -/
theorem over_step {P : Fin n → Consumer.State → Prop}
    (hnone : ∀ i, (s.consumers i).polling = .received none → (s.consumers i).closed = true →
      P i { s.consumers i with
        polling := .idle, results := (s.consumers i).results ++ [.ready none] })
    (hkeep : ∀ i e u, P i (s.consumers i) → Consumer.step (c i) (s.consumers i) e = some u →
      e ≠ .pollClosed → P i u)
    {e : Event n} (hP : ∀ i, (s.forwarders i).over → P i (s.consumers i))
    (h : step c s e = some s') : ∀ i, (s'.forwarders i).over → P i (s'.consumers i) := by
  have hnext : ∀ i, (Function.update s.forwarders i .next i).over → False := by
    simp [Forwarder.over]
  cases step_cases h with
  | @consumer i e u f hu hf =>
    intro j hj
    by_cases hji : j = i
    · subst hji
      simp only [Function.update_self] at hj ⊢
      generalize hnow : s.forwarders j = now at hf
      cases hf with
      | beside hclosed hrecv hr => exact hkeep j e u (hP j (hnow ▸ hj)) hu hclosed
      | item hr | pending hr => rcases hj with hj | hj <;> cases hj
      | none hp hc hu' =>
        rw [hu']
        exact hnone j hp hc
      | drop hr => exact hkeep j .drop u (hP j (Or.inl hnow)) hu (by simp)
    · simp only [Function.update_of_ne hji] at hj ⊢
      exact hP j hj
  | @sent i d hf hd hroom | @lost i d hf hd =>
    intro j hj
    by_cases hji : j = i
    · subst hji
      exact absurd hj (hnext j)
    · simp only [Function.update_of_ne hji] at hj
      exact hP j hj
  | _ => exact hP

end Ends

/-- A `poll_next` that is about to say that there is nothing more, of a consumer that was not
closed, has heard so from the channel. -/
theorem received_of_none {c : Fin n → ConsumerInternal} {s s' : State n}
    (hpoll : step c s .pollClosed = some s') (hnone : s'.results = s.results ++ [.ready none])
    (hopen : s.closed = false) :
    s.polling = .received (.ready none) ∧ s'.returned = s.returned := by
  cases step_cases hpoll with
  | @returns poll hp =>
    obtain rfl : poll = .ready none := by simpa [State.pollNext, hopen] using hnone
    exact ⟨hp, by simp [Poll.item]⟩

theorem exhausted_run {c : Fin n → ConsumerInternal} {es : List (Event n)} {s : State n}
    (h : run (step c) {} es = some s) : s.polling = .received (.ready none) → Exhausted s :=
  run_invariant (P := fun s => s.polling = .received (.ready none) → Exhausted s)
    (fun _ _ _ hs he => exhausted_step hs he) (fun hp => absurd hp (by simp)) h

/-- When the channel is exhausted, what the consumers have returned has been returned. -/
theorem Exhausted.returned {s : State n} (hs : Exhausted s) (hi : s.fanin.Inv)
    (hp : s.polling = .received (.ready none)) (i : Fin n) :
    ofSource i s.returned = (s.consumers i).returned := by
  have hall := hi.settled hs.dropped (i := i) (by simp [State.fanin, hs.finished, Forwarder.inHand])
    hs.channel
  simpa [State.fanin, hp, Polling.inHand, Poll.item] using hall

/-- The flag of a consumer stays up. -/
theorem closed_of_step {d : ConsumerInternal} {v u : Consumer.State} {e : Consumer.Event}
    (h : Consumer.step d v e = some u) (hc : v.closed = true) : u.closed = true := by
  cases Consumer.step_cases h with
  | closing ht | closeFlag ht => rfl
  | handOver result ht ho => cases result <;> exact hc
  | _ => exact hc

/-- **The end of a super stream is the end of all its partitions**, in every run: when its consumer
says that there is nothing more and was not closed, the flags of the consumers of all partitions
are up, and what they have returned has all been returned.

A `poll_recv` that has found the channel closed has found it empty, with all forwarders finished,
and so it stays until the flag is loaded (`exhausted_step`). -/
theorem forwarding_end (c : Fin n → ConsumerInternal) (es : List (Event n)) (s s' : State n)
    (h : run (step c) {} es = some s) (hpoll : step c s .pollClosed = some s')
    (hnone : s'.results = s.results ++ [.ready none]) (hopen : s.closed = false) (i : Fin n) :
    (s.consumers i).closed = true ∧ ofSource i s'.returned = (s.consumers i).returned := by
  obtain ⟨hp, hreturned⟩ := received_of_none hpoll hnone hopen
  have hs := exhausted_run h hp
  refine ⟨?_, hreturned ▸ hs.returned (fanin_run h) hp i⟩
  have hover := run_invariant
    (P := fun s => ∀ i, (s.forwarders i).over → (s.consumers i).closed = true)
    (fun s e s' hP he => over_step (P := fun _ v => v.closed = true) (fun i _ hc => hc)
      (fun i e u hv hu _ => closed_of_step hu hv) hP he)
    (fun i hi => by rcases hi with hi | hi <;> cases hi) h
  exact hover i (Or.inr (hs.finished i))

theorem forwarding_end_both : ∃ s s', run (step invoices) {} bothForwarded = some s ∧
    step invoices s .pollClosed = some s' ∧
    ((s.consumers 1).closed = true ∧ ofSource 1 s'.returned = (s.consumers 1).returned) :=
  ⟨_, _, rfl, rfl, forwarding_end invoices bothForwarded _ _ rfl rfl rfl rfl 1⟩

/-- The end of the connection has been read, and the messages of all chunks that were read before
have been returned. -/
structure Complete (d : ConsumerInternal) (v : Consumer.State) : Prop where
  ended : v.ended = true
  returned : v.returned.Perm (v.read.flatMap d.deliveries)

theorem complete_step {d : ConsumerInternal} {v u : Consumer.State} {e : Consumer.Event}
    (hv : Complete d v) (h : Consumer.step d v e = some u) (he : e ≠ .pollClosed) :
    Complete d u := by
  cases Consumer.step_cases h with
  | read hended hi => exact absurd (hended.symm.trans hv.ended) (by simp)
  | returnItem hp | returnNone hp => exact absurd rfl he
  | eof hended => exact absurd (hended.symm.trans hv.ended) (by simp)
  | handOver result ht ho => cases result <;> exact ⟨hv.ended, hv.returned⟩
  | _ => exact ⟨hv.ended, hv.returned⟩

/-- A consumer that takes orderly steps is complete when it says that there is nothing more. -/
theorem complete_of_none {d : ConsumerInternal} {v : Consumer.State}
    (ha : Consumer.Accounted d v) (hq : v.closed = true → Consumer.Quiet v)
    (hp : v.polling = .received none) (hc : v.closed = true) : Complete d v :=
  ⟨(hq hc).ended, Consumer.returned_of_quiet ha hq hp hc⟩

/-- **A super stream is consumed to its end**, in every run in which the consumers of the
partitions take orderly steps: when its consumer says that there is nothing more and was not
closed, what it has returned of a partition are the deliveries that the partition's consumer makes
of all the chunks that were read from there, each as often as it was there.  The channel is found
closed only when every forwarding task has finished, and a task finishes only after its consumer
has said `Ready(None)`, which in orderly steps is after its last message (`over_step`). -/
theorem forwarding_complete (c : Fin n → ConsumerInternal) (es : List (Event n)) (s s' : State n)
    (h : run (step c) {} es = some s)
    (horderly : Steps (step c) (Each fun _ => Consumer.Orderly) {} es)
    (hpoll : step c s .pollClosed = some s') (hnone : s'.results = s.results ++ [.ready none])
    (hopen : s.closed = false) (i : Fin n) :
    (ofSource i s'.returned).Perm ((s.consumers i).read.flatMap (c i).deliveries) := by
  obtain ⟨hp, hreturned⟩ := received_of_none hpoll hnone hopen
  have hs := exhausted_run h hp
  rw [hreturned, hs.returned (fanin_run h) hp i]
  have hinv := run_invariant_steps
    (P := fun s => (∀ i, Consumer.Accounted (c i) (s.consumers i) ∧
        ((s.consumers i).closed = true → Consumer.Quiet (s.consumers i))) ∧
      ∀ i, (s.forwarders i).over → Complete (c i) (s.consumers i))
    (fun s e s' hC hP he => ⟨?_, ?_⟩) horderly ⟨fun i => ?_, fun i hi => ?_⟩ h
  · exact (hinv.2 i (Or.inr (hs.finished i))).returned
  · exact each_step (P := fun i v => Consumer.Accounted (c i) v ∧
        (v.closed = true → Consumer.Quiet v))
      (fun i v e u hC hv hu => ⟨Consumer.accounted_step hv.1 hu, Consumer.quiet_step hC hv.2 hu⟩)
      hC hP.1 he
  · exact over_step (P := fun i => Complete (c i))
      (fun i hp hc =>
        have hall := complete_of_none (hP.1 i).1 (hP.1 i).2 hp hc
        ⟨hall.ended, hall.returned⟩)
      (fun i e u hv hu hne => complete_step hv hu hne) hP.2 he
  · exact ⟨⟨fun _ => rfl, fun _ => rfl⟩, fun hc => absurd hc (by simp [Consumer.init])⟩
  · rcases hi with hi | hi <;> cases hi

theorem forwarding_complete_both : ∃ s s', run (step invoices) {} bothForwarded = some s ∧
    step invoices s .pollClosed = some s' ∧ (s.consumers 1).read.length = 1 ∧
    (ofSource 1 s'.returned).Perm ((s.consumers 1).read.flatMap (invoices 1).deliveries) :=
  ⟨_, _, rfl, rfl, rfl,
    forwarding_complete invoices bothForwarded _ _ rfl (by decide +kernel) rfl rfl rfl 1⟩

end RabbitMqStream.SuperStream.Forwarding
