/-
# Confirmations: every answer finds its callback

The producer refines the ledger of `Lts/Ledger.lean`.  The ids drawn but not registered yet,
the answers that wait in a handler task and the waiters that are just being called are spread
over the tasks; gathered they are the ledger's.  A step of a task is a step of the ledger, or
the ledger does not see it.

What the ledger asks of its steps has to be shown here: that an id is new when it is drawn,
because the sequence has not wrapped, and that only registered ids are published, because a
message is registered before it gets anywhere it can be published from.

* `step_refines`: the refinement.
* `publish_confirmation`: what holds in every run.

**The argument.** What a step of a task does to what the ledger sees is said once (`move_effect`),
and each such effect is a step of the ledger or none (`effect_refines`).  The claims about a run
are then facts of the ledger: an answer finds the waiter that was put there for it, a waiter is
called once, and with an answer to its own id.  Honesty of the broker goes in twice.  An answer to
an id that nobody has registered would find nobody, and so would a second answer to the same id;
what has been published has been registered.
-/
import RabbitMqStream.Lts.Ledger
import RabbitMqStream.Producer.Model

namespace RabbitMqStream.Producer

open Lts Protocol

/-! ## 1. What a task holds

By the place a task has come to: the id that it has drawn, the answers it has still to handle,
the waiter it is about to call, and the messages it is going to publish.  Gathered over all
tasks these are the parts of the ledger that are not in the shared state. -/

namespace Task

/-- An id that is drawn and not registered yet. -/
def held : Task → Multiset UInt64
  | .sendRegister _ _ id => {id}
  | .batchRegister _ _ id _ _ => {id}
  | _ => 0

/-- Answers that are still to be handled. -/
def todo : Task → Multiset Answer
  | .handle answers => answers
  | .callback _ _ answers => answers
  | _ => 0

/-- The waiter that is about to be called. -/
def inCall : Task → Multiset (Answer × ProducerMessageWaiter)
  | .callback a w _ => {(a, w)}
  | _ => 0

/-- Messages on their way into a frame. -/
def carried : Task → Multiset ClientMessage
  | .sendAdd msg => {msg}
  | .batchDraw _ _ wrapped => wrapped
  | .batchRegister _ _ _ _ wrapped => wrapped
  | .drain _ messages => messages
  | .release _ messages => messages
  | .publish _ messages => messages
  | _ => 0

/-- Messages that have no id yet. -/
def messages : Task → List Message
  | .sendCheck _ m => [m]
  | .sendDraw _ m => [m]
  | .batchCheck _ ms => ms
  | .batchDraw _ ms _ => ms
  | .batchRegister _ _ _ ms _ => ms
  | _ => []

end Task

namespace Owner

variable (owner : Owner) (ok : Bool)

@[simp] theorem finish_held : (owner.finish ok).held = 0 := by cases owner <;> rfl

@[simp] theorem finish_todo : (owner.finish ok).todo = 0 := by cases owner <;> rfl

@[simp] theorem finish_inCall : (owner.finish ok).inCall = 0 := by cases owner <;> rfl

@[simp] theorem finish_carried : (owner.finish ok).carried = 0 := by cases owner <;> rfl

end Owner

/-- The answer a status was made from. -/
def ConfirmationStatus.answer (st : ConfirmationStatus) : Answer :=
  if st.confirmed then .confirm st.publishingId else .error st.publishingId st.status

theorem answer_status (a : Answer) (msg : Message) : (a.status msg).answer = a := by
  cases a <;> rfl

/-- The ids that a frame publishes. -/
def Outgoing.publishedIds : Outgoing → List UInt64
  | .publish cmd => cmd.publishedMessages.map PublishedMessage.publishingId
  | .deletePublisher _ => []

/-- The ids that have been written in a `Publish` frame. -/
def Shared.publishedIds (s : Shared) : List UInt64 := s.wire.flatMap Outgoing.publishedIds

/-- The ledger of a producer. -/
def State.ledger (s : State) : Ledger UInt64 ProducerMessageWaiter Answer where
  held := gather Task.held s.tasks
  registered := s.shared.registrations
  waiting := s.shared.waitingConfirmations
  published := { id | id ∈ s.shared.publishedIds }
  answered := s.shared.answered
  todo := gather Task.todo s.tasks
  inCall := gather Task.inCall s.tasks
  called := s.shared.invocations.map fun i => (i.2.answer, ⟨i.1, i.2.message⟩)

/-! ## 2. What a step of a task does

Most operations touch nothing that the ledger sees, whichever call they belong to.  The others
are the few kinds of `Effect`, and it is the effects and not the operations that the refinement
and the invariants go through. -/

/-- A step that the ledger does not see. -/
structure Quiet (s s' : Shared) (τ τ' : Task) : Prop where
  sequence : s'.publishSequence = s.publishSequence
  drawn : s'.drawn = s.drawn
  waiting : s'.waitingConfirmations = s.waitingConfirmations
  registrations : s'.registrations = s.registrations
  answered : s'.answered = s.answered
  invocations : s'.invocations = s.invocations
  published : s'.publishedIds = s.publishedIds
  held : τ'.held = τ.held
  todo : τ'.todo = τ.todo
  inCall : τ'.inCall = τ.inCall
  carried : ∀ msg, msg ∈ τ'.carried ∨ msg ∈ s'.queue → msg ∈ τ.carried ∨ msg ∈ s.queue

/-- What a step of a task does, of what the ledger sees.  An explicit id takes no step of its
own, so it is left out. -/
inductive Effect (s : Shared) (τ : Task) : Shared → Task → Prop where
  | quiet {s' : Shared} {τ' : Task} (h : Quiet s s' τ τ') : Effect s τ s' τ'
  | draw {τ' : Task} (hheld : τ.held = 0) (hheld' : τ'.held = {s.publishSequence})
      (htodo : τ'.todo = τ.todo) (hcall : τ'.inCall = τ.inCall)
      (hcarried : τ'.carried = τ.carried) :
      Effect s τ { s with
        publishSequence := s.publishSequence + 1
        drawn := s.drawn + 1 } τ'
  | register {τ' : Task} {id : UInt64} {w : ProducerMessageWaiter} (hheld : τ.held = {id})
      (hheld' : τ'.held = 0) (htodo : τ'.todo = τ.todo) (hcall : τ'.inCall = τ.inCall)
      (hcarried : ∀ msg ∈ τ'.carried, msg ∈ τ.carried ∨ msg.publishingId = id) :
      Effect s τ (s.register id w) τ'
  | take {a : Answer} {w : ProducerMessageWaiter} {answers : List Answer}
      (hτ : τ = .handle (a :: answers))
      (hw : s.waitingConfirmations a.publishingId = some w) :
      Effect s τ { s with
        waitingConfirmations := Function.update s.waitingConfirmations a.publishingId none }
        (.callback a w answers)
  | miss {a : Answer} {answers : List Answer} (hτ : τ = .handle (a :: answers))
      (hw : s.waitingConfirmations a.publishingId = none) : Effect s τ s .panicked
  | call {a : Answer} {w : ProducerMessageWaiter} {answers : List Answer}
      (hτ : τ = .callback a w answers) :
      Effect s τ { s with invocations := s.invocations ++ [(w.cb, a.status w.msg)] }
        (.handle answers)

/-- A step that leaves the shared state as it is and moves nothing. -/
theorem quiet_of_task (s : Shared) {τ τ' : Task} (hheld : τ'.held = τ.held)
    (htodo : τ'.todo = τ.todo) (hcall : τ'.inCall = τ.inCall)
    (hcarried : τ'.carried = τ.carried) : Quiet s s τ τ' :=
  ⟨rfl, rfl, rfl, rfl, rfl, rfl, rfl, hheld, htodo, hcall, by rw [hcarried]; exact fun _ => id⟩

theorem wrap_publishingId (cfg : Config) (id : UInt64) (m : Message) :
    (cfg.wrap id m).publishingId = id := by
  unfold Config.wrap
  split <;> rfl

theorem draw_answered (s : Shared) (m : Message) : (s.draw m).1.answered = s.answered := by
  unfold Shared.draw
  split <;> rfl

theorem draw_of_none (s : Shared) {m : Message} (h : m.publishingId = none) :
    s.draw m = ({ s with publishSequence := s.publishSequence + 1, drawn := s.drawn + 1 },
      s.publishSequence) := by
  rw [Shared.draw, h]

/-- The step chooses the id of a message. -/
structure Chooses (s : Shared) (τ : Task) (s' : Shared) (τ' : Task) (m : Message) : Prop where
  shared : s' = (s.draw m).1
  mem : m ∈ τ.messages
  held : τ.held = 0
  held' : τ'.held = {(s.draw m).2}
  todo : τ'.todo = τ.todo
  inCall : τ'.inCall = τ.inCall
  carried : τ'.carried = τ.carried

/-- A step chooses an id, whichever, or it has an effect and draws nothing.  By cases on the
operation.  Most are quiet; two choose an id, two register, and a handler takes, misses or calls a
waiter. -/
theorem move_split {cfg : Config} {s s' : Shared} {τ τ' : Task} (h : Move cfg s τ s' τ') :
    (∃ m, Chooses s τ s' τ' m) ∨ Effect s τ s' τ' ∧ s'.drawn = s.drawn := by
  cases h with
  | sendRefused | sendAllowed | batchRefused | batchAllowed | batchDone | drained | tick | handled
  | closeRefused => exact Or.inr ⟨.quiet (quiet_of_task s rfl rfl rfl rfl), rfl⟩
  | @sendDraw cb m => exact Or.inl ⟨m, rfl, by simp [Task.messages], rfl, rfl, rfl, rfl, rfl⟩
  | @batchDraw cb m ms wrapped =>
    exact Or.inl ⟨m, rfl, by simp [Task.messages], rfl, rfl, rfl, rfl, rfl⟩
  | sendRegister =>
    refine Or.inr ⟨.register rfl rfl rfl rfl fun msg hmsg => ?_, rfl⟩
    rw [Task.carried, Multiset.mem_singleton] at hmsg
    exact Or.inr (by rw [hmsg, wrap_publishingId])
  | batchRegister =>
    refine Or.inr ⟨.register rfl rfl rfl rfl fun msg hmsg => ?_, rfl⟩
    rw [Task.carried, Multiset.mem_coe, List.mem_append, List.mem_singleton] at hmsg
    exact hmsg.imp Multiset.mem_coe.mpr fun heq => by rw [heq, wrap_publishingId]
  | sendAdd =>
    refine Or.inr ⟨.quiet ⟨rfl, rfl, rfl, rfl, rfl, rfl, rfl, rfl, rfl, rfl, fun m hm => ?_⟩, rfl⟩
    simpa [Task.carried, or_comm] using hm
  | pop hlt hq =>
    refine Or.inr ⟨.quiet ⟨rfl, rfl, rfl, rfl, rfl, rfl, rfl, rfl, rfl, rfl, fun m hm => ?_⟩, rfl⟩
    simpa [Task.carried, hq, or_assoc] using hm
  | sendFull | sendDone | lock | release | closeFlag =>
    exact Or.inr
      ⟨.quiet ⟨rfl, rfl, rfl, rfl, rfl, rfl, rfl, rfl, rfl, rfl, fun _ => id⟩, rfl⟩
  | @releaseNone owner =>
    refine Or.inr ⟨.quiet ⟨rfl, rfl, rfl, rfl, rfl, rfl, rfl, owner.finish_held true,
      owner.finish_todo true, owner.finish_inCall true, ?_⟩, rfl⟩
    rw [owner.finish_carried true]
    exact fun _ => id
  | take hw => exact Or.inr ⟨.take rfl hw, rfl⟩
  | miss hw => exact Or.inr ⟨.miss rfl hw, rfl⟩
  | call => exact Or.inr ⟨.call rfl, rfl⟩
  | deletePublisher =>
    refine Or.inr ⟨.quiet ⟨rfl, rfl, rfl, rfl, rfl, rfl, ?_, rfl, rfl, rfl, fun _ => id⟩, rfl⟩
    simp [Shared.publishedIds, Outgoing.publishedIds]

theorem move_effect {cfg : Config} {s s' : Shared} {τ τ' : Task}
    (hnone : ∀ m ∈ τ.messages, m.publishingId = none)
    (h : Move cfg s τ s' τ') : Effect s τ s' τ' := by
  rcases move_split h with ⟨m, hc⟩ | ⟨he, -⟩
  · have hdraw := draw_of_none s (hnone m hc.mem)
    have hheld' := hc.held'
    rw [hc.shared, hdraw]
    rw [hdraw] at hheld'
    exact .draw hc.held hheld' hc.todo hc.inCall hc.carried
  · exact he

/-! ## 3. Ids are new, and registered before they are published -/

/-- No call holds a message with an id of its own. -/
def NoExplicitIds (s : State) : Prop :=
  ∀ τ ∈ s.tasks, ∀ m ∈ τ.messages, m.publishingId = none

/-- A message on its way into a frame has been registered. -/
def Carried (s : State) : Prop :=
  ∀ msg, msg ∈ gather Task.carried s.tasks ∨ msg ∈ s.shared.queue →
    msg.publishingId ∈ s.ledger.ids

structure Inv (first : UInt64) (s : State) : Prop where
  /-- The sequence is the number of ids drawn, from the first one on and wrapped. -/
  sequence : s.shared.publishSequence = first + UInt64.ofNat s.shared.drawn
  drawn : ∀ id, id ∈ s.ledger.held ∨ id ∈ s.ledger.ids →
    ∃ k < s.shared.drawn, id = first + UInt64.ofNat k
  carried : ∀ msg, msg ∈ gather Task.carried s.tasks ∨ msg ∈ s.shared.queue →
    msg.publishingId ∈ s.ledger.ids

/-- Before the sequence wraps, the id it gives is not one it has given. -/
theorem sequence_fresh {first : UInt64} {s : State} (hi : Inv first s)
    (hlt : s.shared.drawn < 2 ^ 64) :
    s.shared.publishSequence ∉ s.ledger.held ∧ s.shared.publishSequence ∉ s.ledger.ids := by
  have hnew : ¬ ∃ k < s.shared.drawn, s.shared.publishSequence = first + UInt64.ofNat k := by
    rintro ⟨k, hk, heq⟩
    rw [hi.sequence] at heq
    have hnat := congrArg UInt64.toNat (UInt64.add_right_inj first |>.mp heq)
    rw [UInt64.toNat_ofNat', UInt64.toNat_ofNat', Nat.mod_eq_of_lt hlt,
      Nat.mod_eq_of_lt (by omega)] at hnat
    omega
  exact ⟨fun h => hnew (hi.drawn _ (Or.inl h)), fun h => hnew (hi.drawn _ (Or.inr h))⟩

/-! ## 4. The refinement

A task that moves changes what is gathered by what it held before and holds now; for each effect
that is the change of one step of the ledger.  Two versions are stated, as ids may be new for
two reasons: the sequence has not wrapped, or the callers have chosen different ones. -/

section Refinement

variable {first : UInt64} {s : State} {t : ℕ} {τ : Task}

theorem ledger_quiet {sh : Shared} {τ' : Task} (ht : s.tasks[t]? = some τ)
    (hq : Quiet s.shared sh τ τ') : State.ledger ⟨sh, s.tasks.set t τ'⟩ = s.ledger := by
  simp only [State.ledger, hq.registrations, hq.waiting, hq.published, hq.answered,
    hq.invocations, gather_set_eq _ ht hq.held, gather_set_eq _ ht hq.todo,
    gather_set_eq _ ht hq.inCall]

theorem status_message (a : Answer) (msg : Message) : (a.status msg).message = msg := by
  cases a <;> rfl

/-- The choice of an id that is new is a step of the ledger. -/
theorem chooses_refines {sh : Shared} {τ' : Task} {m : Message} (ht : s.tasks[t]? = some τ)
    (hc : Chooses s.shared τ sh τ' m) (hnew : (s.shared.draw m).2 ∉ s.ledger.held)
    (hnew' : (s.shared.draw m).2 ∉ s.ledger.ids) :
    Ledger.Step Answer.publishingId s.ledger (State.ledger ⟨sh, s.tasks.set t τ'⟩) := by
  have hstep : Ledger.Step Answer.publishingId s.ledger _ := .draw _ hnew hnew'
  have hgather : gather Task.held (s.tasks.set t τ') = _ :=
    gather_set_take Task.held ht (by rw [hc.held', hc.held, Multiset.cons_zero])
  obtain ⟨hwait, -, hwire⟩ := draw_frame s.shared m
  obtain ⟨hreg, hinv⟩ := draw_records s.shared m
  simp only [State.ledger, hc.shared, hgather, gather_set_eq _ ht hc.todo,
    gather_set_eq _ ht hc.inCall, Shared.publishedIds, hwait, hwire, hreg, hinv,
    draw_answered s.shared m]
  exact hstep

/-- Any other step of a task is a step of the ledger, or the ledger does not see it, or an answer
finds no waiter.  By cases on the effect: each of them is the step of the ledger with its name, and
the one that finds no waiter is the last alternative. -/
theorem effect_refines {sh : Shared} {τ' : Task} (ht : s.tasks[t]? = some τ)
    (hdrawn : sh.drawn = s.shared.drawn) (he : Effect s.shared τ sh τ') :
    State.ledger ⟨sh, s.tasks.set t τ'⟩ = s.ledger ∨
      Ledger.Step Answer.publishingId s.ledger (State.ledger ⟨sh, s.tasks.set t τ'⟩) ∨
      ∃ a ∈ s.ledger.todo, s.ledger.waiting a.publishingId = none := by
  cases he with
  | quiet hq => exact Or.inl (ledger_quiet ht hq)
  | draw hheld hheld' htodo hcall hcarried => exact absurd hdrawn (Nat.succ_ne_self _)
  | register hheld hheld' htodo hcall hcarried =>
    rename_i id w
    have hgather : s.ledger.held = id ::ₘ gather Task.held (s.tasks.set t τ') :=
      gather_set_give Task.held ht (by rw [hheld, hheld', Multiset.cons_zero])
    have hstep : Ledger.Step Answer.publishingId s.ledger _ := .register (w := w) hgather
    refine Or.inr (Or.inl ?_)
    simp only [State.ledger, Shared.register, gather_set_eq _ ht htodo,
      gather_set_eq _ ht hcall]
    exact hstep
  | take hτ hw =>
    rename_i a w answers
    subst hτ
    have htodo : s.ledger.todo =
        a ::ₘ gather Task.todo (s.tasks.set t (.callback a w answers)) :=
      gather_set_give Task.todo ht rfl
    have hcall : gather Task.inCall (s.tasks.set t (.callback a w answers)) =
        (a, w) ::ₘ gather Task.inCall s.tasks :=
      gather_set_take Task.inCall ht rfl
    have hstep : Ledger.Step Answer.publishingId s.ledger _ := .take htodo hw
    refine Or.inr (Or.inl ?_)
    have hheld : gather Task.held (s.tasks.set t (.callback a w answers)) = _ :=
      gather_set_eq _ ht rfl
    simp only [State.ledger, hheld, hcall]
    exact hstep
  | miss hτ hw =>
    rename_i a answers
    subst hτ
    refine Or.inr (Or.inr ⟨a, mem_gather_of_getElem? _ ht ?_, hw⟩)
    simp [Task.todo]
  | call hτ =>
    rename_i a w answers
    subst hτ
    have hcall : s.ledger.inCall =
        (a, w) ::ₘ gather Task.inCall (s.tasks.set t (.handle answers)) :=
      gather_set_give Task.inCall ht rfl
    have hstep : Ledger.Step Answer.publishingId s.ledger _ := .call hcall
    refine Or.inr (Or.inl ?_)
    have hheld : gather Task.held (s.tasks.set t (.handle answers)) = _ :=
      gather_set_eq _ ht rfl
    have htodo : gather Task.todo (s.tasks.set t (.handle answers)) = _ :=
      gather_set_eq _ ht rfl
    simp only [State.ledger, hheld, htodo, List.map_append, List.map_cons, List.map_nil,
      answer_status, status_message]
    exact hstep

/-- A task that holds nothing is begun. -/
theorem ledger_spawn (s : State) {τ : Task} (hheld : τ.held = 0) (htodo : τ.todo = 0)
    (hcall : τ.inCall = 0) : (s.spawn τ).ledger = s.ledger := by
  simp only [State.ledger, State.spawn, gather_snoc, hheld, htodo, hcall, add_zero]

theorem receive_refines (s : State) (answers : List Answer) :
    Ledger.Step Answer.publishingId s.ledger (s.receive answers).ledger := by
  have hstep : Ledger.Step Answer.publishingId s.ledger _ := .answer answers
  simp only [State.ledger, State.receive, gather_snoc, Task.held, Task.todo, Task.inCall,
    add_zero]
  exact hstep

/-- What a frame adds to the published ids. -/
theorem publishedIds_write {cfg : Config} {sh : Shared} {messages : List ClientMessage}
    {result : PublishResult} (hresult : result ≠ .failed) :
    (result.write sh (cfg.frame messages)).publishedIds =
      sh.publishedIds ++ messages.map ClientMessage.publishingId := by
  have hframe : (Outgoing.publish (cfg.frame messages)).publishedIds =
      messages.map ClientMessage.publishingId := by
    simp [Outgoing.publishedIds, Config.frame, ClientMessage.toPublished]
  cases result with
  | ok | failedWritten =>
    simp only [PublishResult.write, Shared.publishedIds, List.flatMap_append,
      List.flatMap_cons, List.flatMap_nil, List.append_nil, hframe]
  | failed => exact absurd rfl hresult

/-- A frame that was written publishes ids that are carried, and these have been registered.  A
frame that was not written is not seen. -/
theorem publish_refines {cfg : Config} {owner : Owner} {messages : List ClientMessage}
    {result : PublishResult} (hc : Carried s)
    (ht : s.tasks[t]? = some (.publish owner messages)) :
    State.ledger ⟨result.write s.shared (cfg.frame messages),
        s.tasks.set t (owner.finish (result = .ok))⟩ = s.ledger ∨
      Ledger.Step Answer.publishingId s.ledger
        (State.ledger ⟨result.write s.shared (cfg.frame messages),
          s.tasks.set t (owner.finish (result = .ok))⟩) := by
  have hheld := gather_set_eq Task.held ht (owner.finish_held (result = .ok))
  have htodo := gather_set_eq Task.todo ht (owner.finish_todo (result = .ok))
  have hcall := gather_set_eq Task.inCall ht (owner.finish_inCall (result = .ok))
  by_cases hresult : result = .failed
  · subst hresult
    refine Or.inl ?_
    simp only [State.ledger, PublishResult.write, hheld, htodo, hcall]
  · have hcarried : ∀ id ∈ { id | id ∈ messages.map ClientMessage.publishingId },
        id ∈ s.ledger.ids := by
      intro id hid
      obtain ⟨m, hm, rfl⟩ := List.mem_map.mp hid
      refine hc m (Or.inl (mem_gather_of_getElem? _ ht ?_))
      simpa [Task.carried] using hm
    have hstep : Ledger.Step Answer.publishingId s.ledger _ := .publish hcarried
    have hpub : ({ id | id ∈ (result.write s.shared (cfg.frame messages)).publishedIds } :
        Set UInt64) =
          s.ledger.published ∪ { id | id ∈ messages.map ClientMessage.publishingId } := by
      rw [publishedIds_write hresult]
      ext id
      simp [State.ledger]
    refine Or.inr ?_
    rw [← hpub] at hstep
    simp only [State.ledger, hheld, htodo, hcall]
    cases result with
    | ok | failedWritten => exact hstep
    | failed => exact absurd rfl hresult

/-- **The producer refines the ledger**: a step of the producer is a step of the ledger, or the
ledger does not see it, or an answer finds no waiter.  An id that is chosen must be a new one. -/
theorem step_refines_new {cfg : Config} {s' : State} {e : Event} (hc : Carried s)
    (hnew : ∀ t m τ τ', e = .move t → s.tasks[t]? = some τ →
      Chooses s.shared τ s'.shared τ' m → s'.tasks = s.tasks.set t τ' →
        (s.shared.draw m).2 ∉ s.ledger.held ∧ (s.shared.draw m).2 ∉ s.ledger.ids)
    (h : step cfg s e = some s') :
    s'.ledger = s.ledger ∨ Ledger.Step Answer.publishingId s.ledger s'.ledger ∨
      ∃ a ∈ s.ledger.todo, s.ledger.waiting a.publishingId = none := by
  cases e with
  | send cb m | batchSend cb ms | close =>
    cases h
    exact Or.inl (ledger_spawn s rfl rfl rfl)
  | confirm ids | error errs =>
    cases h
    exact Or.inr (Or.inl (receive_refines s _))
  | move t =>
    obtain ⟨τ, sh, τ', ht, hmove, rfl⟩ := step_move h
    rcases move_split hmove with ⟨m, hchooses⟩ | ⟨he, hdrawn⟩
    · obtain ⟨hheld, hids⟩ := hnew t m τ τ' rfl ht hchooses rfl
      exact Or.inr (Or.inl (chooses_refines ht hchooses hheld hids))
    · exact effect_refines ht hdrawn he
  | publish t result =>
    obtain ⟨owner, messages, ht, rfl⟩ := step_publish h
    exact (publish_refines hc ht).imp_right Or.inl

/-- The ids of the sequence are new as long as no message brings its own and the sequence has not
wrapped. -/
theorem step_refines {cfg : Config} {s' : State} {e : Event} (hi : Inv first s)
    (hnone : NoExplicitIds s) (hlt : s'.shared.drawn ≤ 2 ^ 64) (h : step cfg s e = some s') :
    s'.ledger = s.ledger ∨ Ledger.Step Answer.publishingId s.ledger s'.ledger ∨
      ∃ a ∈ s.ledger.todo, s.ledger.waiting a.publishingId = none := by
  refine step_refines_new hi.carried (fun t m τ τ' _ ht hc _ => ?_) h
  have hdraw := draw_of_none s.shared (hnone τ (List.mem_of_getElem? ht) m hc.mem)
  rw [hc.shared, hdraw] at hlt
  rw [hdraw]
  exact sequence_fresh hi (by simpa [Nat.succ_le_iff] using hlt)

/-- The ids that are chosen or registered are all different. -/
def Distinct (s : State) : Prop := (s.ledger.held + s.ledger.ids).Nodup

instance : DecidablePred Distinct := fun s =>
  inferInstanceAs (Decidable (s.ledger.held + s.ledger.ids).Nodup)

/-- The ids are new when they are still all different afterwards, whoever has chosen them. -/
theorem step_refines_distinct {cfg : Config} {s' : State} {e : Event} (hc : Carried s)
    (hd : Distinct s') (h : step cfg s e = some s') :
    s'.ledger = s.ledger ∨ Ledger.Step Answer.publishingId s.ledger s'.ledger ∨
      ∃ a ∈ s.ledger.todo, s.ledger.waiting a.publishingId = none := by
  refine step_refines_new hc (fun t m τ τ' _ ht hchooses htasks => ?_) h
  have hgather : s'.ledger.held = (s.shared.draw m).2 ::ₘ s.ledger.held := by
    have htake : gather Task.held (s.tasks.set t τ') = (s.shared.draw m).2 ::ₘ s.ledger.held :=
      gather_set_take Task.held ht (by rw [hchooses.held', hchooses.held, Multiset.cons_zero])
    rw [← htake, ← htasks]
    rfl
  have hids : s'.ledger.ids = s.ledger.ids := by
    show s'.shared.registrations.map Prod.fst = s.shared.registrations.map Prod.fst
    rw [hchooses.shared, (draw_records s.shared m).1]
  rw [Distinct, hgather, hids, Multiset.cons_add, Multiset.nodup_cons, Multiset.mem_add, not_or,
    Multiset.mem_coe] at hd
  exact hd.1

end Refinement

/-! ## 5. The invariant of the ids

What is carried into a frame has been registered.  An effect puts at most one message into a
task's hands or into the queue that was not there before, and it has registered that message or
taken it from where it was carried already. -/

section Carried

variable {s : State} {t : ℕ} {τ : Task}

/-- A task moves: it is enough to look at what is new in its hands and in the queue. -/
theorem carried_moved {sh : Shared} {τ' : Task} (hc : Carried s) (ht : s.tasks[t]? = some τ)
    (hids : ∀ id ∈ s.ledger.ids, id ∈ sh.registrations.map Prod.fst)
    (hcarried : ∀ msg, msg ∈ τ'.carried ∨ msg ∈ sh.queue →
      (msg ∈ τ.carried ∨ msg ∈ s.shared.queue) ∨
        msg.publishingId ∈ sh.registrations.map Prod.fst) :
    Carried ⟨sh, s.tasks.set t τ'⟩ := by
  intro msg hmsg
  have hpath : msg ∈ gather Task.carried s.tasks ∨ msg ∈ τ'.carried ∨ msg ∈ sh.queue := by
    rcases hmsg with hmsg | hmsg
    · exact (mem_gather_set ht hmsg).imp_right Or.inl
    · exact Or.inr (Or.inr hmsg)
  rcases hpath with h | h
  · exact hids _ (hc msg (Or.inl h))
  · rcases hcarried msg h with h | h
    · exact hids _ (hc msg (h.imp_left (mem_gather_of_getElem? _ ht)))
    · exact h

theorem carried_effect {sh : Shared} {τ' : Task} (hc : Carried s) (ht : s.tasks[t]? = some τ)
    (he : Effect s.shared τ sh τ') : Carried ⟨sh, s.tasks.set t τ'⟩ := by
  cases he with
  | quiet hq =>
    exact carried_moved hc ht (by rw [hq.registrations]; exact fun _ => id)
      fun msg hmsg => Or.inl (hq.carried msg hmsg)
  | draw hheld hheld' htodo hcall hcarried =>
    exact carried_moved hc ht (fun _ => id) fun msg hmsg => Or.inl (by rwa [hcarried] at hmsg)
  | register hheld hheld' htodo hcall hcarried =>
    rename_i id w
    have hids : ∀ x, x ∈ (s.shared.register id w).registrations.map Prod.fst ↔
        x ∈ s.ledger.ids ∨ x = id := by
      simp [Shared.register, Ledger.ids, State.ledger]
    refine carried_moved hc ht (fun x hx => (hids x).mpr (Or.inl hx)) fun msg hmsg => ?_
    rcases hmsg with hmsg | hmsg
    · exact (hcarried msg hmsg).imp Or.inl fun h => (hids _).mpr (Or.inr h)
    · exact Or.inl (Or.inr hmsg)
  | take hτ hw | miss hτ hw | call hτ =>
    subst hτ
    exact carried_moved hc ht (fun _ => id)
      fun msg hmsg => Or.inl (Or.inr (hmsg.resolve_left (by simp [Task.carried])))

theorem carried_chooses {sh : Shared} {τ' : Task} {m : Message} (hc : Carried s)
    (ht : s.tasks[t]? = some τ) (h : Chooses s.shared τ sh τ' m) :
    Carried ⟨sh, s.tasks.set t τ'⟩ := by
  refine carried_moved hc ht ?_ fun msg hmsg => Or.inl ?_
  · rw [h.shared, (draw_records s.shared m).1]
    exact fun _ => id
  · rwa [h.carried, h.shared, (draw_frame s.shared m).2.1] at hmsg

theorem carried_spawn {sh : Shared} (hc : Carried s) {τ : Task} (hcarried : τ.carried = 0)
    (hreg : sh.registrations = s.shared.registrations)
    (hqueue : sh.queue = s.shared.queue) : Carried ⟨sh, s.tasks ++ [τ]⟩ := by
  simp only [Carried, State.ledger, Ledger.ids, gather_snoc, hcarried, add_zero, hreg, hqueue]
  exact hc

theorem carried_publish {cfg : Config} {owner : Owner} {messages : List ClientMessage}
    {result : PublishResult} (hc : Carried s)
    (ht : s.tasks[t]? = some (.publish owner messages)) :
    Carried ⟨result.write s.shared (cfg.frame messages),
      s.tasks.set t (owner.finish (result = .ok))⟩ := by
  obtain ⟨-, -, hreg, hqueue⟩ := write_frame result s.shared (cfg.frame messages)
  refine carried_moved hc ht (by rw [hreg]; exact fun _ => id) fun msg hmsg => ?_
  rw [hqueue, Owner.finish_carried] at hmsg
  exact Or.inl (Or.inr (hmsg.resolve_left (Multiset.notMem_zero msg)))

theorem carried_step {cfg : Config} {s' : State} {e : Event} (hc : Carried s)
    (h : step cfg s e = some s') : Carried s' := by
  cases e with
  | send cb m | batchSend cb ms | close | confirm ids | error errs =>
    cases h
    exact carried_spawn hc rfl rfl rfl
  | move t =>
    obtain ⟨τ, sh, τ', ht, hmove, rfl⟩ := step_move h
    rcases move_split hmove with ⟨m, hchooses⟩ | ⟨he, -⟩
    · exact carried_chooses hc ht hchooses
    · exact carried_effect hc ht he
  | publish t result =>
    obtain ⟨owner, messages, ht, rfl⟩ := step_publish h
    exact carried_publish hc ht

end Carried

theorem inv_init (first : UInt64) : Inv first (init first) where
  sequence := by simp [init]
  drawn := by simp [init, State.ledger, Ledger.ids, Task.held]
  carried := by simp [init, Task.carried]

section Invariant

variable {first : UInt64} {s : State} {t : ℕ} {τ : Task}

/-- A task moves: it is enough to look at what is new in its hands and in the shared state. -/
theorem inv_moved {sh : Shared} {τ' : Task} (hi : Inv first s) (ht : s.tasks[t]? = some τ)
    (hseq : sh.publishSequence = first + UInt64.ofNat sh.drawn)
    (hle : s.shared.drawn ≤ sh.drawn)
    (hnew : ∀ id, id ∈ τ'.held ∨ id ∈ sh.registrations.map Prod.fst →
      id ∈ τ.held ∨ id ∈ s.ledger.ids ∨ ∃ k < sh.drawn, id = first + UInt64.ofNat k)
    (hcarried : Carried ⟨sh, s.tasks.set t τ'⟩) : Inv first ⟨sh, s.tasks.set t τ'⟩ := by
  have hold : ∀ id, id ∈ s.ledger.held ∨ id ∈ s.ledger.ids →
      ∃ k < sh.drawn, id = first + UInt64.ofNat k := by
    intro id hid
    obtain ⟨k, hk, heq⟩ := hi.drawn id hid
    exact ⟨k, by omega, heq⟩
  have hcheck : ∀ id, id ∈ τ'.held ∨ id ∈ sh.registrations.map Prod.fst →
      ∃ k < sh.drawn, id = first + UInt64.ofNat k := by
    intro id hid
    rcases hnew id hid with h | h | h
    · exact hold id (Or.inl (mem_gather_of_getElem? _ ht h))
    · exact hold id (Or.inr h)
    · exact h
  refine ⟨hseq, fun id hid => ?_, hcarried⟩
  rcases hid with hid | hid
  · rcases mem_gather_set ht hid with h | h
    · exact hold id (Or.inl h)
    · exact hcheck id (Or.inl h)
  · exact hcheck id (Or.inr hid)

/-- By cases on the effect.  The sequence and the number of ids drawn change together, and an id
that is held or registered was drawn before or is drawn now. -/
theorem inv_effect {sh : Shared} {τ' : Task} (hi : Inv first s) (ht : s.tasks[t]? = some τ)
    (he : Effect s.shared τ sh τ') : Inv first ⟨sh, s.tasks.set t τ'⟩ := by
  have hcarried' := carried_effect hi.carried ht he
  cases he with
  | quiet hq =>
    refine inv_moved hi ht (by rw [hq.sequence, hq.drawn]; exact hi.sequence)
      (by rw [hq.drawn]) (fun id hid => ?_) hcarried'
    rw [hq.held, hq.registrations] at hid
    exact hid.imp_right Or.inl
  | draw hheld hheld' htodo hcall hcarried =>
    refine inv_moved hi ht ?_ (Nat.le_succ _) (fun id hid => ?_) hcarried'
    · show s.shared.publishSequence + 1 = first + UInt64.ofNat (s.shared.drawn + 1)
      rw [hi.sequence, UInt64.ofNat_add, UInt64.add_assoc]
      rfl
    · rcases hid with hid | hid
      · rw [hheld', Multiset.mem_singleton] at hid
        exact Or.inr (Or.inr ⟨s.shared.drawn, Nat.lt_succ_self _, by rw [hid, hi.sequence]⟩)
      · exact Or.inr (Or.inl hid)
  | register hheld hheld' htodo hcall hcarried =>
    rename_i id w
    refine inv_moved hi ht hi.sequence (Nat.le_refl _) (fun x hx => ?_) hcarried'
    rcases hx with hx | hx
    · rw [hheld'] at hx
      exact absurd hx (Multiset.notMem_zero x)
    · have hids : x ∈ s.ledger.ids ∨ x = id := by
        simpa [Shared.register, Ledger.ids, State.ledger] using hx
      rcases hids with h | h
      · exact Or.inr (Or.inl h)
      · exact Or.inl (by rw [hheld, Multiset.mem_singleton]; exact h)
  | take hτ hw | miss hτ hw | call hτ =>
    subst hτ
    exact inv_moved hi ht hi.sequence (Nat.le_refl _)
      (fun id hid => Or.inr (Or.inl (hid.resolve_left (by simp [Task.held])))) hcarried'

theorem inv_spawn {sh : Shared} (hi : Inv first s) {τ : Task} (hheld : τ.held = 0)
    (hcarried : τ.carried = 0) (hseq : sh.publishSequence = s.shared.publishSequence)
    (hdrawn : sh.drawn = s.shared.drawn) (hreg : sh.registrations = s.shared.registrations)
    (hqueue : sh.queue = s.shared.queue) : Inv first ⟨sh, s.tasks ++ [τ]⟩ where
  sequence := by
    show sh.publishSequence = first + UInt64.ofNat sh.drawn
    rw [hseq, hdrawn]
    exact hi.sequence
  drawn := by
    simp only [State.ledger, Ledger.ids, gather_snoc, hheld, add_zero, hreg, hdrawn]
    exact hi.drawn
  carried := carried_spawn hi.carried hcarried hreg hqueue

theorem inv_step {cfg : Config} {s' : State} {e : Event} (hi : Inv first s)
    (hnone : NoExplicitIds s) (h : step cfg s e = some s') : Inv first s' := by
  cases e with
  | send cb m | batchSend cb ms | close | confirm ids | error errs =>
    cases h
    exact inv_spawn hi rfl rfl rfl rfl rfl rfl
  | move t =>
    obtain ⟨τ, sh, τ', ht, hmove, rfl⟩ := step_move h
    exact inv_effect hi ht (move_effect (hnone τ (List.mem_of_getElem? ht)) hmove)
  | publish t result =>
    obtain ⟨owner, messages, ht, rfl⟩ := step_publish h
    obtain ⟨hseq, hdrawn, hreg, -⟩ := write_frame result s.shared (cfg.frame messages)
    refine inv_moved hi ht (by rw [hseq, hdrawn]; exact hi.sequence) (by rw [hdrawn])
      (fun id hid => ?_) (carried_publish hi.carried ht)
    rw [hreg, Owner.finish_held] at hid
    exact Or.inr (Or.inl (hid.resolve_left (Multiset.notMem_zero id)))

end Invariant

/-! ## 6. Every run

The conditions of a run: on the sequence, on the messages and on the broker.  Under them a step
of the producer that is not one of the ledger can only be a handler that finds no waiter, and an
honest broker has given it no such answer. -/

/-- The broker answers ids that it has received in a `Publish` frame, each once. -/
structure BrokerHonest (s : State) : Prop where
  once : (s.shared.answered.map Answer.publishingId).Nodup
  published : ∀ a ∈ s.shared.answered, a.publishingId ∈ s.shared.publishedIds

/-- Fewer than `2 ^ 64` ids have been drawn before the last one, no message brings its own, and
the broker is honest. -/
def Ordinary (s : State) : Prop :=
  s.shared.drawn ≤ 2 ^ 64 ∧ NoExplicitIds s ∧ BrokerHonest s

/-- Each message has an id of its own, and the broker is honest. -/
def Orderly (s : State) : Prop := Distinct s ∧ BrokerHonest s

instance (s : State) : Decidable (BrokerHonest s) :=
  decidable_of_iff ((s.shared.answered.map Answer.publishingId).Nodup ∧
      ∀ a ∈ s.shared.answered, a.publishingId ∈ s.shared.publishedIds)
    ⟨fun h => ⟨h.1, h.2⟩, fun h => ⟨h.once, h.published⟩⟩

instance : DecidablePred Ordinary := fun s =>
  inferInstanceAs (Decidable (_ ∧ (∀ τ ∈ s.tasks, ∀ m ∈ τ.messages, m.publishingId = none) ∧ _))

theorem BrokerHonest.ledger {s : State} (h : BrokerHonest s) :
    Ledger.Honest Answer.publishingId s.ledger := ⟨h.once, h.published⟩

theorem ledger_init (first : UInt64) : (init first).ledger = Ledger.empty := by
  simp [State.ledger, init, Ledger.empty, Task.held, Task.todo, Task.inCall,
    Shared.publishedIds]

theorem finish_ne_panicked (owner : Owner) (ok : Bool) : owner.finish ok ≠ .panicked := by
  cases owner <;> simp [Owner.finish]

/-- Only an answer without a waiter makes a task panic. -/
theorem move_panicked {cfg : Config} {s s' : Shared} {τ τ' : Task} (h : Move cfg s τ s' τ')
    (hτ' : τ' = .panicked) :
    ∃ a answers, τ = .handle (a :: answers) ∧ s.waitingConfirmations a.publishingId = none := by
  cases h with
  | @miss a answers hw => exact ⟨a, answers, rfl, hw⟩
  | @releaseNone owner => exact absurd hτ' (finish_ne_panicked owner true)
  | _ => exact absurd hτ' (by simp)

theorem panicked_step {cfg : Config} {s s' : State} {e : Event} (hp : .panicked ∉ s.tasks)
    (h : step cfg s e = some s') : .panicked ∉ s'.tasks ∨
      ∃ a ∈ s.ledger.todo, s.ledger.waiting a.publishingId = none := by
  cases e with
  | send cb m | batchSend cb ms | close | confirm ids | error errs =>
    cases h
    exact Or.inl (by simpa [State.spawn, State.receive] using hp)
  | move t =>
    obtain ⟨τ, sh, τ', ht, hmove, rfl⟩ := step_move h
    by_cases hτ' : τ' = .panicked
    · obtain ⟨a, answers, rfl, hw⟩ := move_panicked hmove hτ'
      refine Or.inr ⟨a, mem_gather_of_getElem? _ ht ?_, hw⟩
      simp [Task.todo]
    · refine Or.inl fun hmem => ?_
      rcases List.mem_or_eq_of_mem_set hmem with hmem | heq
      · exact hp hmem
      · exact hτ' heq.symm
  | publish t result =>
    obtain ⟨owner, messages, ht, rfl⟩ := step_publish h
    refine Or.inl fun hmem => ?_
    rcases List.mem_or_eq_of_mem_set hmem with hmem | heq
    · exact hp hmem
    · exact finish_ne_panicked owner _ heq.symm

/-- No answer of an honest broker finds nobody. -/
theorem no_miss {s : State} (hl : Ledger.Inv Answer.publishingId s.ledger) (hb : BrokerHonest s) :
    ¬ ∃ a ∈ s.ledger.todo, s.ledger.waiting a.publishingId = none := by
  rintro ⟨a, ha, hnone⟩
  obtain ⟨w, hw, -⟩ := hl.finds_waiter hb.ledger ha
  rw [hnone] at hw
  exact absurd hw (by simp)

/-- Between ordinary states a step is a step of the ledger, or the ledger does not see it. -/
theorem ordinary_refines {cfg : Config} {first : UInt64} {s s' : State} {e : Event}
    (ho : Ordinary s) (ho' : Ordinary s') (hi : Inv first s)
    (hl : Ledger.Inv Answer.publishingId s.ledger) (h : step cfg s e = some s') :
    s'.ledger = s.ledger ∨ Ledger.Step Answer.publishingId s.ledger s'.ledger := by
  rcases step_refines hi ho.2.1 ho'.1 h with heq | hstep | hmiss
  · exact Or.inl heq
  · exact Or.inr hstep
  · exact absurd hmiss (no_miss hl ho.2.2)

/-- The same, for any ids that are all different. -/
theorem distinct_refines {cfg : Config} {s s' : State} {e : Event} (hb : BrokerHonest s)
    (hd' : Distinct s') (hc : Carried s) (hl : Ledger.Inv Answer.publishingId s.ledger)
    (h : step cfg s e = some s') :
    s'.ledger = s.ledger ∨ Ledger.Step Answer.publishingId s.ledger s'.ledger := by
  rcases step_refines_distinct hc hd' h with heq | hstep | hmiss
  · exact Or.inl heq
  · exact Or.inr hstep
  · exact absurd hmiss (no_miss hl hb)

theorem ledger_step {cfg : Config} {first : UInt64} {s s' : State} {e : Event}
    (ho : Ordinary s) (ho' : Ordinary s') (hi : Inv first s)
    (hl : Ledger.Inv Answer.publishingId s.ledger) (h : step cfg s e = some s') :
    Ledger.Inv Answer.publishingId s'.ledger := by
  rcases ordinary_refines ho ho' hi hl h with heq | hstep
  · rw [heq]
    exact hl
  · exact hl.step hstep ho'.2.2.ledger

/-- What holds in every state of an ordinary run. -/
theorem inv_run {cfg : Config} {first : UInt64} {es : List Event} {s : State}
    (h : run (step cfg) (init first) es = some s)
    (ho : Along (step cfg) Ordinary (init first) es) :
    Inv first s ∧ Ledger.Inv Answer.publishingId s.ledger ∧ .panicked ∉ s.tasks := by
  refine run_invariant_along (P := fun u => Inv first u ∧
    Ledger.Inv Answer.publishingId u.ledger ∧ .panicked ∉ u.tasks)
    (fun u e u' hu hu' hP hs => ?_) ho ⟨inv_init first, ?_, by simp [init]⟩ h
  · obtain ⟨hi, hl, hp⟩ := hP
    exact ⟨inv_step hi hu.2.1 hs, ledger_step hu hu' hi hl hs,
      (panicked_step hp hs).resolve_right (no_miss hl hu.2.2)⟩
  · rw [ledger_init]
    exact Ledger.inv_empty

theorem answer_publishingId (st : ConfirmationStatus) :
    st.answer.publishingId = st.publishingId := by
  unfold ConfirmationStatus.answer
  split <;> rfl

/-- **Every answer finds its callback**, after any run in which the ids do not run out, no
message brings its own id and the broker answers what it has received, and answers it once.

No task is in the `todo!()`, and each answer still to be handled finds a waiter.  Each id is
registered once and called back at most once.  Each call goes to the callback registered under
the id, with the message registered under it, and says "confirmed" exactly when the answer was
a confirm; otherwise it carries the code of the error.

By `inv_run` the run is one of the ledger, so the parts are read off the ledger's invariant at its
end.  That a status says "confirmed" only for a confirm needs the broker once more: it does not
answer an id in both ways. -/
theorem publish_confirmation (cfg : Config) (first : UInt64) (es : List Event) (s : State)
    (h : run (step cfg) (init first) es = some s)
    (ho : Along (step cfg) Ordinary (init first) es) :
    .panicked ∉ s.tasks ∧
    (∀ (t : ℕ) (a : Answer) (answers : List Answer),
      s.tasks[t]? = some (.handle (a :: answers)) →
      ∃ w, s.shared.waitingConfirmations a.publishingId = some w ∧
        (a.publishingId, w) ∈ s.shared.registrations) ∧
    (s.shared.registrations.map Prod.fst).Nodup ∧
    (s.shared.invocations.map fun i => i.2.publishingId).Nodup ∧
    ∀ i ∈ s.shared.invocations,
      (i.2.publishingId, ⟨i.1, i.2.message⟩) ∈ s.shared.registrations ∧
      (i.2.confirmed = true ↔ .confirm i.2.publishingId ∈ s.shared.answered) ∧
      (i.2.confirmed = false → .error i.2.publishingId i.2.status ∈ s.shared.answered) := by
  obtain ⟨-, hl, hp⟩ := inv_run h ho
  have hh : BrokerHonest s := (ho.last h).2.2
  refine ⟨hp, fun t a answers ht => ?_, hl.ids_nodup, ?_, fun i hi => ?_⟩
  · exact hl.finds_waiter hh.ledger (mem_gather_of_getElem? _ ht (by simp [Task.todo]))
  · have hcalled := hl.called_nodup hh.ledger
    simpa [State.ledger, List.map_map, Function.comp_def, answer_publishingId] using hcalled
  · have hmem : (i.2.answer, ⟨i.1, i.2.message⟩) ∈ s.ledger.called :=
      List.mem_map.mpr ⟨i, hi, rfl⟩
    have hown := hl.called_own _ _ hmem
    rw [answer_publishingId] at hown
    have hans : i.2.answer ∈ s.shared.answered :=
      hl.mem_answered (Or.inr (Or.inr (List.mem_map.mpr ⟨_, hmem, rfl⟩)))
    refine ⟨hown, ⟨fun hc => ?_, fun hc => ?_⟩, fun hc => ?_⟩
    · simpa [ConfirmationStatus.answer, hc] using hans
    · have heq : i.2.answer = .confirm i.2.publishingId :=
        List.inj_on_of_nodup_map hh.once hans hc (answer_publishingId i.2)
      by_contra hne
      simp [ConfirmationStatus.answer, hne] at heq
    · simpa [ConfirmationStatus.answer, hc] using hans

/-- One message in a batch, published, confirmed and called back. -/
def confirmedBatch (m : Message) : List Event :=
  [.batchSend 7 [m], .move 1, .move 1, .move 1, .move 1, .publish 1 .ok, .confirm [0],
    .move 2, .move 2]

/-- The rule at a batch of one message: its callback has been called once. -/
theorem publish_confirmation_batch : ∃ s,
    run (step ⟨1, 100, 1, none⟩) (init 0)
      (confirmedBatch { message := { body := { data := [[1]] } } }) = some s ∧
    s.shared.invocations.length = 1 ∧
    (s.shared.invocations.map fun i => i.2.publishingId).Nodup := by
  obtain ⟨-, -, -, h, -⟩ := publish_confirmation ⟨1, 100, 1, none⟩ 0
    (confirmedBatch { message := { body := { data := [[1]] } } }) _ rfl (by decide +kernel)
  exact ⟨_, rfl, rfl, h⟩

end RabbitMqStream.Producer
