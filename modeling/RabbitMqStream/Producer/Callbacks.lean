/-
# Callbacks, whatever happens

`Confirmation` follows the waiters of a producer whose ids are all different and whose broker
answers what was published, once.  Here nothing is asked: messages may bring ids that others have,
and the broker may confirm what it never got, or twice, or never.

* `slots_step`: every step of a producer is a step of the slots, or they do not see it.
* `callbacks_conserved`: each waiter is in the map, being called, called or replaced; none is called
  more often than it was registered, and no more calls are made for an answer than have come.

**The argument.**  The effects of a step are those of `Confirmation`, so nothing new has to be said
about tasks.  They are read as steps of the slots of `Lts/Slots.lean`, which has no conditions: an
id that comes back replaces a waiter, and an answer to nobody is lost.  The four parts of
`callbacks_conserved` are what the slots' invariant says of places and counts, carried over to
tasks and callbacks.
-/
import Mathlib.Data.List.Perm.Subperm
import RabbitMqStream.Lts.Slots
import RabbitMqStream.Producer.Confirmation

namespace RabbitMqStream.Producer

open Lts Protocol

/-- The waiters of a producer. -/
def State.slots (s : State) : Slots UInt64 ProducerMessageWaiter Answer where
  registered := s.shared.registrations
  slot := s.shared.waitingConfirmations
  answered := s.shared.answered
  todo := gather Task.todo s.tasks
  inCall := gather Task.inCall s.tasks
  called := s.shared.invocations.map fun i => (i.2.answer, ⟨i.1, i.2.message⟩)

section Refinement

variable {s : State} {t : ℕ} {τ : Task}

theorem slots_same {sh : Shared} {τ' : Task} (ht : s.tasks[t]? = some τ)
    (hregistrations : sh.registrations = s.shared.registrations)
    (hwaiting : sh.waitingConfirmations = s.shared.waitingConfirmations)
    (hanswered : sh.answered = s.shared.answered)
    (hinvocations : sh.invocations = s.shared.invocations) (htodo : τ'.todo = τ.todo)
    (hcall : τ'.inCall = τ.inCall) : State.slots ⟨sh, s.tasks.set t τ'⟩ = s.slots := by
  simp only [State.slots, hregistrations, hwaiting, hanswered, hinvocations,
    gather_set_eq _ ht htodo, gather_set_eq _ ht hcall]

/-- The same effects as for the ledger.  Drawing is not seen here, and an answer that finds nobody
is a step, where for the ledger it is not. -/
theorem slots_effect {sh : Shared} {τ' : Task} (ht : s.tasks[t]? = some τ)
    (he : Effect s.shared τ sh τ') :
    State.slots ⟨sh, s.tasks.set t τ'⟩ = s.slots ∨
      Slots.Step Answer.publishingId s.slots (State.slots ⟨sh, s.tasks.set t τ'⟩) := by
  cases he with
  | quiet hq =>
    exact Or.inl (slots_same ht hq.registrations hq.waiting hq.answered hq.invocations hq.todo
      hq.inCall)
  | draw hheld hheld' htodo hcall hcarried =>
    exact Or.inl (slots_same ht rfl rfl rfl rfl htodo hcall)
  | @register _ id w hheld hheld' htodo hcall hcarried =>
    have hstep : Slots.Step Answer.publishingId s.slots _ := .register id w
    refine Or.inr ?_
    simp only [State.slots, Shared.register, gather_set_eq _ ht htodo, gather_set_eq _ ht hcall]
    exact hstep
  | @take a w answers hτ hw =>
    subst hτ
    have htodo : s.slots.todo =
        a ::ₘ gather Task.todo (s.tasks.set t (.callback a w answers)) :=
      gather_set_give Task.todo ht rfl
    have hcall : gather Task.inCall (s.tasks.set t (.callback a w answers)) =
        (a, w) ::ₘ gather Task.inCall s.tasks :=
      gather_set_take Task.inCall ht rfl
    have hstep : Slots.Step Answer.publishingId s.slots _ := .take htodo hw
    refine Or.inr ?_
    simp only [State.slots, hcall]
    exact hstep
  | @miss a answers hτ hw =>
    subst hτ
    have hle : gather Task.todo (s.tasks.set t .panicked) ≤ gather Task.todo s.tasks :=
      gather_set_le Task.todo ht (Multiset.zero_le _)
    have hstep : Slots.Step Answer.publishingId s.slots _ := .lose hle
    have hcall : gather Task.inCall (s.tasks.set t .panicked) = _ := gather_set_eq _ ht rfl
    refine Or.inr ?_
    simp only [State.slots, hcall]
    exact hstep
  | @call a w answers hτ =>
    subst hτ
    have hcall : s.slots.inCall =
        (a, w) ::ₘ gather Task.inCall (s.tasks.set t (.handle answers)) :=
      gather_set_give Task.inCall ht rfl
    have hstep : Slots.Step Answer.publishingId s.slots _ := .call hcall
    have htodo : gather Task.todo (s.tasks.set t (.handle answers)) = _ :=
      gather_set_eq _ ht rfl
    refine Or.inr ?_
    simp only [State.slots, htodo, List.map_append, List.map_cons, List.map_nil, answer_status,
      status_message]
    exact hstep

/-- A task that has no answers is begun. -/
theorem slots_spawn (s : State) {τ : Task} (htodo : τ.todo = 0) (hcall : τ.inCall = 0) :
    (s.spawn τ).slots = s.slots := by
  simp only [State.slots, State.spawn, gather_snoc, htodo, hcall, add_zero]

theorem slots_receive (s : State) (answers : List Answer) :
    Slots.Step Answer.publishingId s.slots (s.receive answers).slots := by
  have hstep : Slots.Step Answer.publishingId s.slots _ := .answer answers
  simp only [State.slots, State.receive, gather_snoc, Task.todo, Task.inCall, add_zero]
  exact hstep

/-- **The waiters of a producer are waiters in slots**, whatever ids the messages have and whatever
the broker says. -/
theorem slots_step {cfg : Config} {s' : State} {e : Event} (h : step cfg s e = some s') :
    s'.slots = s.slots ∨ Slots.Step Answer.publishingId s.slots s'.slots := by
  cases e with
  | send cb m | batchSend cb ms | close =>
    cases h
    exact Or.inl (slots_spawn s rfl rfl)
  | confirm ids | error errs =>
    cases h
    exact Or.inr (slots_receive s _)
  | move t =>
    obtain ⟨τ, sh, τ', ht, hmove, rfl⟩ := step_move h
    rcases move_split hmove with ⟨m, hc⟩ | ⟨he, -⟩
    · obtain ⟨hwait, -, -⟩ := draw_frame s.shared m
      obtain ⟨hreg, hinv⟩ := draw_records s.shared m
      rw [hc.shared]
      exact Or.inl (slots_same ht hreg hwait (draw_answered s.shared m) hinv hc.todo hc.inCall)
    · exact slots_effect ht he
  | publish t result =>
    obtain ⟨owner, messages, ht, rfl⟩ := step_publish h
    obtain ⟨hwait, hinv⟩ := write_waiters result s.shared (cfg.frame messages)
    obtain ⟨-, -, hreg, -⟩ := write_frame result s.shared (cfg.frame messages)
    have hanswered : (result.write s.shared (cfg.frame messages)).answered = s.shared.answered := by
      cases result <;> rfl
    exact Or.inl (slots_same ht hreg hwait hanswered hinv (owner.finish_todo _)
      (owner.finish_inCall _))

end Refinement

/-- A status says what the answer said. -/
def Told (s : State) : Prop :=
  ∀ i ∈ s.shared.invocations, i.2 = i.2.answer.status i.2.message

theorem told_step {cfg : Config} {s s' : State} {e : Event} (ht : Told s)
    (h : step cfg s e = some s') : Told s' := by
  have hsame : s'.shared.invocations = s.shared.invocations → Told s' := by
    intro heq
    rw [Told, heq]
    exact ht
  cases e with
  | send cb m | batchSend cb ms | close | confirm ids | error errs =>
    cases h
    exact ht
  | publish t result =>
    obtain ⟨owner, messages, -, rfl⟩ := step_publish h
    exact hsame (write_waiters result s.shared (cfg.frame messages)).2
  | move t =>
    obtain ⟨τ, sh, τ', -, hmove, rfl⟩ := step_move h
    cases hmove with
    | @call a w answers =>
      intro i hi
      rcases List.mem_append.mp hi with hi | hi
      · exact ht i hi
      · rw [List.mem_singleton.mp hi, answer_status, status_message]
    | sendDraw | batchDraw => exact hsame (draw_records s.shared _).2
    | _ => exact ht

/-- What is kept in any run. -/
theorem slots_run {cfg : Config} {first : UInt64} {es : List Event} {s : State}
    (h : run (step cfg) (init first) es = some s) :
    Slots.Inv Answer.publishingId s.slots ∧ Told s := by
  refine run_invariant (P := fun u => Slots.Inv Answer.publishingId u.slots ∧ Told u)
    (fun u e u' hi hs => ⟨?_, told_step hi.2 hs⟩) ⟨Slots.inv_empty, by simp [Told, init]⟩ h
  rcases slots_step hs with heq | hstep
  · exact heq ▸ hi.1
  · exact hi.1.step hstep

/-- The registration that a call belongs to. -/
def registration (i : Callback × ConfirmationStatus) : UInt64 × ProducerMessageWaiter :=
  (i.2.publishingId, ⟨i.1, i.2.message⟩)

theorem entries_called (s : State) : s.slots.called.map (Slots.entry Answer.publishingId) =
    s.shared.invocations.map registration := by
  rw [State.slots, List.map_map]
  refine List.map_congr_left fun i _ => ?_
  rw [Function.comp_apply, Slots.entry, answer_publishingId, registration]

/-- **Callbacks are conserved**, in every run of a producer with any messages and any broker.  Each
waiter that was registered is in the map, being called, called, or replaced by one that was
registered under its id later.  Each call belongs to a registration of its own and to an answer of
its own, and says what the answer said.

The run is one of the slots (`slots_run`).  Where a waiter is, and the two counts, are their
invariant; that a status says what its answer said is kept step by step beside it. -/
theorem callbacks_conserved (cfg : Config) (first : UInt64) (es : List Event) (s : State)
    (h : run (step cfg) (init first) es = some s) :
    (∀ id w, (id, w) ∈ s.shared.registrations →
      s.shared.waitingConfirmations id = some w ∨
      (∃ a answers, .callback a w answers ∈ s.tasks ∧ a.publishingId = id) ∨
      (∃ i ∈ s.shared.invocations, registration i = (id, w)) ∨
      Replaced s.shared.registrations (id, w)) ∧
    (s.shared.invocations.map registration).Subperm s.shared.registrations ∧
    (s.shared.invocations.map fun i => i.2.answer).Subperm s.shared.answered ∧
    ∀ i ∈ s.shared.invocations, i.2 = i.2.answer.status i.2.message := by
  obtain ⟨hi, htold⟩ := slots_run h
  refine ⟨fun id w hreg => ?_, ?_, ?_, htold⟩
  · rcases hi.place hreg with hslot | ⟨a, rfl, hin⟩ | ⟨a, rfl, hcalled⟩ | hrep
    · exact Or.inl hslot
    · obtain ⟨τ, hτ, hmem⟩ := (mem_gather Task.inCall).mp hin
      refine Or.inr (Or.inl ?_)
      cases τ with
      | callback b v answers =>
        rw [Task.inCall, Multiset.mem_singleton] at hmem
        obtain ⟨rfl, rfl⟩ := Prod.mk.inj hmem
        exact ⟨a, answers, hτ, rfl⟩
      | _ => exact absurd hmem (Multiset.notMem_zero _)
    · refine Or.inr (Or.inr (Or.inl ?_))
      have hentry : (a.publishingId, w) ∈ s.slots.called.map (Slots.entry Answer.publishingId) :=
        List.mem_map.mpr ⟨_, hcalled, rfl⟩
      rw [entries_called] at hentry
      exact List.mem_map.mp hentry
    · exact Or.inr (Or.inr (Or.inr hrep))
  · rw [← Multiset.coe_le, ← entries_called]
    exact le_trans (Multiset.le_add_left _ _) hi.calls_le
  · have hheard := le_trans (Multiset.le_add_left _ _) hi.heard
    rw [Multiset.coe_le] at hheard
    simpa only [State.slots, List.map_map, Function.comp_def] using hheard

/-- Two messages with one id of their own: the waiter of the second replaces that of the first, and
the broker confirms the id twice. -/
def collidingSends (m : Message) : List Event :=
  [.send 1 { m with publishingId := some 7 }, .send 2 { m with publishingId := some 7 },
    .move 1, .move 1, .move 1, .move 2, .move 2, .move 2, .confirm [7], .confirm [7],
    .move 3, .move 3, .move 4]

theorem callbacks_conserved_colliding : ∃ s,
    run (step ⟨1, 100, 1, none⟩) (init 0) (collidingSends { message := {} }) = some s ∧
    s.shared.invocations.map Prod.fst = [2] ∧
    (s.shared.invocations.map registration).Subperm s.shared.registrations :=
  ⟨_, rfl, rfl, (callbacks_conserved ⟨1, 100, 1, none⟩ 0
    (collidingSends { message := {} }) _ rfl).2.1⟩

end RabbitMqStream.Producer
