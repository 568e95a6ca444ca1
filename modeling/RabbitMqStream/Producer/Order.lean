/-
# The order in which a named producer publishes

A producer with a name has its calls one after the other, since they borrow it mutably, and its
messages are numbered in the order of the calls.  A broker that deduplicates drops a message
whose id is not larger than the last one it has seen, so the ids have to reach it in order.

Between the number and the wire there are three ways, and the code does not keep them apart:

* `batch_send` publishes its messages at once, past those that wait in the accumulator;
* a flush first drains the accumulator and then publishes, and it holds no lock in between, so
  that the flush of the timer and the flush of a sender can change places.

`publish_order_batch_overtakes` is a run of the first kind.  The rest of the module shows that
these are all the ways there are: ids leave in order in every run in which no frame is handed
over while a smaller id still waits, as long as the sequence does not wrap
(`publish_order`).  The producer refines the pipeline of `Lts/Pipeline.lean`.

**The argument.**  A step of the producer is a step of the pipeline or one that the pipeline does
not see (`step_pipeline`), and a pipeline out of which nothing is taken while a smaller number
waits stays in order.  So the condition on the run is used at one place only, where a frame is
handed over.  The rest of what the pipeline asks for is a matter of the producer: that an id that
is drawn is larger than all that wait (`waits_lt_sequence`), which holds as long as the sequence
has not wrapped; that no more than one call has drawn an id and not put it anywhere
(`alone_step`), since the calls come one after the other; and that only registered ids are
published (`announced_step`).
-/
import Mathlib.Order.Nat
import RabbitMqStream.Lts.Pipeline
import RabbitMqStream.Producer.Confirmation

namespace RabbitMqStream.Producer

open Lts Protocol

/-! ## 1. A named producer

A task holds ids in two ways: those it is going to publish (`hand`), and the one that it has
drawn and has not put anywhere yet (`fresh`).  What waits is in the accumulator or in some hand. -/

namespace Task

/-- A call of `send` or `batch_send` that has not returned. -/
def isCall : Task → Bool
  | .sendCheck _ _ | .sendDraw _ _ | .sendRegister _ _ _ | .sendAdd _ | .sendCount => true
  | .batchCheck _ _ | .batchDraw _ _ _ | .batchRegister _ _ _ _ _ => true
  | .lock owner | .drain owner _ | .release owner _ | .publish owner _ => owner != .timer
  | _ => false

/-- The ids of the messages that a task is going to publish. -/
def hand : Task → List ℕ
  | .batchDraw _ _ wrapped | .batchRegister _ _ _ _ wrapped =>
    wrapped.map fun m => m.publishingId.toNat
  | .drain _ messages | .release _ messages | .publish _ messages =>
    messages.map fun m => m.publishingId.toNat
  | _ => []

/-- The id that a call has drawn and not put anywhere yet. -/
def fresh : Task → Option ℕ
  | .sendRegister _ _ id | .batchRegister _ _ id _ _ => some id.toNat
  | .sendAdd msg => some msg.publishingId.toNat
  | _ => none

def draining : Task → Bool
  | .drain _ _ => true
  | _ => false

end Task

/-- The calls of a producer that is borrowed mutably: a call begins when none is under way. -/
def Serial (s : State) : Event → Prop
  | .send _ _ | .batchSend _ _ => ∀ τ ∈ s.tasks, τ.isCall = false
  | _ => True

/-- No message brings its own id. -/
def Event.Unnumbered : Event → Prop
  | .send _ m => m.publishingId = none
  | .batchSend _ ms => ∀ m ∈ ms, m.publishingId = none
  | _ => True

/-- The ids that wait in the accumulator or for a task other than `t` to publish them. -/
def State.waitingIds (s : State) (t : ℕ) : List ℕ :=
  s.shared.queue.map (fun m => m.publishingId.toNat) ++ (s.tasks.eraseIdx t).flatMap Task.hand

/-- No frame is handed over while a smaller id than one in it waits. -/
def InTurn (s : State) : Event → Prop
  | .publish t result => result ≠ .failed →
    ∀ x ∈ look Task.hand [] s.tasks t, ∀ y ∈ s.waitingIds t, x < y
  | _ => True

instance (s : State) : ∀ e, Decidable (Serial s e)
  | .send _ _ | .batchSend _ _ => inferInstanceAs (Decidable (∀ τ ∈ s.tasks, τ.isCall = false))
  | .close | .confirm _ | .error _ | .move _ | .publish _ _ => inferInstanceAs (Decidable True)

instance : DecidablePred Event.Unnumbered
  | .send _ m => inferInstanceAs (Decidable (m.publishingId = none))
  | .batchSend _ ms => inferInstanceAs (Decidable (∀ m ∈ ms, m.publishingId = none))
  | .close | .confirm _ | .error _ | .move _ | .publish _ _ => inferInstanceAs (Decidable True)

instance (s : State) : ∀ e, Decidable (InTurn s e)
  | .publish t result => inferInstanceAs (Decidable (result ≠ .failed →
      ∀ x ∈ look Task.hand [] s.tasks t, ∀ y ∈ s.waitingIds t, x < y))
  | .send _ _ | .batchSend _ _ | .close | .confirm _ | .error _ | .move _ =>
    inferInstanceAs (Decidable True)

/-- The pipeline of a producer. -/
def State.pipeline (s : State) : Pipeline ℕ where
  out := s.shared.publishedIds.map UInt64.toNat
  queue := s.shared.queue.map fun m => m.publishingId.toNat
  hand := look Task.hand [] s.tasks
  fresh := look Task.fresh none s.tasks
  draining := look Task.draining false s.tasks

/-! ## 2. What moves, and what a step leaves

What the pipeline asks for beside the condition on the run: one call at a time, no ids of the
callers, and no id published that is not registered.  Each is kept by every step, and none of
them needs the order. -/

theorem isCall_of_fresh {τ : Task} {id : ℕ} (h : τ.fresh = some id) : τ.isCall = true := by
  cases τ <;> first | rfl | exact absurd h (by simp [Task.fresh])

theorem finish_isCall (owner : Owner) (ok : Bool) : (owner.finish ok).isCall = false := by
  cases owner <;> rfl

/-- Calls are not begun by moving. -/
theorem move_isCall {cfg : Config} {s s' : Shared} {τ τ' : Task} (h : Move cfg s τ s' τ')
    (hcall : τ'.isCall = true) : τ.isCall = true := by
  cases h with
  | sendRefused | sendAllowed | sendDraw | sendRegister | sendAdd | sendFull | sendDone
  | batchRefused | batchAllowed | batchDone | batchDraw | batchRegister => rfl
  | @releaseNone owner =>
    rw [finish_isCall] at hcall
    exact absurd hcall (by simp)
  | _ => exact hcall

/-- A task holds no messages that it did not hold before. -/
theorem move_messages {cfg : Config} {s s' : Shared} {τ τ' : Task} (h : Move cfg s τ s' τ') :
    ∀ m ∈ τ'.messages, m ∈ τ.messages := by
  cases h with
  | @batchDraw cb m ms wrapped => exact fun m' hm' => List.mem_cons_of_mem m hm'
  | @releaseNone owner => cases owner <;> simp [Owner.finish, Task.messages]
  | _ => simp [Task.messages]

/-- At most one call is under way. -/
def Alone (s : State) : Prop :=
  ∀ (t u : ℕ) (τ υ : Task), s.tasks[t]? = some τ → s.tasks[u]? = some υ → τ.isCall = true →
    υ.isCall = true → t = u

/-- Only registered ids are published. -/
def Announced (s : State) : Prop := ∀ id ∈ s.shared.publishedIds, id ∈ s.ledger.ids

section Steps

variable {cfg : Config} {s s' : State} {e : Event}

/-- A new task has the messages of its event, and a task that moves has no message that it did not
have. -/
theorem noExplicitIds_step (hu : e.Unnumbered) (hnone : NoExplicitIds s)
    (h : step cfg s e = some s') : NoExplicitIds s' := by
  have hspawn : ∀ (sh : Shared) (τ : Task), (∀ m ∈ τ.messages, m.publishingId = none) →
      NoExplicitIds ⟨sh, s.tasks ++ [τ]⟩ := by
    intro sh τ hτ υ hυ
    rcases List.mem_append.mp hυ with hυ | hυ
    · exact hnone υ hυ
    · rw [List.mem_singleton.mp hυ]
      exact hτ
  have hset : ∀ (sh : Shared) (t : ℕ) (τ : Task), (∀ m ∈ τ.messages, m.publishingId = none) →
      NoExplicitIds ⟨sh, s.tasks.set t τ⟩ := by
    intro sh t τ hτ υ hυ
    rcases List.mem_or_eq_of_mem_set hυ with hυ | hυ
    · exact hnone υ hυ
    · rw [hυ]
      exact hτ
  cases e with
  | send cb m =>
    cases h
    refine hspawn _ _ fun m' hm' => ?_
    rw [List.mem_singleton.mp hm']
    exact hu
  | batchSend cb ms =>
    cases h
    exact hspawn _ _ hu
  | close | confirm ids | error errs =>
    cases h
    exact hspawn _ _ (by simp [Task.messages])
  | move t =>
    obtain ⟨τ, sh, τ', ht, hmove, rfl⟩ := step_move h
    exact hset sh t τ' fun m hm =>
      hnone τ (List.mem_of_getElem? ht) m (move_messages hmove m hm)
  | publish t result =>
    obtain ⟨owner, messages, ht, rfl⟩ := step_publish h
    refine hset _ t _ ?_
    cases owner <;> simp [Owner.finish, Task.messages]

/-- A task moves: if it is a call afterwards, it was one before. -/
theorem alone_set (halone : Alone s) {sh : Shared} {t : ℕ} {τ τ' : Task}
    (ht : s.tasks[t]? = some τ) (hcall : τ'.isCall = true → τ.isCall = true) :
    Alone ⟨sh, s.tasks.set t τ'⟩ := by
  have hback : ∀ (u : ℕ) (υ : Task), (s.tasks.set t τ')[u]? = some υ → υ.isCall = true →
      ∃ υ', s.tasks[u]? = some υ' ∧ υ'.isCall = true := by
    intro u υ hu hυ
    rcases getElem?_of_set hu with ⟨rfl, rfl⟩ | ⟨-, hu⟩
    · exact ⟨τ, ht, hcall hυ⟩
    · exact ⟨υ, hu, hυ⟩
  intro u v υ ω hu hv hυ hω
  obtain ⟨υ', hu', hυ'⟩ := hback u υ hu hυ
  obtain ⟨ω', hv', hω'⟩ := hback v ω hv hω
  exact halone u v υ' ω' hu' hv' hυ' hω'

/-- A task is begun that is not a call, or there is no other. -/
theorem alone_spawn (halone : Alone s) {sh : Shared} {τ : Task}
    (hcall : τ.isCall = true → ∀ υ ∈ s.tasks, υ.isCall = false) :
    Alone ⟨sh, s.tasks ++ [τ]⟩ := by
  intro u v υ ω hu hv hυ hω
  rcases getElem?_of_snoc hu with hu' | ⟨hu', rfl⟩
  · rcases getElem?_of_snoc hv with hv' | ⟨-, rfl⟩
    · exact halone u v υ ω hu' hv' hυ hω
    · rw [hcall hω υ (List.mem_of_getElem? hu')] at hυ
      exact absurd hυ (by simp)
  · rcases getElem?_of_snoc hv with hv' | ⟨hv', -⟩
    · rw [hcall hυ ω (List.mem_of_getElem? hv')] at hω
      exact absurd hω (by simp)
    · rw [hu', hv']

theorem alone_step (hserial : Serial s e) (halone : Alone s) (h : step cfg s e = some s') :
    Alone s' := by
  cases e with
  | send cb m | batchSend cb ms =>
    cases h
    exact alone_spawn halone fun _ => hserial
  | close | confirm ids | error errs =>
    cases h
    exact alone_spawn halone fun hcall => absurd hcall (by simp [Task.isCall])
  | move t =>
    obtain ⟨τ, sh, τ', ht, hmove, rfl⟩ := step_move h
    exact alone_set halone ht (move_isCall hmove)
  | publish t result =>
    obtain ⟨owner, messages, ht, rfl⟩ := step_publish h
    refine alone_set halone ht fun hcall => ?_
    rw [finish_isCall] at hcall
    exact absurd hcall (by simp)

/-- A move publishes nothing, and a publication sends messages that its task carries, whose ids are
registered (`Inv`). -/
theorem announced_step {first : UInt64} (hi : Inv first s) (hnone : NoExplicitIds s)
    (hann : Announced s) (h : step cfg s e = some s') : Announced s' := by
  cases e with
  | send cb m | batchSend cb ms | close | confirm ids | error errs =>
    cases h
    exact hann
  | move t =>
    obtain ⟨τ, sh, τ', ht, hmove, rfl⟩ := step_move h
    cases move_effect (hnone τ (List.mem_of_getElem? ht)) hmove with
    | quiet hq =>
      intro id hid
      rw [hq.published] at hid
      show id ∈ sh.registrations.map Prod.fst
      rw [hq.registrations]
      exact hann id hid
    | register hheld hheld' htodo hcall hcarried =>
      intro id hid
      have hold : id ∈ s.shared.registrations.map Prod.fst := hann id hid
      simp only [State.ledger, Ledger.ids, Shared.register, List.map_append, List.mem_append]
      exact Or.inl hold
    | draw | take | miss | call => exact hann
  | publish t result =>
    obtain ⟨owner, messages, ht, rfl⟩ := step_publish h
    intro id hid
    show id ∈ (result.write s.shared (cfg.frame messages)).registrations.map Prod.fst
    rw [(write_frame result s.shared (cfg.frame messages)).2.2.1]
    by_cases hresult : result = .failed
    · subst hresult
      exact hann id hid
    · rw [publishedIds_write hresult] at hid
      rcases List.mem_append.mp hid with hid | hid
      · exact hann id hid
      · obtain ⟨m, hm, rfl⟩ := List.mem_map.mp hid
        refine hi.carried m (Or.inl (mem_gather_of_getElem? _ ht ?_))
        simpa [Task.carried] using hm

end Steps

/-! ## 3. The producer is a pipeline

A draw of the sequence is a draw of the pipeline.  The insertion into the channel of the
accumulator is an `enqueue`, and the registration of a batch's message a `keep`, as the id is in
the hands of the call then.  A flush drains from its lock to the end of its loop, and what it
holds is let go when its frame is handed over, or lost.  The registration in `send` and the
counter are not seen. -/

section Refinement

variable {first : UInt64} {cfg : Config} {s : State} {t : ℕ} {τ : Task}

/-- Before the sequence wraps, every id in a producer is smaller than the next one. -/
theorem toNat_lt_sequence (hi : Inv first s) (hwrap : first.toNat + s.shared.drawn < 2 ^ 64)
    {id : UInt64} (hid : id ∈ s.ledger.held ∨ id ∈ s.ledger.ids) :
    id.toNat < s.shared.publishSequence.toNat := by
  obtain ⟨k, hk, rfl⟩ := hi.drawn id hid
  rw [hi.sequence, UInt64.toNat_add, UInt64.toNat_add, UInt64.toNat_ofNat',
    UInt64.toNat_ofNat', Nat.mod_eq_of_lt (show k < 2 ^ 64 by omega),
    Nat.mod_eq_of_lt (show s.shared.drawn < 2 ^ 64 by omega), Nat.mod_eq_of_lt hwrap,
    Nat.mod_eq_of_lt (by omega)]
  omega

theorem mem_carried_of_hand {τ : Task} {x : ℕ} (h : x ∈ τ.hand) :
    ∃ m ∈ τ.carried, m.publishingId.toNat = x := by
  cases τ with
  | batchDraw | batchRegister | drain | release | publish =>
    obtain ⟨m, hm, hx⟩ := List.mem_map.mp h
    exact ⟨m, Multiset.mem_coe.mpr hm, hx⟩
  | _ => exact absurd h (by simp [Task.hand])

/-- The next id is larger than all that wait. -/
theorem waits_lt_sequence (hi : Inv first s) (hwrap : first.toNat + s.shared.drawn < 2 ^ 64)
    {x : ℕ} (hx : s.pipeline.Waits x) : x < s.shared.publishSequence.toNat := by
  rcases hx with hx | ⟨t, hx⟩
  · obtain ⟨m, hm, rfl⟩ := List.mem_map.mp hx
    exact toNat_lt_sequence hi hwrap (Or.inr (hi.carried m (Or.inr hm)))
  · cases ht : s.tasks[t]? with
    | none => exact absurd hx (by simp [State.pipeline, look, ht])
    | some τ =>
      have hlook : s.pipeline.hand t = τ.hand := look_of_getElem? ht
      rw [hlook] at hx
      obtain ⟨m, hm, rfl⟩ := mem_carried_of_hand hx
      exact toNat_lt_sequence hi hwrap
        (Or.inr (hi.carried m (Or.inl (mem_gather_of_getElem? _ ht hm))))

/-- A step that the pipeline does not see. -/
theorem pipeline_quiet {sh : Shared} {τ' : Task} (ht : s.tasks[t]? = some τ)
    (hpub : sh.publishedIds = s.shared.publishedIds) (hqueue : sh.queue = s.shared.queue)
    (hhand : τ'.hand = τ.hand) (hfresh : τ'.fresh = τ.fresh)
    (hdrain : τ'.draining = τ.draining) :
    State.pipeline ⟨sh, s.tasks.set t τ'⟩ = s.pipeline := by
  simp only [State.pipeline, hpub, hqueue, look_set_eq _ _ ht hhand, look_set_eq _ _ ht hfresh,
    look_set_eq _ _ ht hdrain]

/-- A call draws an id.  No other task holds an id between the choice and the registration, since
there is one call at a time; and the id is new, since the counter has not come round. -/
theorem pipeline_draw {τ' : Task} (hi : Inv first s) (halone : Alone s) (hann : Announced s)
    (hwrap : first.toNat + s.shared.drawn < 2 ^ 64) (ht : s.tasks[t]? = some τ)
    (hcall : τ.isCall = true) (hnot : τ.fresh = none)
    (hhand : τ'.hand = τ.hand) (hfresh : τ'.fresh = some s.shared.publishSequence.toNat)
    (hdrain : τ'.draining = τ.draining) :
    Pipeline.Step s.pipeline (State.pipeline ⟨{ s.shared with
      publishSequence := s.shared.publishSequence + 1
      drawn := s.shared.drawn + 1 }, s.tasks.set t τ'⟩) := by
  have hnone : ∀ u, s.pipeline.fresh u = none := by
    intro u
    cases hu : s.tasks[u]? with
    | none => simp [State.pipeline, look, hu]
    | some υ =>
      have hlook : s.pipeline.fresh u = υ.fresh := look_of_getElem? hu
      cases hυ : υ.fresh with
      | none => rw [hlook, hυ]
      | some id =>
        obtain rfl := halone t u τ υ ht hu hcall (isCall_of_fresh hυ)
        rw [ht, Option.some.injEq] at hu
        rw [← hu, hnot] at hυ
        exact absurd hυ (by simp)
  have hstep : Pipeline.Step s.pipeline _ :=
    .draw t hnone (fun y hy => ?_) (fun y hy => waits_lt_sequence hi hwrap hy)
  · simp only [State.pipeline, look_set_eq _ _ ht hhand, look_set_eq _ _ ht hdrain,
      look_set _ _ τ' ht, hfresh]
    exact hstep
  · obtain ⟨id, hid, rfl⟩ := List.mem_map.mp hy
    exact toNat_lt_sequence hi hwrap (Or.inr (hann id hid))

/-- **A step of a task is a step of the pipeline**, or the pipeline does not see it.  By cases on
the move: a choice is `pipeline_draw`, and each of the others that the pipeline sees is one of its
steps as it stands. -/
theorem move_pipeline {sh : Shared} {τ' : Task} (hi : Inv first s) (hnone : NoExplicitIds s)
    (halone : Alone s) (hann : Announced s) (hwrap : first.toNat + sh.drawn ≤ 2 ^ 64)
    (ht : s.tasks[t]? = some τ) (h : Move cfg s.shared τ sh τ') :
    State.pipeline ⟨sh, s.tasks.set t τ'⟩ = s.pipeline ∨
      Pipeline.Step s.pipeline (State.pipeline ⟨sh, s.tasks.set t τ'⟩) := by
  have hmsg := hnone τ (List.mem_of_getElem? ht)
  have hlook : ∀ {α : Type} (f : Task → α) (d : α), f τ' = f τ →
      look f d (s.tasks.set t τ') = look f d s.tasks := fun f d => look_set_eq f d ht
  cases h with
  | @sendDraw cb m =>
    rw [draw_of_none s.shared (hmsg m (by simp [Task.messages]))] at hwrap ⊢
    exact Or.inr (pipeline_draw hi halone hann hwrap ht rfl rfl rfl rfl rfl)
  | @batchDraw cb m ms wrapped =>
    rw [draw_of_none s.shared (hmsg m (by simp [Task.messages]))] at hwrap ⊢
    exact Or.inr (pipeline_draw hi halone hann hwrap ht rfl rfl rfl rfl rfl)
  | sendRegister =>
    refine Or.inl (pipeline_quiet ht rfl rfl rfl ?_ rfl)
    simp only [Task.fresh, wrap_publishingId]
  | @sendAdd msg hroom =>
    have hfresh : s.pipeline.fresh t = some msg.publishingId.toNat := look_of_getElem? ht
    have hstep : Pipeline.Step s.pipeline _ := .enqueue hfresh
    refine Or.inr ?_
    simp only [State.pipeline, hlook Task.hand [] rfl, hlook Task.draining false rfl,
      look_set _ _ _ ht, List.map_append, List.map_cons, List.map_nil]
    exact hstep
  | @batchRegister cb m id ms wrapped =>
    have hfresh : s.pipeline.fresh t = some id.toNat := look_of_getElem? ht
    have hhand : s.pipeline.hand t = wrapped.map fun m => m.publishingId.toNat :=
      look_of_getElem? ht
    have hnot : s.pipeline.draining t = false := look_of_getElem? ht
    have hstep : Pipeline.Step s.pipeline _ := .keep hfresh hnot
    refine Or.inr ?_
    rw [hhand] at hstep
    simp only [State.pipeline, hlook Task.draining false rfl, look_set _ _ _ ht, Task.hand,
      Task.fresh, List.map_append, List.map_cons, List.map_nil, wrap_publishingId]
    exact hstep
  | lock =>
    have hstep : Pipeline.Step s.pipeline _ := .start t (look_of_getElem? ht)
    refine Or.inr ?_
    simp only [State.pipeline, hlook Task.hand [] rfl, hlook Task.fresh none rfl,
      look_set _ _ _ ht]
    exact hstep
  | @pop owner messages msg rest hlt hq =>
    have hdrain : s.pipeline.draining t = true := look_of_getElem? ht
    have hhand : s.pipeline.hand t = messages.map fun m => m.publishingId.toNat :=
      look_of_getElem? ht
    have hqueue : s.pipeline.queue =
        msg.publishingId.toNat :: rest.map fun m => m.publishingId.toNat := by
      simp [State.pipeline, hq]
    have hstep : Pipeline.Step s.pipeline _ := .pop hdrain hqueue
    refine Or.inr ?_
    rw [hhand] at hstep
    simp only [State.pipeline, hlook Task.fresh none rfl, hlook Task.draining false rfl,
      look_set _ _ _ ht, Task.hand, List.map_append, List.map_cons, List.map_nil]
    exact hstep
  | drained =>
    have hstep : Pipeline.Step s.pipeline _ := .finish t
    refine Or.inr ?_
    simp only [State.pipeline, hlook Task.hand [] rfl, hlook Task.fresh none rfl,
      look_set _ _ _ ht]
    exact hstep
  | @releaseNone owner =>
    exact Or.inl (pipeline_quiet ht rfl rfl (by cases owner <;> rfl) (by cases owner <;> rfl)
      (by cases owner <;> rfl))
  | deletePublisher =>
    refine Or.inl (pipeline_quiet ht ?_ rfl rfl rfl rfl)
    simp [Shared.publishedIds, Outgoing.publishedIds]
  | _ => exact Or.inl (pipeline_quiet ht rfl rfl rfl rfl rfl)

/-- A call that writes nothing loses what the task has in hand.  Any other releases it, and since
the task is in turn, each id of it is below every id that waits elsewhere. -/
theorem publish_pipeline {owner : Owner} {messages : List ClientMessage} {result : PublishResult}
    (hturn : InTurn s (.publish t result))
    (ht : s.tasks[t]? = some (.publish owner messages)) :
    Pipeline.Step s.pipeline (State.pipeline ⟨result.write s.shared (cfg.frame messages),
      s.tasks.set t (owner.finish (result = .ok))⟩) := by
  have hhand : s.pipeline.hand t = messages.map fun m => m.publishingId.toNat :=
    look_of_getElem? ht
  have hnone : (owner.finish (result = .ok)).hand = [] := by cases owner <;> rfl
  have hfresh : look Task.fresh none (s.tasks.set t (owner.finish (result = .ok))) = _ :=
    look_set_eq _ _ ht (by cases owner <;> rfl)
  have hdrain : look Task.draining false (s.tasks.set t (owner.finish (result = .ok))) = _ :=
    look_set_eq _ _ ht (by cases owner <;> rfl)
  have hqueue := (write_frame result s.shared (cfg.frame messages)).2.2.2
  by_cases hresult : result = .failed
  · have hstep : Pipeline.Step s.pipeline _ := .lose t
    simp only [State.pipeline, hfresh, hdrain, hqueue, look_set _ _ _ ht, hnone]
    subst hresult
    exact hstep
  · have hbeside : ∀ x ∈ s.pipeline.hand t, ∀ y, s.pipeline.WaitsBeside t y → x < y := by
      intro x hx y hy
      refine hturn hresult x hx y (List.mem_append.mpr (hy.imp_right ?_))
      rintro ⟨u, hut, hu⟩
      cases hυ : s.tasks[u]? with
      | none => exact absurd hu (by simp [State.pipeline, look, hυ])
      | some υ =>
        have hlook : s.pipeline.hand u = υ.hand := look_of_getElem? hυ
        rw [hlook] at hu
        exact List.mem_flatMap.mpr ⟨υ, List.mem_eraseIdx_iff_getElem?.mpr ⟨u, hut, hυ⟩, hu⟩
    have hstep : Pipeline.Step s.pipeline _ := .release t hbeside
    rw [hhand] at hstep
    simp only [State.pipeline, hfresh, hdrain, hqueue, look_set _ _ _ ht, hnone,
      publishedIds_write hresult, List.map_append, List.map_map]
    exact hstep

/-- A task is begun that holds nothing. -/
theorem pipeline_spawn {sh : Shared} (hpub : sh.publishedIds = s.shared.publishedIds)
    (hqueue : sh.queue = s.shared.queue) (hhand : τ.hand = []) (hfresh : τ.fresh = none)
    (hdrain : τ.draining = false) :
    State.pipeline ⟨sh, s.tasks ++ [τ]⟩ = s.pipeline := by
  simp only [State.pipeline, hpub, hqueue, look_snoc _ _ hhand, look_snoc _ _ hfresh,
    look_snoc _ _ hdrain]

/-- **The producer refines the pipeline.** -/
theorem step_pipeline {s' : State} {e : Event} (hi : Inv first s) (hnone : NoExplicitIds s)
    (halone : Alone s) (hann : Announced s) (hturn : InTurn s e)
    (hwrap : first.toNat + s'.shared.drawn ≤ 2 ^ 64) (h : step cfg s e = some s') :
    s'.pipeline = s.pipeline ∨ Pipeline.Step s.pipeline s'.pipeline := by
  cases e with
  | send cb m | batchSend cb ms | close | confirm ids | error errs =>
    cases h
    exact Or.inl (pipeline_spawn rfl rfl rfl rfl rfl)
  | move t =>
    obtain ⟨τ, sh, τ', ht, hmove, rfl⟩ := step_move h
    exact move_pipeline hi hnone halone hann hwrap ht hmove
  | publish t result =>
    obtain ⟨owner, messages, ht, rfl⟩ := step_publish h
    exact Or.inr (publish_pipeline hturn ht)

end Refinement

/-! ## 4. Every run

The order of what has left the pipeline is the order of the ids on the wire. -/

/-- Ids are drawn and never given back. -/
theorem drawn_step {cfg : Config} {s s' : State} {e : Event} (hnone : NoExplicitIds s)
    (h : step cfg s e = some s') : s.shared.drawn ≤ s'.shared.drawn := by
  cases e with
  | send cb m | batchSend cb ms | close | confirm ids | error errs =>
    cases h
    exact Nat.le_refl _
  | move t =>
    obtain ⟨τ, sh, τ', ht, hmove, rfl⟩ := step_move h
    cases move_effect (hnone τ (List.mem_of_getElem? ht)) hmove with
    | quiet hq => exact Nat.le_of_eq hq.drawn.symm
    | draw => exact Nat.le_succ _
    | register | take | miss | call => exact Nat.le_refl _
  | publish t result =>
    obtain ⟨owner, messages, ht, rfl⟩ := step_publish h
    exact Nat.le_of_eq (write_frame result s.shared (cfg.frame messages)).2.1.symm

theorem pipeline_init (first : UInt64) :
    (init first).pipeline = ⟨[], [], fun _ => [], fun _ => none, fun _ => false⟩ := by
  have hlook : ∀ {α : Type} (f : Task → α), look f (f .tick) [.tick] = fun _ => f .tick := by
    intro α f
    have hsnoc : look f (f .tick) ([] ++ [.tick]) = _ := look_snoc f _ rfl
    exact hsnoc.trans (funext fun t => by simp [look])
  have hhand : look Task.hand [] [.tick] = fun _ => [] := hlook Task.hand
  have hfresh : look Task.fresh none [.tick] = fun _ => none := hlook Task.fresh
  have hdrain : look Task.draining false [.tick] = fun _ => false := hlook Task.draining
  simp only [State.pipeline, init, hhand, hfresh, hdrain]
  rfl

/-- What a step of a named producer may be: calls come one after the other, without ids of
their own, and no frame overtakes a smaller id. -/
def NamedInTurn (s : State) (e : Event) : Prop := Serial s e ∧ e.Unnumbered ∧ InTurn s e

instance (s : State) (e : Event) : Decidable (NamedInTurn s e) :=
  inferInstanceAs (Decidable (_ ∧ _ ∧ _))

/-- **The ids that a named producer publishes increase**, frame after frame and in each frame,
in every run in which no frame is handed over while a smaller id than one in it waits in the
accumulator or in the hands of another flush, and in which the sequence does not wrap.

By induction on the run, with the order of the pipeline as the invariant.  The bound on the
sequence is one on the end of the run; since ids are drawn and never given back (`drawn_step`), it
holds of every state before it, too. -/
theorem publish_order (cfg : Config) (first : UInt64) (es : List Event) (s : State)
    (h : run (step cfg) (init first) es = some s)
    (hsteps : Steps (step cfg) NamedInTurn (init first) es)
    (hwrap : first.toNat + s.shared.drawn ≤ 2 ^ 64) :
    (s.shared.wire.flatMap Outgoing.publishedIds).Pairwise (· < ·) := by
  have hrun := run_invariant_steps (P := fun u => Inv first u ∧ NoExplicitIds u ∧ Alone u ∧
    Announced u ∧ (first.toNat + u.shared.drawn ≤ 2 ^ 64 → u.pipeline.Ordered))
    (fun u e u' hC hP hs => ?_) hsteps ?_ h
  · obtain ⟨-, -, -, -, hordered⟩ := hrun
    have hout : (s.shared.publishedIds.map UInt64.toNat).Pairwise (· < ·) := (hordered hwrap).out
    rw [List.pairwise_map] at hout
    exact hout
  · obtain ⟨hi, hnone, halone, hann, hordered⟩ := hP
    obtain ⟨hserial, hu, hturn⟩ := hC
    refine ⟨inv_step hi hnone hs, noExplicitIds_step hu hnone hs, alone_step hserial halone hs,
      announced_step hi hnone hann hs, fun hwrap' => ?_⟩
    have hle := drawn_step hnone hs
    have hP := hordered (by omega)
    rcases step_pipeline hi hnone halone hann hturn hwrap' hs with heq | hstep
    · rw [heq]
      exact hP
    · exact hP.step hstep
  · refine ⟨inv_init first, by simp [NoExplicitIds, init, Task.messages], ?_,
      by simp [Announced, init, Shared.publishedIds], fun _ => ?_⟩
    · intro t u τ υ ht hu hτ
      rw [List.mem_singleton.mp (List.mem_of_getElem? ht)] at hτ
      exact absurd hτ (by simp [Task.isCall])
    · rw [pipeline_init]
      exact Pipeline.ordered_empty

/-- Two messages are sent and flushed, one after the other. -/
def twoSends (m : Message) : List Event :=
  [.send 7 m, .move 1, .move 1, .move 1, .move 1, .move 1, .move 1, .move 1, .move 1, .move 1,
    .publish 1 .ok, .send 8 m, .move 2, .move 2, .move 2, .move 2, .move 2, .move 2, .move 2,
    .move 2, .move 2, .publish 2 .ok]

/-- The rule at two messages with the ids 5 and 6. -/
theorem publish_order_twoSends : ∃ s,
    run (step ⟨1, 1, 1, none⟩) (init 5) (twoSends { message := {} }) = some s ∧
      s.shared.wire.flatMap Outgoing.publishedIds = [5, 6] ∧
      (s.shared.wire.flatMap Outgoing.publishedIds).Pairwise (· < ·) :=
  ⟨_, rfl, by decide +kernel, publish_order ⟨1, 1, 1, none⟩ 5 (twoSends { message := {} }) _ rfl
    (by decide +kernel) (by decide +kernel)⟩

/-- A message is sent and waits in the accumulator.  A batch is sent and published, and then
the timer publishes the message. -/
def batchOvertakes (m : Message) : List Event :=
  [.send 7 m, .move 1, .move 1, .move 1, .move 1, .move 1,
    .batchSend 8 [m], .move 2, .move 2, .move 2, .move 2, .publish 2 .ok,
    .move 0, .move 0, .move 0, .move 0, .move 0, .publish 0 .ok]

/-- The batch, with the id 1, overtakes the message with the id 0. -/
theorem publish_order_batch_overtakes : ∃ s,
    run (step ⟨1, 100, 1, none⟩) (init 0) (batchOvertakes { message := {} }) = some s ∧
      Steps (step ⟨1, 100, 1, none⟩) (fun s e => Serial s e ∧ e.Unnumbered) (init 0)
        (batchOvertakes { message := {} }) ∧
      s.shared.wire.flatMap Outgoing.publishedIds = [1, 0] ∧
      ¬ (s.shared.wire.flatMap Outgoing.publishedIds).Pairwise (· < ·) :=
  ⟨_, rfl, by decide +kernel, by decide +kernel, by decide +kernel⟩

end RabbitMqStream.Producer
