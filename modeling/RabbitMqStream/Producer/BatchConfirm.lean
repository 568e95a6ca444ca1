/-
# A batch and its confirmations

`do_batch_send_with_confirm` makes a channel with room for one status for each message, sends the
batch with a callback that puts its status into the channel, and collects what comes out until the
channel has ended.  The sending half belongs to the callback, and the callback to the waiters: the
channel ends when the last waiter is gone.

A channel must have room for something.  For the empty batch there is none to be made.

One such call is followed here beside a producer whose other calls may do anything at any time.
The callback of the call goes by a name that no other call uses.  A callback puts its status in and
goes in one step: between the two the channel has not ended, and that is all there is to see.
The statuses are never errors: `handle_confirm` and `handle_error` both call with `Ok`.

* `following_run`: what has been registered, called and put into the channel, in every run in which
  the ids are all different and the broker is honest.
* `complete_of_dead`: when the channel has ended there is one status for each message.
* `orderly_of_ordinary`: where the ids come from the sequence, they are all different.

**The argument.**  The callback is followed through the producer.  Only the task of the call
registers waiters with it (`Alone`), one for each message and in their order (`Stage`); each of
them is in the map, being called or has been called, since the producer refines the ledger; and
each call puts one status into the channel.  When the sending half is gone, no waiter is left in
the first two places.  So there have been as many calls as registrations, and the statuses are
those of the messages (`invoked_perm_mine`).
-/
import RabbitMqStream.Producer.Accumulator
import RabbitMqStream.Producer.Confirmation

namespace RabbitMqStream.Producer.BatchConfirm

open Lts Protocol

/-! ## 1. The call

The call is a state machine beside the producer: it has not been made, it is under way and knows
its task in the producer by number, or it has ended in one of three ways.  The events of the
producer go through as they are, and a status that the callback is called with is put into the
channel by the same event. -/

/-- The name of the callback that the call makes. -/
def collect : Callback := 0

/-- How far the call has come. -/
inductive Call : Type where
  | notCalled
  /-- `channel(messages_len)` has panicked. -/
  | panicked
  /-- In `internal_batch_send`, as a task of the producer, and then in the loop of `recv`. -/
  | running (task : ℕ)
  | returned (confirmations : List ConfirmationStatus)
  /-- The `?` behind `internal_batch_send`. -/
  | failed
  deriving DecidableEq

structure State : Type where
  producer : Producer.State
  messages : List Message := []
  call : Call := .notCalled
  channel : List ConfirmationStatus := []
  confirmations : List ConfirmationStatus := []

def start (first : UInt64) : State := { producer := init first }

inductive Event : Type where
  /-- `do_batch_send_with_confirm` is called. -/
  | confirm (messages : List Message)
  /-- A step of the producer. -/
  | producer (e : Producer.Event)
  /-- The next `recv`. -/
  | recv

/-- The callback that an event brings into the producer. -/
def callbackOf : Producer.Event → Option Callback
  | .send cb _ | .batchSend cb _ => some cb
  | .close | .confirm _ | .error _ | .move _ | .publish _ _ => none

/-- The status that a step of the producer puts into the channel. -/
def State.delivers (s : State) : Producer.Event → Option ConfirmationStatus
  | .move u =>
    match s.call, s.producer.tasks[u]? with
    | .running _, some (.callback a w _) => if w.cb = collect then some (a.status w.msg) else none
    -- nobody listens, and `send` fails at once
    | _, _ => none
  | _ => none

/-- The callback that the task is calling. -/
def calling : Task → Option Callback
  | .callback _ w _ => some w.cb
  | _ => none

/-- Someone has the sending half: a waiter in the map, or one that is being called. -/
def State.SenderAlive (s : State) : Prop :=
  (∃ r ∈ s.producer.shared.registrations,
    s.producer.shared.waitingConfirmations r.1 = some r.2 ∧ r.2.cb = collect) ∨
  ∃ τ ∈ s.producer.tasks, calling τ = some collect

instance (s : State) : Decidable s.SenderAlive := inferInstanceAs (Decidable (_ ∨ _))

/-- A channel with room for `n` can be made. -/
def Capacity (n : ℕ) : Prop := 0 < n ∧ n ≤ Accumulator.maxPermits

instance (n : ℕ) : Decidable (Capacity n) := inferInstanceAs (Decidable (_ ∧ _))

def step (cfg : Config) (s : State) : Event → Option State
  | .confirm ms =>
    if s.call = .notCalled then
      if Capacity ms.length then some { s with
        producer := s.producer.spawn (.batchCheck collect ms)
        messages := ms
        call := .running s.producer.tasks.length }
      else some { s with messages := ms, call := .panicked }
    else none
  | .producer e =>
    if callbackOf e = some collect then none
    else
      match Producer.step cfg s.producer e, s.delivers e with
      | some p, some status =>
        if s.channel.length < s.messages.length then
          some { s with producer := p, channel := s.channel ++ [status] }
        else none
      | some p, none => some { s with producer := p }
      | none, _ => none
  | .recv =>
    match s.call with
    | .running t =>
      match s.producer.tasks[t]? with
      | some (.returned true) =>
        match s.channel with
        | status :: rest => some { s with
            channel := rest
            confirmations := s.confirmations ++ [status] }
        | [] => if s.SenderAlive then none else some { s with call := .returned s.confirmations }
      | some (.returned false) => some { s with call := .failed }
      | _ => none
    | _ => none

/-- What a step does, and when. -/
inductive Step (cfg : Config) (s : State) : Event → State → Prop where
  | confirm {ms : List Message} (hcall : s.call = .notCalled) (hcap : Capacity ms.length) :
      Step cfg s (.confirm ms) { s with
        producer := s.producer.spawn (.batchCheck collect ms)
        messages := ms
        call := .running s.producer.tasks.length }
  | panic {ms : List Message} (hcall : s.call = .notCalled) (hcap : ¬ Capacity ms.length) :
      Step cfg s (.confirm ms) { s with messages := ms, call := .panicked }
  | producer {e : Producer.Event} {p : Producer.State} (hcb : callbackOf e ≠ some collect)
      (hp : Producer.step cfg s.producer e = some p) (hd : s.delivers e = none) :
      Step cfg s (.producer e) { s with producer := p }
  | deliver {e : Producer.Event} {p : Producer.State} {status : ConfirmationStatus}
      (hcb : callbackOf e ≠ some collect) (hp : Producer.step cfg s.producer e = some p)
      (hd : s.delivers e = some status) (hroom : s.channel.length < s.messages.length) :
      Step cfg s (.producer e) { s with producer := p, channel := s.channel ++ [status] }
  | recv {t : ℕ} {status : ConfirmationStatus} {rest : List ConfirmationStatus}
      (hcall : s.call = .running t) (ht : s.producer.tasks[t]? = some (.returned true))
      (hch : s.channel = status :: rest) :
      Step cfg s .recv { s with channel := rest, confirmations := s.confirmations ++ [status] }
  | finish {t : ℕ} (hcall : s.call = .running t)
      (ht : s.producer.tasks[t]? = some (.returned true)) (hch : s.channel = [])
      (hdead : ¬ s.SenderAlive) : Step cfg s .recv { s with call := .returned s.confirmations }
  | fail {t : ℕ} (hcall : s.call = .running t)
      (ht : s.producer.tasks[t]? = some (.returned false)) :
      Step cfg s .recv { s with call := .failed }

theorem step_cases {cfg : Config} {s s' : State} {e : Event} (h : step cfg s e = some s') :
    Step cfg s e s' := by
  cases e with
  | confirm ms =>
    simp only [step] at h
    split at h
    · rename_i hcall
      split at h
      · rename_i hcap
        cases h
        exact .confirm hcall hcap
      · rename_i hcap
        cases h
        exact .panic hcall hcap
    · exact absurd h (by simp)
  | producer e =>
    simp only [step] at h
    split at h
    · exact absurd h (by simp)
    · rename_i hcb
      split at h
      · rename_i p status hp hd
        split at h
        · rename_i hroom
          cases h
          exact .deliver hcb hp hd hroom
        · exact absurd h (by simp)
      · rename_i p hp hd
        cases h
        exact .producer hcb hp hd
      · exact absurd h (by simp)
  | recv =>
    simp only [step] at h
    split at h
    · rename_i t hcall
      split at h
      · rename_i ht
        split at h
        · rename_i status rest hch
          cases h
          exact .recv hcall ht hch
        · rename_i hch
          split at h
          · exact absurd h (by simp)
          · rename_i hdead
            cases h
            exact .finish hcall ht hch hdead
      · rename_i ht
        cases h
        exact .fail hcall ht
      · exact absurd h (by simp)
    · exact absurd h (by simp)

/-! ## 2. What the producer does with the callback

The callback is a name that no other call uses, so whoever registers a waiter with it is the
task of the call.  `Stage` says how far this task has come in its list of messages: the waiters
are those of the messages it is through with, in their order. -/

/-- The callback that the task will register. -/
def callback : Task → Option Callback
  | .sendCheck cb _ | .sendDraw cb _ | .sendRegister cb _ _ | .batchCheck cb _
  | .batchDraw cb _ _ | .batchRegister cb _ _ _ _ => some cb
  | _ => none

theorem finish_callback (owner : Owner) (ok : Bool) : callback (owner.finish ok) = none := by
  cases owner <;> rfl

/-- A task keeps its callback or has none. -/
theorem move_callback {cfg : Config} {s s' : Shared} {τ τ' : Task} (h : Move cfg s τ s' τ') :
    callback τ' = callback τ ∨ callback τ' = none := by
  cases h with
  | @releaseNone owner => exact Or.inr (finish_callback owner true)
  | sendDraw | batchDraw | batchRegister | sendAllowed | batchAllowed => exact Or.inl rfl
  | _ => exact Or.inr rfl

/-- Who registers has the callback. -/
theorem move_registrations {cfg : Config} {s s' : Shared} {τ τ' : Task}
    (h : Move cfg s τ s' τ') : s'.registrations = s.registrations ∨
      ∃ id w, callback τ = some w.cb ∧ s'.registrations = s.registrations ++ [(id, w)] := by
  cases h with
  | sendRegister | batchRegister => exact Or.inr ⟨_, _, rfl, rfl⟩
  | sendDraw | batchDraw => exact Or.inl (draw_records s _).1
  | _ => exact Or.inl rfl

theorem move_publishedIds {cfg : Config} {s s' : Shared} {τ τ' : Task}
    (h : Move cfg s τ s' τ') : s'.publishedIds = s.publishedIds := by
  cases h with
  | sendDraw | batchDraw => rw [Shared.publishedIds, (draw_frame s _).2.2, Shared.publishedIds]
  | deletePublisher => simp [Shared.publishedIds, Outgoing.publishedIds]
  | _ => rfl

/-- The waiters of the call, with their ids. -/
def mine (s : Shared) : List (UInt64 × ProducerMessageWaiter) :=
  s.registrations.filter fun r => r.2.cb = collect

/-- What the callback of the call has been called with. -/
def invoked (s : Shared) : List ConfirmationStatus :=
  (s.invocations.filter fun i => i.1 = collect).map Prod.snd

/-- How far `internal_batch_send` has come with the messages: which it has registered, and with
which ids they go into the frame. -/
inductive Stage (ms : List Message) (s : Shared) : Task → Prop where
  | check (hnil : mine s = []) : Stage ms s (.batchCheck collect ms)
  | draw {left : List Message} {wrapped : List ClientMessage}
      (hms : (mine s).map (fun r => r.2.msg) ++ left = ms)
      (hids : wrapped.map ClientMessage.publishingId = (mine s).map Prod.fst) :
      Stage ms s (.batchDraw collect left wrapped)
  | register {m : Message} {id : UInt64} {left : List Message} {wrapped : List ClientMessage}
      (hms : (mine s).map (fun r => r.2.msg) ++ m :: left = ms)
      (hids : wrapped.map ClientMessage.publishingId = (mine s).map Prod.fst) :
      Stage ms s (.batchRegister collect m id left wrapped)
  | publish {wrapped : List ClientMessage} (hms : (mine s).map (fun r => r.2.msg) = ms)
      (hids : wrapped.map ClientMessage.publishingId = (mine s).map Prod.fst) :
      Stage ms s (.publish .batch wrapped)
  | returned {ok : Bool} (hle : (mine s).length ≤ ms.length)
      (hok : ok = true → (mine s).map (fun r => r.2.msg) = ms ∧
        ∀ id ∈ (mine s).map Prod.fst, id ∈ s.publishedIds) : Stage ms s (.returned ok)

theorem Stage.length_le {ms : List Message} {s : Shared} {τ : Task} (h : Stage ms s τ) :
    (mine s).length ≤ ms.length := by
  cases h with
  | check hnil => simp [hnil]
  | draw hms hids | register hms hids =>
    rw [← hms, List.length_append, List.length_map]
    exact Nat.le_add_right _ _
  | publish hms hids =>
    rw [← hms, List.length_map]
  | returned hle hok => exact hle

/-- Another task moves: it registers no waiter of the call, and what was published stays. -/
theorem Stage.other {ms : List Message} {s s' : Shared} {τ : Task} (h : Stage ms s τ)
    (hmine : mine s' = mine s) (hsub : ∀ id ∈ s.publishedIds, id ∈ s'.publishedIds) :
    Stage ms s' τ := by
  cases h with
  | check hnil => exact .check (hmine ▸ hnil)
  | draw hms hids => exact .draw (hmine ▸ hms) (hmine ▸ hids)
  | register hms hids => exact .register (hmine ▸ hms) (hmine ▸ hids)
  | publish hms hids => exact .publish (hmine ▸ hms) (hmine ▸ hids)
  | returned hle hok =>
    rw [← hmine] at hle hok
    exact .returned hle fun h => ⟨(hok h).1, fun id hid => hsub id ((hok h).2 id hid)⟩

theorem mine_register (s : Shared) (id : UInt64) (m : Message) :
    mine (s.register id ⟨collect, m⟩) = mine s ++ [(id, ⟨collect, m⟩)] := by
  simp [mine, Shared.register, List.filter_append]

/-- The task of the call moves. -/
theorem Stage.move {cfg : Config} {ms : List Message} {s s' : Shared} {τ τ' : Task}
    (h : Stage ms s τ) (hmove : Move cfg s τ s' τ') : Stage ms s' τ' := by
  cases h with
  | check hnil =>
    cases hmove with
    | batchRefused hc => exact .returned (by simp [hnil]) (by simp)
    | batchAllowed hc => exact .draw (by simp [hnil]) (by simp [hnil])
  | @draw left wrapped hms hids =>
    cases hmove with
    | batchDone => exact .publish ((List.append_nil _).symm.trans hms) hids
    | @batchDraw _ m left _ =>
      have hmine : mine (s.draw m).1 = mine s := by rw [mine, (draw_records s m).1, mine]
      exact .register (hmine.symm ▸ hms) (hmine.symm ▸ hids)
  | @register m id left wrapped hms hids =>
    cases hmove with
    | batchRegister =>
      refine .draw ?_ ?_
      · rw [mine_register, List.map_append, List.append_assoc]
        exact hms
      · rw [mine_register, List.map_append, List.map_append, hids]
        simp [wrap_publishingId]
  | publish hms hids => cases hmove
  | returned hle hok => cases hmove

/-- The publishing of the batch ends. -/
theorem Stage.published {cfg : Config} {ms : List Message} {s : Shared}
    {wrapped : List ClientMessage} (h : Stage ms s (.publish .batch wrapped))
    (result : PublishResult) : Stage ms (result.write s (cfg.frame wrapped))
      (.returned (result = .ok)) := by
  have hmine : mine (result.write s (cfg.frame wrapped)) = mine s := by
    rw [mine, (write_frame result _ _).2.2.1, mine]
  have hle := h.length_le
  cases h with
  | publish hms hids =>
    refine .returned (hmine ▸ hle) fun hok => ?_
    rw [hmine]
    refine ⟨hms, fun id hid => ?_⟩
    have hresult : result = .ok := of_decide_eq_true hok
    rw [publishedIds_write (by simp [hresult]), hids]
    exact List.mem_append_right _ hid

section Steps

variable {cfg : Config} {s : State} {e : Producer.Event} {p : Producer.State}

/-- Each status that the callback is called with goes into the channel, while the call runs. -/
theorem invoked_step {t : ℕ} (hcall : s.call = .running t)
    (h : Producer.step cfg s.producer e = some p) :
    invoked p.shared = invoked s.producer.shared ++ (s.delivers e).toList := by
  cases e with
  | send cb m | batchSend cb ms | close | confirm ids | error errs =>
    cases h
    exact (List.append_nil _).symm
  | publish u result =>
    obtain ⟨owner, messages, hu, rfl⟩ := step_publish h
    simp only [invoked, State.delivers, (write_waiters result _ _).2]
    exact (List.append_nil _).symm
  | move u =>
    obtain ⟨τ, sh, τ', hu, hmove, rfl⟩ := step_move h
    cases hmove with
    | @call a w answers =>
      simp only [invoked, State.delivers, hcall, hu, List.filter_append, List.map_append]
      by_cases hw : w.cb = collect
      · simp [hw]
      · simp [hw]
    | sendDraw | batchDraw =>
      simp only [invoked, State.delivers, hcall, hu, (draw_records _ _).2]
      exact (List.append_nil _).symm
    | _ =>
      simp only [invoked, State.delivers, hcall, hu]
      exact (List.append_nil _).symm

/-- Only the task of the call has the callback to register. -/
def Alone (s : State) : Prop :=
  ∀ (u : ℕ) (τ : Task), s.producer.tasks[u]? = some τ → callback τ = some collect →
    s.call = .running u

/-- A task that is begun has the callback of its event, which is another one, and a task that moves
has no callback that it did not have. -/
theorem alone_step (ha : Alone s) (hcb : callbackOf e ≠ some collect)
    (h : Producer.step cfg s.producer e = some p) : Alone { s with producer := p } := by
  -- a new task with another callback, or with none
  have hspawn : ∀ τ', callback τ' ≠ some collect → ∀ (u : ℕ) (τ : Task),
      (s.producer.tasks ++ [τ'])[u]? = some τ → callback τ = some collect →
        s.call = .running u := by
    intro τ' hτ' u τ hu hcallback
    rcases getElem?_of_snoc hu with hu | ⟨-, rfl⟩
    · exact ha u τ hu hcallback
    · exact absurd hcallback hτ'
  -- a task moves, and keeps its callback or has none
  have hset : ∀ (v : ℕ) (υ υ' : Task), s.producer.tasks[v]? = some υ →
      (callback υ' = callback υ ∨ callback υ' = none) → ∀ (u : ℕ) (τ : Task),
        (s.producer.tasks.set v υ')[u]? = some τ → callback τ = some collect →
          s.call = .running u := by
    intro v υ υ' hv hkeep u τ hu hcallback
    rcases getElem?_of_set hu with ⟨rfl, rfl⟩ | ⟨-, hu⟩
    · rcases hkeep with heq | hnone
      · exact ha u υ hv (heq ▸ hcallback)
      · rw [hnone] at hcallback
        exact absurd hcallback (by simp)
    · exact ha u τ hu hcallback
  cases e with
  | send cb m | batchSend cb ms =>
    cases h
    exact hspawn _ hcb
  | close | confirm ids | error errs =>
    cases h
    exact hspawn _ (by simp [callback])
  | move v =>
    obtain ⟨υ, sh, υ', hv, hmove, rfl⟩ := step_move h
    exact hset v υ υ' hv (move_callback hmove)
  | publish v result =>
    obtain ⟨owner, messages, hv, rfl⟩ := step_publish h
    exact hset v _ _ hv (Or.inr (finish_callback owner _))

/-- The other tasks register no waiter of the call. -/
theorem mine_step (ha : Alone s) (h : Producer.step cfg s.producer e = some p)
    (hother : ∀ t, s.call = .running t → e ≠ .move t) :
    mine p.shared = mine s.producer.shared := by
  cases e with
  | send cb m | batchSend cb ms | close | confirm ids | error errs =>
    cases h
    rfl
  | publish u result =>
    obtain ⟨owner, messages, hu, rfl⟩ := step_publish h
    simp only [mine, (write_frame result _ _).2.2.1]
  | move u =>
    obtain ⟨τ, sh, τ', hu, hmove, rfl⟩ := step_move h
    rcases move_registrations hmove with hreg | ⟨id, w, hcallback, hreg⟩
    · simp only [mine, hreg]
    · have hw : w.cb ≠ collect := by
        intro heq
        exact hother u (ha u τ hu (heq ▸ hcallback)) rfl
      simp only [mine, hreg, List.filter_append]
      simp [hw]

/-- What was published stays published. -/
theorem published_step (h : Producer.step cfg s.producer e = some p) :
    ∀ id ∈ s.producer.shared.publishedIds, id ∈ p.shared.publishedIds := by
  intro id hid
  cases e with
  | send cb m | batchSend cb ms | close | confirm ids | error errs =>
    cases h
    exact hid
  | move u =>
    obtain ⟨τ, sh, τ', hu, hmove, rfl⟩ := step_move h
    rw [move_publishedIds hmove]
    exact hid
  | publish u result =>
    obtain ⟨owner, messages, hu, rfl⟩ := step_publish h
    cases result with
    | failed => exact hid
    | ok | failedWritten =>
      rw [publishedIds_write (by simp)]
      exact List.mem_append_left _ hid

/-- The producer makes a step while the call runs.  When the task of the call moves it is
`Stage.move`; when another one does, no waiter of the call is registered and what was published
stays. -/
theorem stage_step {t : ℕ} {τ : Task} (ha : Alone s) (hcall : s.call = .running t)
    (ht : s.producer.tasks[t]? = some τ) (hs : Stage s.messages s.producer.shared τ)
    (h : Producer.step cfg s.producer e = some p) :
    ∃ τ', p.tasks[t]? = some τ' ∧ Stage s.messages p.shared τ' := by
  have hpublished := published_step h
  by_cases hmoves : e = .move t
  · subst hmoves
    obtain ⟨υ, sh, υ', hu, hmove, rfl⟩ := step_move h
    rw [ht, Option.some.injEq] at hu
    subst hu
    exact ⟨υ', getElem?_set_moved ht, hs.move hmove⟩
  · have hmine : mine p.shared = mine s.producer.shared := by
      refine mine_step ha h fun t' ht' heq => hmoves ?_
      rw [hcall, Call.running.injEq] at ht'
      rw [heq, ht']
    have hsame := hs.other hmine hpublished
    cases e with
    | send cb m | batchSend cb ms | close | confirm ids | error errs =>
      cases h
      exact ⟨τ, getElem?_snoc ht, hsame⟩
    | move u =>
      obtain ⟨υ, sh, υ', hu, hmove, rfl⟩ := step_move h
      exact ⟨τ, (List.getElem?_set_ne fun hut => hmoves (by rw [hut])).trans ht, hsame⟩
    | publish u result =>
      obtain ⟨owner, messages, hu, rfl⟩ := step_publish h
      by_cases hut : u = t
      · subst hut
        rw [ht, Option.some.injEq] at hu
        subst hu
        cases owner with
        | batch => exact ⟨_, getElem?_set_moved ht, hs.published result⟩
        | sender | timer => cases hs
      · exact ⟨τ, (List.getElem?_set_ne hut).trans ht, hsame⟩

end Steps

/-! ## 3. Who has been called

With all ids different, a waiter is one thing under its id and a status belongs to one waiter.
What was called with the callback and what was registered with it are then compared by their
ids. -/

section Called

variable {p : Producer.State}

/-- A callback is called with the message that was registered with it. -/
theorem invocation_own (hl : Ledger.Inv Answer.publishingId p.ledger)
    {i : Callback × ConfirmationStatus} (hi : i ∈ p.shared.invocations) :
    (i.2.publishingId, ⟨i.1, i.2.message⟩) ∈ p.shared.registrations := by
  have hown := hl.called_own _ _ (List.mem_map.mpr ⟨i, hi, rfl⟩)
  rwa [answer_publishingId] at hown

theorem mem_invoked {st : ConfirmationStatus} :
    st ∈ invoked p.shared ↔ (collect, st) ∈ p.shared.invocations := by
  simp [invoked]

theorem mem_mine {id : UInt64} {w : ProducerMessageWaiter} :
    (id, w) ∈ mine p.shared ↔ (id, w) ∈ p.shared.registrations ∧ w.cb = collect := by
  simp [mine]

/-- Under one id there is one waiter. -/
theorem waiter_unique (hl : Ledger.Inv Answer.publishingId p.ledger) {id : UInt64}
    {w w' : ProducerMessageWaiter} (h : (id, w) ∈ p.shared.registrations)
    (h' : (id, w') ∈ p.shared.registrations) : w = w' :=
  (Prod.mk.inj (List.inj_on_of_nodup_map hl.ids_nodup h h' rfl)).2

theorem mine_ids_nodup (hl : Ledger.Inv Answer.publishingId p.ledger) :
    ((mine p.shared).map Prod.fst).Nodup :=
  hl.ids_nodup.sublist (List.filter_sublist.map Prod.fst)

theorem invoked_ids_nodup (hl : Ledger.Inv Answer.publishingId p.ledger) (hb : BrokerHonest p) :
    ((invoked p.shared).map ConfirmationStatus.publishingId).Nodup := by
  have hcalled : (p.shared.invocations.map fun i => i.2.publishingId).Nodup := by
    have hnodup := hl.called_nodup hb.ledger
    simpa [State.ledger, List.map_map, Function.comp_def, answer_publishingId] using hnodup
  rw [invoked, List.map_map]
  exact hcalled.sublist (List.filter_sublist.map _)

/-- When all waiters of the call have been called, the statuses are those of its messages.  Neither
list has an id twice, and each status belongs to a waiter with its id; so the two have the same
members. -/
theorem invoked_perm_mine (hl : Ledger.Inv Answer.publishingId p.ledger) (hb : BrokerHonest p)
    (hall : ∀ r ∈ mine p.shared, ∃ i ∈ p.shared.invocations, i.2.publishingId = r.1) :
    ((invoked p.shared).map fun st => (st.publishingId, st.message)).Perm
      ((mine p.shared).map fun r => (r.1, r.2.msg)) := by
  have hinvoked : ((invoked p.shared).map fun st => (st.publishingId, st.message)).Nodup := by
    refine List.Nodup.of_map Prod.fst ?_
    rw [List.map_map]
    exact invoked_ids_nodup hl hb
  have hmine : ((mine p.shared).map fun r => (r.1, r.2.msg)).Nodup := by
    refine List.Nodup.of_map Prod.fst ?_
    rw [List.map_map]
    exact mine_ids_nodup hl
  refine (List.perm_ext_iff_of_nodup hinvoked hmine).mpr fun x => ?_
  rw [List.mem_map, List.mem_map]
  constructor
  · rintro ⟨st, hst, rfl⟩
    have hown := invocation_own hl (mem_invoked.mp hst)
    exact ⟨_, mem_mine.mpr ⟨hown, rfl⟩, rfl⟩
  · rintro ⟨⟨id, w⟩, hr, rfl⟩
    obtain ⟨⟨cb, st⟩, hi, hid⟩ := hall _ hr
    obtain ⟨hreg, hw⟩ := mem_mine.mp hr
    simp only at hid
    subst hid
    -- the waiter that was called is the one of the call
    obtain rfl := waiter_unique hl hreg (invocation_own hl hi)
    simp only at hw
    subst hw
    exact ⟨st, mem_invoked.mpr hi, rfl⟩

/-- A waiter of the call that is neither in the map nor being called has been called. -/
theorem called_of_gone (hl : Ledger.Inv Answer.publishingId p.ledger)
    (hwaits : ∀ r ∈ mine p.shared, p.shared.waitingConfirmations r.1 ≠ some r.2)
    (hcalls : ∀ τ ∈ p.tasks, calling τ ≠ some collect) :
    ∀ r ∈ mine p.shared, ∃ i ∈ p.shared.invocations, i.2.publishingId = r.1 := by
  rintro ⟨id, w⟩ hr
  obtain ⟨hreg, hw⟩ := mem_mine.mp hr
  have hanswered : ¬ (id ∉ p.shared.answered.map Answer.publishingId ∨
      ∃ a ∈ p.ledger.todo, a.publishingId = id) := fun h => hwaits _ hr (hl.kept id w hreg h)
  rw [not_or, not_not] at hanswered
  obtain ⟨hmem, htodo⟩ := hanswered
  obtain ⟨a, ha, rfl⟩ := List.mem_map.mp hmem
  rcases hl.place_of_answered ha with hin | ⟨w', hpair⟩ | ⟨w', hc⟩
  · exact absurd ⟨a, hin, rfl⟩ htodo
  · -- it is being called, and it is the waiter of the call
    obtain rfl := waiter_unique hl hreg (hl.inCall_own a w' hpair)
    obtain ⟨τ, hτ, hx⟩ := (mem_gather Task.inCall).mp hpair
    refine absurd ?_ (hcalls τ hτ)
    cases τ with
    | callback b v answers =>
      rw [Task.inCall, Multiset.mem_singleton] at hx
      cases hx
      exact congrArg some hw
    | _ => exact absurd hx (Multiset.notMem_zero _)
  · obtain ⟨i, hi, heq⟩ := List.mem_map.mp hc
    refine ⟨i, hi, ?_⟩
    rw [← answer_publishingId]
    exact congrArg Answer.publishingId (Prod.mk.inj heq).1

/-- There are more waiters of the call than have been called while one is being called. -/
theorem invoked_lt_mine (hl : Ledger.Inv Answer.publishingId p.ledger) (hb : BrokerHonest p)
    {u : ℕ} {a : Answer} {w : ProducerMessageWaiter} {answers : List Answer}
    (hu : p.tasks[u]? = some (.callback a w answers)) (hw : w.cb = collect) :
    (invoked p.shared).length < (mine p.shared).length := by
  have hin : (a, w) ∈ p.ledger.inCall :=
    mem_gather_of_getElem? Task.inCall hu (Multiset.mem_singleton_self _)
  have hfresh : a.publishingId ∉ (invoked p.shared).map ConfirmationStatus.publishingId := by
    intro hmem
    obtain ⟨st, hst, hid⟩ := List.mem_map.mp hmem
    refine hl.inCall_not_called hb.ledger hin (List.mem_map.mpr ⟨_,
      List.mem_map.mpr ⟨_, mem_invoked.mp hst, rfl⟩, ?_⟩)
    rw [answer_publishingId]
    exact hid
  have hsub : a.publishingId :: (invoked p.shared).map ConfirmationStatus.publishingId ⊆
      (mine p.shared).map Prod.fst := by
    intro id hid
    rcases List.mem_cons.mp hid with rfl | hid
    · exact List.mem_map.mpr ⟨_, mem_mine.mpr ⟨hl.inCall_own a w hin, hw⟩, rfl⟩
    · obtain ⟨st, hst, rfl⟩ := List.mem_map.mp hid
      exact List.mem_map.mpr
        ⟨_, mem_mine.mpr ⟨invocation_own hl (mem_invoked.mp hst), rfl⟩, rfl⟩
  have hle := (List.subperm_of_subset
    (List.nodup_cons.mpr ⟨hfresh, invoked_ids_nodup hl hb⟩) hsub).length_le
  rw [List.length_cons, List.length_map, List.length_map] at hle
  omega

end Called

/-! ## 4. The invariant

What was put into the channel is what the callback was called with, and the call has collected a
beginning of it.  The end of the channel adds that no waiter of the call is left, which turns
the comparison of the last section into an equation. -/

/-- One status for each message of the batch, and each for an id of its own. -/
def Complete (ms : List Message) (confirmations : List ConfirmationStatus) : Prop :=
  (confirmations.map ConfirmationStatus.message).Perm ms ∧
    (confirmations.map ConfirmationStatus.publishingId).Nodup

/-- What the producer, the call and the channel have to do with each other. -/
structure Following (s : State) : Prop where
  carried : Carried s.producer
  ledger : Ledger.Inv Answer.publishingId s.producer.ledger
  spent : Ledger.Spent Answer.publishingId s.producer.ledger
  alone : Alone s
  /-- Nothing has happened under the name of the callback before the call. -/
  before : s.call = .notCalled →
    mine s.producer.shared = [] ∧ s.channel = [] ∧ s.confirmations = []
  stage : ∀ t, s.call = .running t →
    ∃ τ, s.producer.tasks[t]? = some τ ∧ Stage s.messages s.producer.shared τ
  /-- Each status is in the channel or has been taken out of it. -/
  delivered : ∀ t, s.call = .running t →
    invoked s.producer.shared = s.confirmations ++ s.channel
  returned : ∀ confirmations, s.call = .returned confirmations →
    Complete s.messages confirmations

theorem following_start (first : UInt64) : Following (start first) := by
  have hl : Ledger.Inv Answer.publishingId (init first).ledger := by
    rw [ledger_init]
    exact Ledger.inv_empty
  have hs : Ledger.Spent Answer.publishingId (init first).ledger := by
    rw [ledger_init]
    exact Ledger.spent_empty
  refine ⟨(inv_init first).carried, hl, hs, fun u τ hu hcallback => ?_,
    fun _ => ⟨rfl, rfl, rfl⟩, ?_, ?_, ?_⟩
  · have hτ : τ ∈ [Task.tick] := List.mem_of_getElem? hu
    rw [List.mem_singleton.mp hτ] at hcallback
    exact absurd hcallback (by simp [callback])
  all_goals simp [start]

section Invariant

variable {cfg : Config} {s : State}

/-- What the ledger keeps when the producer makes a step. -/
theorem ledger_kept {e : Producer.Event} {p : Producer.State} (hf : Following s)
    (ho : Orderly s.producer) (ho' : Orderly p) (h : Producer.step cfg s.producer e = some p) :
    Ledger.Inv Answer.publishingId p.ledger ∧ Ledger.Spent Answer.publishingId p.ledger := by
  rcases distinct_refines ho.2 ho'.1 hf.carried hf.ledger h with heq | hstep
  · rw [heq]
    exact ⟨hf.ledger, hf.spent⟩
  · exact ⟨hf.ledger.step hstep ho'.2.ledger, hf.spent.step hf.ledger hstep⟩

theorem delivers_of_not_running (e : Producer.Event) (h : ∀ t, s.call ≠ .running t) :
    s.delivers e = none := by
  unfold State.delivers
  split
  · split
    · rename_i hcall _
      exact absurd hcall (h _)
    · rfl
  · rfl

/-- The producer makes a step, and the callback puts its status into the channel. -/
theorem following_producer {e : Producer.Event} {p : Producer.State} (hf : Following s)
    (ho : Orderly s.producer) (ho' : Orderly p) (hcb : callbackOf e ≠ some collect)
    (h : Producer.step cfg s.producer e = some p) :
    Following { s with producer := p, channel := s.channel ++ (s.delivers e).toList } where
  carried := carried_step hf.carried h
  ledger := (ledger_kept hf ho ho' h).1
  spent := (ledger_kept hf ho ho' h).2
  alone := alone_step hf.alone hcb h
  before hcall := by
    have hnot : ∀ t, s.call ≠ .running t := by
      intro t ht
      rw [show s.call = .notCalled from hcall] at ht
      exact absurd ht (by simp)
    obtain ⟨hmine, hch, hconf⟩ := hf.before hcall
    refine ⟨?_, ?_, hconf⟩
    · rw [mine_step hf.alone h fun t ht => absurd ht (hnot t)]
      exact hmine
    · rw [delivers_of_not_running e hnot, hch]
      rfl
  stage t hcall := by
    have hrunning : s.call = .running t := hcall
    obtain ⟨τ, ht, hs⟩ := hf.stage t hrunning
    exact stage_step (s := s) hf.alone hrunning ht hs h
  delivered t hcall := by
    have hrunning : s.call = .running t := hcall
    rw [invoked_step hrunning h, hf.delivered t hrunning, List.append_assoc]
  returned := hf.returned

/-- `do_batch_send_with_confirm` is called.  The call begins a task that has the callback, with
nothing registered or called under its name so far. -/
theorem following_confirm (cfg : Config) {ms : List Message} (hf : Following s)
    (ho : Orderly s.producer) (ho' : Orderly (s.producer.spawn (.batchCheck collect ms)))
    (hcall : s.call = .notCalled) :
    Following { s with
      producer := s.producer.spawn (.batchCheck collect ms)
      messages := ms
      call := .running s.producer.tasks.length } := by
  have h : Producer.step cfg s.producer (.batchSend collect ms) =
      some (s.producer.spawn (.batchCheck collect ms)) := rfl
  obtain ⟨hmine, hch, hconf⟩ := hf.before hcall
  obtain ⟨hledger, hspent⟩ := ledger_kept hf ho ho' h
  refine ⟨carried_step hf.carried h, hledger, hspent, fun u τ hu hcallback => ?_,
    fun hnot => absurd hnot (by simp), fun t ht => ?_, fun t _ => ?_,
    fun confs hconfs => absurd hconfs (by simp)⟩
  · rcases getElem?_of_snoc hu with hu | ⟨rfl, -⟩
    · have hold := hf.alone u τ hu hcallback
      rw [hcall] at hold
      exact absurd hold (by simp)
    · rfl
  · obtain rfl := Call.running.inj ht
    exact ⟨_, List.getElem?_concat_length, .check hmine⟩
  · -- a callback that has been called was registered
    have hnil : invoked s.producer.shared = [] := by
      refine List.eq_nil_iff_forall_not_mem.mpr fun st hst => ?_
      have hreg := mem_mine.mpr ⟨invocation_own hf.ledger (mem_invoked.mp hst), rfl⟩
      rw [hmine] at hreg
      exact absurd hreg List.not_mem_nil
    rw [hch, hconf]
    exact hnil

/-- The channel has ended: the call has one status for each message. -/
theorem complete_of_dead {t : ℕ} (hf : Following s) (hb : BrokerHonest s.producer)
    (hcall : s.call = .running t) (ht : s.producer.tasks[t]? = some (.returned true))
    (hch : s.channel = []) (hdead : ¬ s.SenderAlive) : Complete s.messages s.confirmations := by
  obtain ⟨τ, ht', hs⟩ := hf.stage t hcall
  rw [ht, Option.some.injEq] at ht'
  subst ht'
  have hdelivered := hf.delivered t hcall
  rw [hch, List.append_nil] at hdelivered
  rw [State.SenderAlive, not_or] at hdead
  have hall := called_of_gone hf.ledger
    (fun r hr hw => hdead.1 ⟨r, (List.mem_filter.mp hr).1, hw, (mem_mine.mp hr).2⟩)
    (fun τ hτ hc => hdead.2 ⟨τ, hτ, hc⟩)
  have hperm := invoked_perm_mine hf.ledger hb hall
  rw [hdelivered] at hperm
  cases hs with
  | returned hle hok =>
    refine ⟨?_, hdelivered ▸ invoked_ids_nodup hf.ledger hb⟩
    have hmessages := hperm.map Prod.snd
    rw [List.map_map, List.map_map] at hmessages
    rw [← (hok rfl).1]
    exact hmessages

/-- By cases on the step.  A step of the producer is `following_producer`; a `recv` moves a status
from the channel to what was collected; and when the call ends nothing is left to be put into the
channel. -/
theorem following_step {e : Event} {s' : State} (hf : Following s)
    (ho : Orderly s.producer) (ho' : Orderly s'.producer) (h : step cfg s e = some s') :
    Following s' := by
  -- the task of the call is in a place where it has no callback any more
  have hover : ∀ (t : ℕ) (ok : Bool), s.call = .running t →
      s.producer.tasks[t]? = some (.returned ok) → ∀ (u : ℕ) (τ : Task),
        s.producer.tasks[u]? = some τ → callback τ ≠ some collect := by
    intro t ok hcall ht u τ hu hcallback
    have hold := hf.alone u τ hu hcallback
    rw [hcall, Call.running.injEq] at hold
    subst hold
    rw [ht, Option.some.injEq] at hu
    subst hu
    exact absurd hcallback (by simp [callback])
  cases step_cases h with
  | confirm hcall hcap => exact following_confirm cfg hf ho ho' hcall
  | panic hcall hcap =>
    refine ⟨hf.carried, hf.ledger, hf.spent, fun u τ hu hcallback => ?_, ?_, ?_, ?_, ?_⟩
    · have hold := hf.alone u τ hu hcallback
      rw [hcall] at hold
      exact absurd hold (by simp)
    all_goals simp
  | producer hcb hp hd =>
    have hnext := following_producer hf ho ho' hcb hp
    rw [hd, Option.toList_none, List.append_nil] at hnext
    exact hnext
  | deliver hcb hp hd hroom =>
    have hnext := following_producer hf ho ho' hcb hp
    rw [hd] at hnext
    exact hnext
  | @recv t status rest hcall ht hch =>
    refine { hf with before := fun hnot => ?_, delivered := fun u hu => ?_ }
    · rw [show s.call = .notCalled from hnot] at hcall
      exact absurd hcall (by simp)
    · rw [hf.delivered u hu, hch, List.append_assoc]
      rfl
  | @finish t hcall ht hch hdead =>
    have hcomplete := complete_of_dead hf ho.2 hcall ht hch hdead
    refine ⟨hf.carried, hf.ledger, hf.spent,
      fun u τ hu hcallback => absurd hcallback (hover t true hcall ht u τ hu),
      by simp, by simp, by simp, fun confs hconfs => ?_⟩
    obtain rfl := Call.returned.inj hconfs
    exact hcomplete
  | @fail t hcall ht =>
    refine ⟨hf.carried, hf.ledger, hf.spent,
      fun u τ hu hcallback => absurd hcallback (hover t false hcall ht u τ hu), ?_, ?_, ?_, ?_⟩
    all_goals simp

/-- What holds after any run in which the producer is in orderly states. -/
theorem following_run {first : UInt64} {es : List Event}
    (h : run (step cfg) (start first) es = some s)
    (ho : Along (step cfg) (fun u => Orderly u.producer) (start first) es) : Following s :=
  run_invariant_along (fun _ _ _ hu hu' hf hs => following_step hf hu hu' hs) ho
    (following_start first) h

end Invariant

/-- A step here is a step of the producer, or the producer makes none. -/
theorem producer_step {cfg : Config} {s s' : State} {e : Event} (h : step cfg s e = some s') :
    s'.producer = s.producer ∨
      ∃ e' : Producer.Event, Producer.step cfg s.producer e' = some s'.producer := by
  cases step_cases h with
  | @confirm ms hcall hcap => exact Or.inr ⟨.batchSend collect ms, rfl⟩
  | producer hcb hp | deliver hcb hp => exact Or.inr ⟨_, hp⟩
  | panic | recv | finish | fail => exact Or.inl rfl

/-- **A producer is orderly** while no message brings its own id, until the sequence wraps. -/
theorem orderly_of_ordinary {cfg : Config} {first : UInt64} {es : List Event}
    (ho : Along (step cfg) (fun u => Ordinary u.producer) (start first) es) :
    Along (step cfg) (fun u => Orderly u.producer) (start first) es := by
  refine ho.imp_invariant (P := fun u => Inv first u.producer ∧
    Ledger.Inv Answer.publishingId u.producer.ledger) (fun u e u' hu hu' hP hs => ?_)
    (fun u hu hP => ⟨hP.2.distinct, hu.2.2⟩) ⟨inv_init first, ?_⟩
  · rcases producer_step hs with heq | ⟨e', he⟩
    · rw [heq]
      exact hP
    · exact ⟨inv_step hP.1 hu.2.1 he, ledger_step hu hu' hP.1 hP.2 he⟩
  · show Ledger.Inv Answer.publishingId (init first).ledger
    rw [ledger_init]
    exact Ledger.inv_empty

end RabbitMqStream.Producer.BatchConfirm
