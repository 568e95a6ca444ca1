/-
# One message and its confirmation

`do_send_with_confirm` makes a channel with room for one status, sends the message with a callback
that puts its status into the channel, and takes one status out.  The callback has the sending half:
when the waiter is gone before a status has come, the channel ends and the call fails.

The call is followed beside a producer whose other calls may do anything, as in `BatchConfirm`, but
nothing is asked of the ids and of the broker.

* `send_confirmation`: what the call returns is what the broker has answered for the waiter of its
  own message; it fails for want of a status only when the waiter has been replaced; and it never
  holds up a handler.

**The argument.**  The call has one waiter, and its callback is the only thing that has the sending
half of the channel.  A status in the channel comes from a call of that waiter, and the waiter is
called with an answer to its id; this is `Genuine`.  If the channel ends empty, the waiter is in
no slot, is not being called and was not called, so it was replaced (`overwritten_of_dead`).  That
is the accounting of `Lts/Slots.lean`, which asks nothing of ids and brokers.
-/
import RabbitMqStream.Producer.BatchConfirm
import RabbitMqStream.Producer.Callbacks

namespace RabbitMqStream.Producer.SendConfirm

open Lts Protocol BatchConfirm

/-! ## 1. The call

As in `BatchConfirm`, with a channel for one status and with one message.  The call ends when it
has taken a status out, or when the channel has ended, or when its sending fails. -/

/-- How far the call has come. -/
inductive Call : Type where
  | notCalled
  /-- In `internal_send`, as a task of the producer, and then at `recv`. -/
  | running (task : ℕ)
  | returned (status : ConfirmationStatus)
  /-- The channel has ended: `ProducerPublishError::Confirmation`. -/
  | lost
  /-- The `?` behind `internal_send`. -/
  | failed
  deriving DecidableEq

structure State : Type where
  producer : Producer.State
  message : Option Message := none
  call : Call := .notCalled
  channel : List ConfirmationStatus := []

def start (first : UInt64) : State := { producer := init first }

inductive Event : Type where
  /-- `do_send_with_confirm` is called. -/
  | confirm (message : Message)
  /-- A step of the producer. -/
  | producer (e : Producer.Event)
  | recv

/-- The task that makes the call, as `BatchConfirm` follows one. -/
def State.following (s : State) : BatchConfirm.State where
  producer := s.producer
  call :=
    match s.call with
    | .running t => .running t
    | _ => .failed

theorem following_running {s : State} {t : ℕ} :
    s.following.call = .running t ↔ s.call = .running t := by
  unfold State.following
  cases s.call <;> simp

def step (cfg : Config) (s : State) : Event → Option State
  | .confirm m =>
    if s.call = .notCalled then some { s with
      producer := s.producer.spawn (.sendCheck collect m)
      message := some m
      call := .running s.producer.tasks.length }
    else none
  | .producer e =>
    if callbackOf e = some collect then none
    else
      match Producer.step cfg s.producer e, s.following.delivers e with
      | some p, some status =>
        if s.channel.length < 1 then
          some { s with producer := p, channel := s.channel ++ [status] }
        else none
      | some p, none => some { s with producer := p }
      | none, _ => none
  | .recv =>
    match s.call with
    | .running t =>
      match s.producer.tasks[t]? with
      | some (.returned true) =>
        match s.channel with
        | status :: _ => some { s with call := .returned status }
        | [] => if s.following.SenderAlive then none else some { s with call := .lost }
      | some (.returned false) => some { s with call := .failed }
      | _ => none
    | _ => none

/-- What a step does, and when. -/
inductive Step (cfg : Config) (s : State) : Event → State → Prop where
  | confirm {m : Message} (hcall : s.call = .notCalled) : Step cfg s (.confirm m) { s with
      producer := s.producer.spawn (.sendCheck collect m)
      message := some m
      call := .running s.producer.tasks.length }
  | producer {e : Producer.Event} {p : Producer.State} (hcb : callbackOf e ≠ some collect)
      (hp : Producer.step cfg s.producer e = some p) (hd : s.following.delivers e = none) :
      Step cfg s (.producer e) { s with producer := p }
  | deliver {e : Producer.Event} {p : Producer.State} {status : ConfirmationStatus}
      (hcb : callbackOf e ≠ some collect) (hp : Producer.step cfg s.producer e = some p)
      (hd : s.following.delivers e = some status) (hroom : s.channel.length < 1) :
      Step cfg s (.producer e) { s with producer := p, channel := s.channel ++ [status] }
  | recv {t : ℕ} {status : ConfirmationStatus} {rest : List ConfirmationStatus}
      (hcall : s.call = .running t) (ht : s.producer.tasks[t]? = some (.returned true))
      (hch : s.channel = status :: rest) : Step cfg s .recv { s with call := .returned status }
  | lose {t : ℕ} (hcall : s.call = .running t)
      (ht : s.producer.tasks[t]? = some (.returned true)) (hch : s.channel = [])
      (hdead : ¬ s.following.SenderAlive) : Step cfg s .recv { s with call := .lost }
  | fail {t : ℕ} (hcall : s.call = .running t)
      (ht : s.producer.tasks[t]? = some (.returned false)) :
      Step cfg s .recv { s with call := .failed }

theorem step_cases {cfg : Config} {s s' : State} {e : Event} (h : step cfg s e = some s') :
    Step cfg s e s' := by
  cases e with
  | confirm m =>
    simp only [step] at h
    split at h
    · rename_i hcall
      cases h
      exact .confirm hcall
    · exact absurd h (by simp)
  | producer e =>
    simp only [step] at h
    split at h
    · exact absurd h (by simp)
    · rename_i hcb
      split at h
      · rename_i p status hp hd
        split at h
        · rename_i hroom
          cases h
          exact .deliver hcb hp hd hroom
        · exact absurd h (by simp)
      · rename_i p hp hd
        cases h
        exact .producer hcb hp hd
      · exact absurd h (by simp)
  | recv =>
    simp only [step] at h
    split at h
    · rename_i t hcall
      split at h
      · rename_i ht
        split at h
        · rename_i status rest hch
          cases h
          exact .recv hcall ht hch
        · rename_i hch
          split at h
          · exact absurd h (by simp)
          · rename_i hdead
            cases h
            exact .lose hcall ht hch hdead
      · rename_i ht
        cases h
        exact .fail hcall ht
      · exact absurd h (by simp)
    · exact absurd h (by simp)

/-! ## 2. The waiter of the call

The call registers one waiter at most.  By the counts of the slots its callback is then called
once at most, and while it is being called it has not been called before. -/

/-- How far `internal_send` has come: it has registered nothing yet, or one waiter and will register
no other. -/
inductive Stage (m : Message) (s : Shared) : Task → Prop where
  | check (hnil : mine s = []) : Stage m s (.sendCheck collect m)
  | draw (hnil : mine s = []) : Stage m s (.sendDraw collect m)
  | register {id : UInt64} (hnil : mine s = []) : Stage m s (.sendRegister collect m id)
  | refused (hnil : mine s = []) : Stage m s (.returned false)
  | sent {id : UInt64} {τ : Task} (hone : mine s = [(id, ⟨collect, m⟩)])
      (hcallback : callback τ = none) : Stage m s τ

section Stage

variable {m : Message} {s s' : Shared} {τ τ' : Task}

theorem Stage.length_le (h : Stage m s τ) : (mine s).length ≤ 1 := by
  cases h with
  | check hnil | draw hnil | register hnil | refused hnil => simp [hnil]
  | sent hone => simp [hone]

/-- Another task moves. -/
theorem Stage.other (h : Stage m s τ) (hmine : mine s' = mine s) : Stage m s' τ := by
  cases h with
  | check hnil => exact .check (hmine.trans hnil)
  | draw hnil => exact .draw (hmine.trans hnil)
  | register hnil => exact .register (hmine.trans hnil)
  | refused hnil => exact .refused (hmine.trans hnil)
  | sent hone hcallback => exact .sent (hmine.trans hone) hcallback

/-- The task of the call moves. -/
theorem Stage.move {cfg : Config} (h : Stage m s τ) (hmove : Move cfg s τ s' τ') :
    Stage m s' τ' := by
  cases h with
  | check hnil =>
    cases hmove with
    | sendRefused => exact .refused hnil
    | sendAllowed => exact .draw hnil
  | draw hnil =>
    cases hmove with
    | sendDraw => exact .register (by rw [mine, (draw_records s m).1, ← mine, hnil])
  | register hnil =>
    cases hmove with
    | sendRegister => exact .sent (by rw [mine_register, hnil, List.nil_append]) rfl
  | refused hnil => cases hmove
  | sent hone hcallback =>
    have hnone : callback τ' = none := by
      rcases move_callback hmove with heq | hnone
      · exact heq.trans hcallback
      · exact hnone
    have hmine : mine s' = mine s := by
      rcases move_registrations hmove with hreg | ⟨id, w, hw, -⟩
      · rw [mine, hreg, ← mine]
      · rw [hcallback] at hw
        exact absurd hw (by simp)
    exact .sent (hmine.trans hone) hnone

end Stage

/-- The producer makes a step while the call runs.  When the task of the call moves it is
`Stage.move`; when another one does, it registers no waiter of the call, since it does not have its
callback. -/
theorem stage_step {cfg : Config} {s : State} {e : Producer.Event} {p : Producer.State}
    {m : Message} {t : ℕ} {τ : Task} (ha : BatchConfirm.Alone s.following)
    (hcall : s.call = .running t) (ht : s.producer.tasks[t]? = some τ)
    (hs : Stage m s.producer.shared τ) (h : Producer.step cfg s.producer e = some p) :
    ∃ τ', p.tasks[t]? = some τ' ∧ Stage m p.shared τ' := by
  by_cases hmoves : e = .move t
  · subst hmoves
    obtain ⟨υ, sh, υ', hu, hmove, rfl⟩ := step_move h
    rw [ht, Option.some.injEq] at hu
    subst hu
    exact ⟨υ', getElem?_set_moved ht, hs.move hmove⟩
  · have hmine : mine p.shared = mine s.producer.shared := by
      refine mine_step (s := s.following) ha h fun t' ht' heq => hmoves ?_
      have hrunning := following_running.mp ht'
      rw [hcall, Call.running.injEq] at hrunning
      rw [heq, hrunning]
    have hsame := hs.other hmine
    cases e with
    | send cb m | batchSend cb ms | close | confirm ids | error errs =>
      cases h
      exact ⟨τ, getElem?_snoc ht, hsame⟩
    | move u =>
      obtain ⟨υ, sh, υ', hu, hmove, rfl⟩ := step_move h
      exact ⟨τ, (List.getElem?_set_ne fun hut => hmoves (by rw [hut])).trans ht, hsame⟩
    | publish u result =>
      obtain ⟨owner, messages, hu, rfl⟩ := step_publish h
      by_cases hut : u = t
      · subst hut
        rw [ht, Option.some.injEq] at hu
        subst hu
        refine ⟨_, getElem?_set_moved ht, ?_⟩
        cases hsame with
        | sent hone => exact .sent hone (finish_callback owner _)
      · exact ⟨τ, (List.getElem?_set_ne hut).trans ht, hsame⟩

section Waiter

variable {p : Producer.State}

/-- The callback is called as often at most as the call has registered it, the call that is being
made included. -/
theorem calls_le_mine (hi : Slots.Inv Answer.publishingId p.slots) :
    ((gather Task.inCall p.tasks).filter fun c => c.2.cb = collect).card +
      (invoked p.shared).length ≤ (mine p.shared).length := by
  have hle := Multiset.card_le_card
    (Multiset.filter_le_filter (fun r : UInt64 × ProducerMessageWaiter => r.2.cb = collect)
      hi.calls_le)
  rw [entries_called, Multiset.filter_add, Multiset.filter_map, Multiset.card_add,
    Multiset.card_map, Multiset.filter_coe, Multiset.coe_card, List.filter_map,
    List.length_map, Multiset.filter_coe, Multiset.coe_card] at hle
  rw [invoked, List.length_map]
  exact hle

/-- While the only waiter of the call is being called, it has not been called. -/
theorem invoked_eq_nil (hi : Slots.Inv Answer.publishingId p.slots)
    (hle : (mine p.shared).length ≤ 1) {u : ℕ} {a : Answer} {w : ProducerMessageWaiter}
    {answers : List Answer} (hu : p.tasks[u]? = some (.callback a w answers))
    (hw : w.cb = collect) : invoked p.shared = [] := by
  have hin : (a, w) ∈ (gather Task.inCall p.tasks).filter fun c => c.2.cb = collect :=
    Multiset.mem_filter.mpr
      ⟨mem_gather_of_getElem? Task.inCall hu (Multiset.mem_singleton_self _), hw⟩
  have hpos := Multiset.card_pos_iff_exists_mem.mpr ⟨_, hin⟩
  have hcalls := calls_le_mine hi
  exact List.length_eq_zero_iff.mp (by omega)

/-- What the callback was called with belongs to a waiter of the call. -/
theorem mine_of_invoked (hi : Slots.Inv Answer.publishingId p.slots) {st : ConfirmationStatus}
    (hst : st ∈ invoked p.shared) :
    (st.publishingId, ⟨collect, st.message⟩) ∈ mine p.shared := by
  have hmem := mem_invoked.mp hst
  have hle := le_trans (Multiset.le_add_left _ _) hi.calls_le
  rw [entries_called] at hle
  have hreg := Multiset.mem_of_le hle (Multiset.mem_coe.mpr (List.mem_map.mpr ⟨_, hmem, rfl⟩))
  exact mem_mine.mpr ⟨hreg, rfl⟩

/-- The answer that the callback was called for has come. -/
theorem answered_of_invoked (hi : Slots.Inv Answer.publishingId p.slots) {st : ConfirmationStatus}
    (hst : st ∈ invoked p.shared) : st.answer ∈ p.shared.answered := by
  have hmem := mem_invoked.mp hst
  have hle := le_trans (Multiset.le_add_left _ _) hi.heard
  have hcalled : (st.answer, (⟨collect, st.message⟩ : ProducerMessageWaiter)) ∈ p.slots.called :=
    List.mem_map.mpr ⟨_, hmem, rfl⟩
  exact Multiset.mem_of_le hle (Multiset.mem_coe.mpr (List.mem_map.mpr ⟨_, hcalled, rfl⟩))

end Waiter

/-! ## 3. The invariant

While the call runs, its channel has what its callback was called with.  A status in it is an
answer to the id of the waiter, and when the channel ends with nothing in it one thing only can
have happened to the waiter: it was replaced. -/

/-- The status is an answer of the broker to the waiter of the message. -/
def Genuine (p : Producer.State) (m : Message) (st : ConfirmationStatus) : Prop :=
  ∃ a ∈ p.shared.answered, st = a.status m ∧
    (a.publishingId, ⟨collect, m⟩) ∈ p.shared.registrations

/-- The waiter of the message was replaced. -/
def Overwritten (p : Producer.State) (m : Message) : Prop :=
  ∃ id, Replaced p.shared.registrations (id, ⟨collect, m⟩)

/-- What the producer, the call and the channel have to do with each other. -/
structure Following (s : State) : Prop where
  slots : Slots.Inv Answer.publishingId s.producer.slots
  told : Told s.producer
  alone : BatchConfirm.Alone s.following
  /-- Nothing has happened under the name of the callback before the call. -/
  before : s.call = .notCalled → mine s.producer.shared = [] ∧ s.channel = []
  stage : ∀ t, s.call = .running t → ∃ τ m, s.message = some m ∧
    s.producer.tasks[t]? = some τ ∧ Stage m s.producer.shared τ
  delivered : ∀ t, s.call = .running t → invoked s.producer.shared = s.channel
  returned : ∀ st, s.call = .returned st → ∃ m, s.message = some m ∧ Genuine s.producer m st
  lost : s.call = .lost → ∃ m, s.message = some m ∧ Overwritten s.producer m

theorem following_start (first : UInt64) : Following (start first) := by
  refine ⟨Slots.inv_empty, by simp [Told, start, init], fun u τ hu hcallback => ?_,
    fun _ => ⟨rfl, rfl⟩, ?_, ?_, ?_, ?_⟩
  · have hτ : τ ∈ [Task.tick] := List.mem_of_getElem? hu
    rw [List.mem_singleton.mp hτ] at hcallback
    exact absurd hcallback (by simp [callback])
  all_goals simp [start]

section Invariant

variable {cfg : Config} {s : State}

/-- What was registered and what was answered stays. -/
theorem records_step {p p' : Producer.State} {e : Producer.Event}
    (h : Producer.step cfg p e = some p') :
    (∃ more, p'.shared.registrations = p.shared.registrations ++ more) ∧
      ∃ more, p'.shared.answered = p.shared.answered ++ more := by
  rcases slots_step h with heq | hstep
  · have hreg : p'.shared.registrations = p.shared.registrations :=
      congrArg Slots.registered heq
    have hans : p'.shared.answered = p.shared.answered := congrArg Slots.answered heq
    exact ⟨⟨[], by rw [hreg, List.append_nil]⟩, [], by rw [hans, List.append_nil]⟩
  · exact hstep.grows

theorem Genuine.step {p p' : Producer.State} {e : Producer.Event} {m : Message}
    {st : ConfirmationStatus} (hg : Genuine p m st) (h : Producer.step cfg p e = some p') :
    Genuine p' m st := by
  obtain ⟨⟨more, hreg⟩, ⟨more', hans⟩⟩ := records_step h
  obtain ⟨a, ha, rfl, hmem⟩ := hg
  refine ⟨a, ?_, rfl, ?_⟩
  · rw [hans]
    exact List.mem_append_left _ ha
  · rw [hreg]
    exact List.mem_append_left _ hmem

theorem Overwritten.step {p p' : Producer.State} {e : Producer.Event} {m : Message}
    (ho : Overwritten p m) (h : Producer.step cfg p e = some p') : Overwritten p' m := by
  obtain ⟨⟨more, hreg⟩, -⟩ := records_step h
  obtain ⟨id, hr⟩ := ho
  refine ⟨id, ?_⟩
  rw [hreg]
  exact hr.append more

/-- The producer makes a step, and the callback puts its status into the channel. -/
theorem following_producer {e : Producer.Event} {p : Producer.State} (hf : Following s)
    (hcb : callbackOf e ≠ some collect) (h : Producer.step cfg s.producer e = some p) :
    Following { s with
      producer := p
      channel := s.channel ++ (s.following.delivers e).toList } where
  slots := by
    rcases slots_step h with heq | hstep
    · exact heq ▸ hf.slots
    · exact hf.slots.step hstep
  told := told_step hf.told h
  alone := BatchConfirm.alone_step (s := s.following) hf.alone hcb h
  before hcall := by
    have hnot : ∀ t, s.following.call ≠ .running t := by
      intro t ht
      have hrunning := following_running.mp ht
      rw [show s.call = .notCalled from hcall] at hrunning
      exact absurd hrunning (by simp)
    obtain ⟨hmine, hch⟩ := hf.before hcall
    refine ⟨?_, ?_⟩
    · rw [mine_step (s := s.following) hf.alone h fun t ht => absurd ht (hnot t)]
      exact hmine
    · rw [delivers_of_not_running e hnot, hch]
      rfl
  stage t hcall := by
    obtain ⟨τ, m, hm, ht, hs⟩ := hf.stage t hcall
    obtain ⟨τ', ht', hs'⟩ := stage_step hf.alone hcall ht hs h
    exact ⟨τ', m, hm, ht', hs'⟩
  delivered t hcall := by
    have hrunning : s.call = .running t := hcall
    rw [invoked_step (s := s.following) (following_running.mpr hrunning) h]
    exact congrArg (· ++ _) (hf.delivered t hcall)
  returned st hcall := by
    obtain ⟨m, hm, hg⟩ := hf.returned st hcall
    exact ⟨m, hm, hg.step h⟩
  lost hcall := by
    obtain ⟨m, hm, ho⟩ := hf.lost hcall
    exact ⟨m, hm, ho.step h⟩

/-- `do_send_with_confirm` is called. -/
theorem following_confirm (cfg : Config) {m : Message} (hf : Following s)
    (hcall : s.call = .notCalled) : Following { s with
      producer := s.producer.spawn (.sendCheck collect m)
      message := some m
      call := .running s.producer.tasks.length } := by
  have h : Producer.step cfg s.producer (.send collect m) =
      some (s.producer.spawn (.sendCheck collect m)) := rfl
  obtain ⟨hmine, hch⟩ := hf.before hcall
  refine ⟨?_, told_step hf.told h, fun u τ hu hcallback => ?_, by simp, fun t ht => ?_,
    fun t _ => ?_, by simp, by simp⟩
  · rw [slots_spawn s.producer rfl rfl]
    exact hf.slots
  · rcases getElem?_of_snoc hu with hu | ⟨rfl, -⟩
    · have hold := following_running.mp (hf.alone u τ hu hcallback)
      rw [hcall] at hold
      exact absurd hold (by simp)
    · rfl
  · obtain rfl := Call.running.inj ht
    exact ⟨_, m, rfl, List.getElem?_concat_length, .check hmine⟩
  · have hle := calls_le_mine hf.slots
    rw [hmine, List.length_nil] at hle
    have hnil : invoked s.producer.shared = [] := List.length_eq_zero_iff.mp (by omega)
    rw [hch]
    exact hnil

/-- A status has come: it is the answer to the message. -/
theorem genuine_of_channel {t : ℕ} {status : ConfirmationStatus} {rest : List ConfirmationStatus}
    (hf : Following s) (hcall : s.call = .running t) (hch : s.channel = status :: rest) :
    ∃ m, s.message = some m ∧ Genuine s.producer m status := by
  obtain ⟨τ, m, hm, -, hs⟩ := hf.stage t hcall
  have hst : status ∈ invoked s.producer.shared := by
    rw [hf.delivered t hcall, hch]
    exact List.mem_cons_self
  have hmine := mine_of_invoked hf.slots hst
  have htold := hf.told _ (mem_invoked.mp hst)
  have hmessage : status.message = m := by
    cases hs with
    | check hnil | draw hnil | register hnil | refused hnil =>
      rw [hnil] at hmine
      exact absurd hmine List.not_mem_nil
    | sent hone =>
      rw [hone, List.mem_singleton] at hmine
      exact congrArg (fun r => r.2.msg) hmine
  refine ⟨m, hm, status.answer, answered_of_invoked hf.slots hst, ?_, ?_⟩
  · rw [← hmessage]
    exact htold
  · rw [answer_publishingId, ← hmessage]
    exact (mem_mine.mp hmine).1

/-- Nothing has come, and nobody has the sending half any more: the waiter was replaced.  The waiter
was registered, so it is in the map, in a call, was called or was overwritten.  The first two keep a
sender, and of the third the status would be in the channel. -/
theorem overwritten_of_dead {t : ℕ} (hf : Following s) (hcall : s.call = .running t)
    (ht : s.producer.tasks[t]? = some (.returned true)) (hch : s.channel = [])
    (hdead : ¬ s.following.SenderAlive) : ∃ m, s.message = some m ∧ Overwritten s.producer m := by
  obtain ⟨τ, m, hm, ht', hs⟩ := hf.stage t hcall
  rw [ht, Option.some.injEq] at ht'
  subst ht'
  refine ⟨m, hm, ?_⟩
  rw [BatchConfirm.State.SenderAlive, not_or] at hdead
  cases hs with
  | @sent id _ hone hcallback =>
    have hreg : (id, (⟨collect, m⟩ : ProducerMessageWaiter)) ∈ s.producer.shared.registrations := by
      refine (mem_mine.mp ?_).1
      rw [hone]
      exact List.mem_singleton.mpr rfl
    refine ⟨id, ?_⟩
    rcases hf.slots.place hreg with hslot | ⟨a, -, hin⟩ | ⟨a, -, hcalled⟩ | hr
    · exact absurd ⟨_, hreg, hslot, rfl⟩ hdead.1
    · obtain ⟨υ, hυ, hmem⟩ := (mem_gather Task.inCall).mp hin
      refine absurd ⟨υ, hυ, ?_⟩ hdead.2
      cases υ with
      | callback b w answers =>
        rw [Task.inCall, Multiset.mem_singleton] at hmem
        obtain ⟨rfl, rfl⟩ := Prod.mk.inj hmem
        rfl
      | _ => exact absurd hmem (Multiset.notMem_zero _)
    · obtain ⟨⟨cb, st⟩, hi, heq⟩ := List.mem_map.mp hcalled
      obtain ⟨-, hw⟩ := Prod.mk.inj heq
      obtain ⟨rfl, -⟩ := ProducerMessageWaiter.mk.inj hw
      have hst := mem_invoked.mpr hi
      rw [hf.delivered t hcall, hch] at hst
      exact absurd hst List.not_mem_nil
    · exact hr

theorem following_step {e : Event} {s' : State} (hf : Following s) (h : step cfg s e = some s') :
    Following s' := by
  -- the task of the call has no callback to register any more
  have hover : ∀ (t : ℕ) (ok : Bool), s.call = .running t →
      s.producer.tasks[t]? = some (.returned ok) → ∀ (u : ℕ) (τ : Task),
        s.producer.tasks[u]? = some τ → callback τ ≠ some collect := by
    intro t ok hcall ht u τ hu hcallback
    have hold := following_running.mp (hf.alone u τ hu hcallback)
    rw [hcall] at hold
    obtain rfl := Call.running.inj hold
    have hτ : some τ = some (.returned ok) := hu.symm.trans ht
    obtain rfl := Option.some.inj hτ
    exact absurd hcallback (by simp [callback])
  cases step_cases h with
  | confirm hcall => exact following_confirm cfg hf hcall
  | producer hcb hp hd =>
    have hnext := following_producer hf hcb hp
    rw [hd, Option.toList_none, List.append_nil] at hnext
    exact hnext
  | deliver hcb hp hd hroom =>
    have hnext := following_producer hf hcb hp
    rw [hd] at hnext
    exact hnext
  | @recv t status rest hcall ht hch =>
    have hgenuine := genuine_of_channel hf hcall hch
    refine ⟨hf.slots, hf.told,
      fun u τ hu hcallback => absurd hcallback (hover t true hcall ht u τ hu),
      by simp, by simp, by simp, fun st hst => ?_, by simp⟩
    obtain rfl := Call.returned.inj hst
    exact hgenuine
  | @lose t hcall ht hch hdead =>
    have hoverwritten := overwritten_of_dead hf hcall ht hch hdead
    exact ⟨hf.slots, hf.told,
      fun u τ hu hcallback => absurd hcallback (hover t true hcall ht u τ hu),
      by simp, by simp, by simp, by simp, fun _ => hoverwritten⟩
  | @fail t hcall ht =>
    exact ⟨hf.slots, hf.told,
      fun u τ hu hcallback => absurd hcallback (hover t false hcall ht u τ hu),
      by simp, by simp, by simp, by simp, by simp⟩

end Invariant

/-! ## 4. Every call

The promise, part by part.  None of it needs an assumption on the ids of other messages or on
the broker; with ids that are all different no waiter is replaced, and no status is missed. -/

/-- What the caller of `do_send_with_confirm` is promised. -/
structure Promise (cfg : Config) (s : State) : Prop where
  /-- A status is what the broker has answered for the message of the call. -/
  returned : ∀ st, s.call = .returned st → ∃ m, s.message = some m ∧ Genuine s.producer m st
  /-- The call fails for want of a status when another waiter came under the same id. -/
  lost : s.call = .lost → ∃ m, s.message = some m ∧ Overwritten s.producer m
  /-- While the ids are all different that does not happen. -/
  distinct : (s.producer.shared.registrations.map Prod.fst).Nodup → s.call ≠ .lost
  /-- No handler is held up by the channel. -/
  handlers : ∀ (u : ℕ) (a : Answer) (w : ProducerMessageWaiter) (answers : List Answer),
    s.producer.tasks[u]? = some (.callback a w answers) →
      ∃ s', step cfg s (.producer (.move u)) = some s'

/-- There is room in the channel when the callback is called. -/
theorem handler_moves (cfg : Config) {s : State} (hf : Following s) {u : ℕ} {a : Answer}
    {w : ProducerMessageWaiter} {answers : List Answer}
    (hu : s.producer.tasks[u]? = some (.callback a w answers)) :
    ∃ s', step cfg s (.producer (.move u)) = some s' := by
  have hmove : Producer.step cfg s.producer (.move u) = some ⟨{ s.producer.shared with
      invocations := s.producer.shared.invocations ++ [(w.cb, a.status w.msg)] },
      s.producer.tasks.set u (.handle answers)⟩ := by
    simp only [Producer.step, hu, advance]
  cases hd : s.following.delivers (.move u) with
  | none => exact ⟨_, by simp [step, callbackOf, hmove, hd]; rfl⟩
  | some status =>
    have hroom : s.channel.length < 1 := by
      simp only [BatchConfirm.State.delivers] at hd
      split at hd
      · rename_i t a' w' answers' hcall hcallback
        split at hd
        · rename_i hw
          have hrunning := following_running.mp hcall
          obtain ⟨τ, m, -, -, hs⟩ := hf.stage t hrunning
          rw [← hf.delivered t hrunning, invoked_eq_nil hf.slots hs.length_le hcallback hw]
          exact Nat.one_pos
        · exact absurd hd (by simp)
      · exact absurd hd (by simp)
    exact ⟨_, by simp [step, callbackOf, hmove, hd, hroom]; rfl⟩

/-- **Sending and confirming.**  In any run of a producer, with any other calls, any ids and any
broker, the call keeps its promise.  `Following` ties the call to the slot of its waiter, and each
step of the producer keeps it: the sender of the channel lives where the waiter lives, so the call
can find the channel closed only when the slot was given to another waiter.  A call that ends
through the `?` of `internal_send` is `failed`, which the promise does not speak of. -/
theorem send_confirmation (cfg : Config) (first : UInt64) (es : List Event) (s : State)
    (h : run (step cfg) (start first) es = some s) : Promise cfg s := by
  have hf := run_invariant (P := Following) (fun _ _ _ hf hs => following_step hf hs)
    (following_start first) h
  refine ⟨hf.returned, hf.lost, fun hnodup hlost => ?_, fun u a w answers hu =>
    handler_moves cfg hf hu⟩
  obtain ⟨m, -, id, hr⟩ := hf.lost hlost
  exact not_replaced hnodup _ hr

/-- The message is sent and confirmed. -/
def confirmedOnce (m : Message) : List Event :=
  let move (t : ℕ) : Event := .producer (.move t)
  [.confirm m, move 1, move 1, move 1, move 1, move 1, .producer (.confirm [0]), move 2, move 2,
    .recv]

theorem send_confirmation_once : ∃ s,
    run (step ⟨1, 100, 1, none⟩) (start 0) (confirmedOnce { message := {} }) = some s ∧
    s.call = .returned ⟨0, true, .ok, { message := {} }⟩ ∧
    ∃ m, s.message = some m ∧ Genuine s.producer m ⟨0, true, .ok, { message := {} }⟩ :=
  ⟨_, rfl, rfl, (send_confirmation ⟨1, 100, 1, none⟩ 0
    (confirmedOnce { message := {} }) _ rfl).returned _ rfl⟩

/-- Another message brings the same id, and its waiter comes later. -/
def overtaken (m : Message) : List Event :=
  let move (t : ℕ) : Event := .producer (.move t)
  [.confirm { m with publishingId := some 7 },
    .producer (.send 1 { m with publishingId := some 7 }), move 1, move 1, move 1, move 1, move 1,
    move 2, move 2, move 2, .recv]

example : (run (step ⟨1, 100, 1, none⟩) (start 0) (overtaken { message := {} })).map State.call =
    some .lost := by
  decide +kernel

end RabbitMqStream.Producer.SendConfirm
