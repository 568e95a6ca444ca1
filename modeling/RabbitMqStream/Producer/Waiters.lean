/-
# Waiters without a message

A waiter is put into the map before its message is on its way, and only an answer of the broker
takes it out again.  So a waiter whose message is lost stays in the map for good, and its
callback is never called.

A message is lost when `Client::publish` fails before the frame has been written: the flush or
the batch that holds the drained messages returns with the error, and nothing is done about
their waiters (`ProducerConfirmHandler::handle_message` has a TODO in its place).
`waiters_accounted_failed_flush` is such a run.  This is the only way: in every run in which no
frame with messages in it is lost, each waiter's message is in the accumulator, in a call or a
flush that has not returned, or on the wire (`waiters_accounted`).

**The argument.**  A task that puts a waiter into the map holds the waiter's message, and has to
let go of it somewhere: into the accumulator, into its own hands for publishing, or into a frame
(`move_carries`).  Of the places a message can be in, only the hand-over of a frame can lose it,
and there the condition on the run stands.  An answer only takes waiters away, which does no harm
to the others.
-/
import RabbitMqStream.Producer.Confirmation

namespace RabbitMqStream.Producer

open Lts Protocol

/-! ## 1. Where a message can be

The accumulator, the hands of a call or of a flush, and the wire.  A message that has been taken
out of the accumulator for a frame is in the hands of the task until the frame is handed over. -/

/-- The messages that have been written in `Publish` frames. -/
def Shared.publishedMessages (s : Shared) : List PublishedMessage :=
  s.wire.flatMap fun
    | .publish cmd => cmd.publishedMessages
    | .deletePublisher _ => []

/-- A message is in the accumulator, inside a call or a flush, or on the wire. -/
def State.Knows (s : State) (m : ClientMessage) : Prop :=
  m ∈ s.shared.queue ∨ m ∈ gather Task.carried s.tasks ∨
    m.toPublished ∈ s.shared.publishedMessages

/-- Every waiter is that of a message the producer knows of. -/
def Accounted (s : State) : Prop :=
  ∀ id w, s.shared.waitingConfirmations id = some w →
    ∃ m : ClientMessage, m.publishingId = id ∧ m.message = w.msg ∧ s.Knows m

/-- No frame with messages in it is lost. -/
def KeepsFrames (s : State) : Event → Prop
  | .publish t .failed => ∀ τ ∈ s.tasks[t]?, τ.carried = 0
  | _ => True

instance (s : State) : ∀ e, Decidable (KeepsFrames s e)
  | .publish t .failed => inferInstanceAs (Decidable (∀ τ ∈ s.tasks[t]?, τ.carried = 0))
  | .publish _ .ok | .publish _ .failedWritten | .send _ _ | .batchSend _ _ | .close
  | .confirm _ | .error _ | .move _ => inferInstanceAs (Decidable True)

/-! ## 2. No step loses a message

A waiter is put into the map by the task that has its message in its hands.  From then on the
message moves from one place to the next, and the lemma says for each operation where it went. -/

/-- What a step of a task does to the waiters and the messages: nothing is lost, and who puts a
waiter into the map has its message. -/
structure Carries (s s' : Shared) (τ τ' : Task) : Prop where
  waiting : ∀ id w, s'.waitingConfirmations id = some w →
    s.waitingConfirmations id = some w ∨
      ∃ m ∈ τ'.carried, m.publishingId = id ∧ m.message = w.msg
  messages : ∀ m, m ∈ s.queue ∨ m ∈ τ.carried → m ∈ s'.queue ∨ m ∈ τ'.carried
  published : s'.publishedMessages = s.publishedMessages

/-- A step that moves no message and no waiter. -/
theorem carries_same {s s' : Shared} {τ τ' : Task}
    (hwait : s'.waitingConfirmations = s.waitingConfirmations) (hqueue : s'.queue = s.queue)
    (hcarried : τ'.carried = τ.carried) (hpub : s'.publishedMessages = s.publishedMessages) :
    Carries s s' τ τ' where
  waiting := by
    rw [hwait]
    exact fun id w h => Or.inl h
  messages := by
    rw [hqueue, hcarried]
    exact fun m h => h
  published := hpub

theorem wrap_message (cfg : Config) (id : UInt64) (m : Message) :
    (cfg.wrap id m).message = m := by
  unfold Config.wrap
  split <;> rfl

/-- A waiter is put into the map, and the message it belongs to is carried on. -/
theorem carries_register (cfg : Config) (s : Shared) {cb : Callback} {m : Message} {id : UInt64}
    {τ τ' : Task} (hnew : cfg.wrap id m ∈ τ'.carried) (hcarried : ∀ x ∈ τ.carried, x ∈ τ'.carried) :
    Carries s (s.register id ⟨cb, m⟩) τ τ' where
  waiting := by
    intro id' w h
    simp only [Shared.register, Function.update_apply] at h
    split at h
    · rename_i hid
      rw [Option.some.injEq] at h
      refine Or.inr ⟨cfg.wrap id m, hnew, ?_, ?_⟩
      · rw [wrap_publishingId, hid]
      · rw [wrap_message, ← h]
    · exact Or.inl h
  messages := fun x h => h.imp_right (hcarried x)
  published := rfl

theorem move_carries {cfg : Config} {s s' : Shared} {τ τ' : Task} (h : Move cfg s τ s' τ') :
    Carries s s' τ τ' := by
  have hdraw : ∀ m υ υ', υ'.carried = υ.carried → Carries s (s.draw m).1 υ υ' := by
    intro m υ υ' hcarried
    obtain ⟨hwait, hqueue, hwire⟩ := draw_frame s m
    exact carries_same hwait hqueue hcarried (by simp only [Shared.publishedMessages, hwire])
  cases h with
  | sendDraw | batchDraw => exact hdraw _ _ _ rfl
  | sendRegister => exact carries_register cfg s (by simp [Task.carried]) (by simp [Task.carried])
  | batchRegister =>
    refine carries_register cfg s (by simp [Task.carried]) fun x hx => ?_
    simp only [Task.carried, Multiset.mem_coe, List.mem_append] at hx ⊢
    exact Or.inl hx
  | sendAdd =>
    refine ⟨fun id w h => Or.inl h, fun m hm => Or.inl ?_, rfl⟩
    simpa [Task.carried] using hm
  | pop hlt hq =>
    refine ⟨fun id w h => Or.inl h, fun m hm => ?_, rfl⟩
    simp only [Task.carried, hq, Multiset.mem_coe, List.mem_append, List.mem_cons,
      List.not_mem_nil, or_false] at hm ⊢
    tauto
  | @releaseNone owner => exact carries_same rfl rfl (owner.finish_carried true) rfl
  | take hw =>
    refine ⟨fun id w hw => Or.inl ?_, fun m hm => hm, rfl⟩
    simp only [Function.update_apply] at hw
    split at hw
    · exact absurd hw (by simp)
    · exact hw
  | deletePublisher =>
    refine carries_same rfl rfl rfl ?_
    simp [Shared.publishedMessages]
  | _ => exact carries_same rfl rfl rfl rfl

/-! ## 3. Every run

The hand-over of a frame is the one event that is not a step of `Move`.  It puts the messages on
the wire, also when it fails behind the write; when it fails in front of it they are gone. -/

section Steps

variable {cfg : Config} {s s' : State}

/-- A task is begun that holds nothing. -/
theorem accounted_spawn (ha : Accounted s) {sh : Shared} {τ : Task}
    (hwait : sh.waitingConfirmations = s.shared.waitingConfirmations)
    (hqueue : sh.queue = s.shared.queue) (hwire : sh.wire = s.shared.wire)
    (hcarried : τ.carried = 0) : Accounted ⟨sh, s.tasks ++ [τ]⟩ := by
  intro id w hw
  simp only [hwait] at hw
  obtain ⟨m, hid, hmsg, hknows⟩ := ha id w hw
  refine ⟨m, hid, hmsg, ?_⟩
  unfold State.Knows Shared.publishedMessages at hknows ⊢
  simp only [hqueue, hwire, gather_snoc, hcarried, add_zero]
  exact hknows

theorem accounted_move (ha : Accounted s) {sh : Shared} {t : ℕ} {τ τ' : Task}
    (ht : s.tasks[t]? = some τ) (hc : Carries s.shared sh τ τ') :
    Accounted ⟨sh, s.tasks.set t τ'⟩ := by
  have hhand : ∀ m, m ∈ τ'.carried → m ∈ gather Task.carried (s.tasks.set t τ') := by
    intro m hm
    exact mem_gather_of_getElem? _ (getElem?_set_moved ht) hm
  intro id w hw
  rcases hc.waiting id w hw with hw | ⟨m, hm, hid, hmsg⟩
  · obtain ⟨m, hid, hmsg, hknows⟩ := ha id w hw
    refine ⟨m, hid, hmsg, ?_⟩
    have hplace : m ∈ sh.queue ∨ m ∈ τ'.carried → State.Knows ⟨sh, s.tasks.set t τ'⟩ m :=
      fun h => h.imp_right fun h => Or.inl (hhand m h)
    rcases hknows with hknows | hknows | hknows
    · exact hplace (hc.messages m (Or.inl hknows))
    · have hset := gather_set Task.carried τ' ht
      have hmem : m ∈ gather Task.carried (s.tasks.set t τ') + τ.carried := by
        rw [hset]
        exact Multiset.mem_add.mpr (Or.inl hknows)
      rcases Multiset.mem_add.mp hmem with hmem | hmem
      · exact Or.inr (Or.inl hmem)
      · exact hplace (hc.messages m (Or.inr hmem))
    · exact Or.inr (Or.inr (by rw [hc.published]; exact hknows))
  · exact ⟨m, hid, hmsg, Or.inr (Or.inl (hhand m hm))⟩

/-- What the frame adds to the messages on the wire. -/
theorem publishedMessages_write {sh : Shared} {messages : List ClientMessage}
    {result : PublishResult} (hresult : result ≠ .failed) :
    (result.write sh (cfg.frame messages)).publishedMessages =
      sh.publishedMessages ++ messages.map ClientMessage.toPublished := by
  cases result with
  | ok | failedWritten =>
    simp only [PublishResult.write, Shared.publishedMessages, List.flatMap_append,
      List.flatMap_cons, List.flatMap_nil, List.append_nil, Config.frame]
  | failed => exact absurd rfl hresult

/-- The messages of the frame leave the hands of the task and are on the wire, or nothing is written
and there are none. -/
theorem accounted_publish (ha : Accounted s) {t : ℕ} {owner : Owner}
    {messages : List ClientMessage} {result : PublishResult}
    (ht : s.tasks[t]? = some (.publish owner messages))
    (hkeeps : result = .failed → messages = []) :
    Accounted ⟨result.write s.shared (cfg.frame messages),
      s.tasks.set t (owner.finish (result = .ok))⟩ := by
  have hset := gather_set Task.carried (owner.finish (result = .ok)) ht
  rw [Owner.finish_carried, add_zero] at hset
  have hwait : (result.write s.shared (cfg.frame messages)).waitingConfirmations =
      s.shared.waitingConfirmations := by cases result <;> rfl
  have hqueue := (write_frame result s.shared (cfg.frame messages)).2.2.2
  -- what was on the wire is still there, and so are now the messages of the frame
  have hwire : ∀ m : ClientMessage, m.toPublished ∈ s.shared.publishedMessages ∨
      m ∈ messages → m.toPublished ∈
        (result.write s.shared (cfg.frame messages)).publishedMessages := by
    intro m hm
    by_cases hresult : result = .failed
    · rw [hkeeps hresult] at hm
      subst hresult
      exact hm.resolve_right (by simp)
    · rw [publishedMessages_write hresult]
      exact List.mem_append.mpr (hm.imp_right fun h => List.mem_map.mpr ⟨m, h, rfl⟩)
  intro id w hw
  simp only [hwait] at hw
  obtain ⟨m, hid, hmsg, hknows⟩ := ha id w hw
  refine ⟨m, hid, hmsg, ?_⟩
  rcases hknows with hknows | hknows | hknows
  · exact Or.inl (by simp only [hqueue]; exact hknows)
  · rw [← hset, Multiset.mem_add] at hknows
    rcases hknows with hknows | hknows
    · exact Or.inr (Or.inl hknows)
    · exact Or.inr (Or.inr (hwire m (Or.inr (by simpa [Task.carried] using hknows))))
  · exact Or.inr (Or.inr (hwire m (Or.inl hknows)))

theorem accounted_step {e : Event} (hkeeps : KeepsFrames s e) (ha : Accounted s)
    (h : step cfg s e = some s') : Accounted s' := by
  cases e with
  | send cb m | batchSend cb ms | close | confirm ids | error errs =>
    cases h
    exact accounted_spawn ha rfl rfl rfl rfl
  | move t =>
    obtain ⟨τ, sh, τ', ht, hmove, rfl⟩ := step_move h
    exact accounted_move ha ht (move_carries hmove)
  | publish t result =>
    obtain ⟨owner, messages, ht, rfl⟩ := step_publish h
    refine accounted_publish ha ht fun hresult => ?_
    subst hresult
    have hnone := hkeeps (.publish owner messages) ht
    exact (Multiset.coe_eq_zero messages).mp hnone

end Steps

/-- **No waiter is without a message** in a run in which no call of `Client::publish` that has
messages fails before its frame is written: in every state, the message of each waiter is in the
accumulator, in a call or a flush that has not returned, or in a frame on the wire.

By induction on the run.  That a message is known is kept by every step but a hand-over that fails
before the frame is written, and the condition leaves only those out whose frame has messages in
it. -/
theorem waiters_accounted (cfg : Config) (first : UInt64) (es : List Event) (s : State)
    (h : run (step cfg) (init first) es = some s)
    (hkeeps : Steps (step cfg) KeepsFrames (init first) es) :
    ∀ id w, s.shared.waitingConfirmations id = some w →
      ∃ m : ClientMessage, m.publishingId = id ∧ m.message = w.msg ∧
        (m ∈ s.shared.queue ∨ (∃ τ ∈ s.tasks, m ∈ τ.carried) ∨
          m.toPublished ∈ s.shared.publishedMessages) := by
  have hinit : Accounted (init first) := by
    intro id w hw
    exact absurd hw (by simp [init])
  have ha := run_invariant_steps (P := Accounted) (fun u e u' hC hP hs =>
    accounted_step hC hP hs) hkeeps hinit h
  intro id w hw
  obtain ⟨m, hid, hmsg, hknows⟩ := ha id w hw
  exact ⟨m, hid, hmsg, hknows.imp_right (Or.imp_left (mem_gather _).mp)⟩

/-- A message is sent and flushed by its sender, as far as the hand-over of the frame. -/
def sendAndFlush (m : Message) : List Event :=
  [.send 7 m, .move 1, .move 1, .move 1, .move 1, .move 1, .move 1, .move 1, .move 1, .move 1]

/-- The rule at a frame that fails after it has been written: its message is on the wire. -/
theorem waiters_accounted_failedWritten : ∃ s,
    run (step ⟨1, 1, 1, none⟩) (init 0)
      (sendAndFlush { message := {} } ++ [.publish 1 .failedWritten]) = some s ∧
    s.shared.waitingConfirmations 0 = some ⟨7, { message := {} }⟩ ∧
    ∃ m : ClientMessage, m.publishingId = 0 ∧ m.message = { message := {} } ∧
      (m ∈ s.shared.queue ∨ (∃ τ ∈ s.tasks, m ∈ τ.carried) ∨
        m.toPublished ∈ s.shared.publishedMessages) :=
  ⟨_, rfl, by decide +kernel, waiters_accounted ⟨1, 1, 1, none⟩ 0
    (sendAndFlush { message := {} } ++ [.publish 1 .failedWritten]) _ rfl (by decide +kernel)
    0 ⟨7, { message := {} }⟩ (by decide +kernel)⟩

/-- The flush fails and nothing is written: the call has returned with the error, the message
is nowhere, and its waiter is still there. -/
theorem waiters_accounted_failed_flush : ∃ s,
    run (step ⟨1, 1, 1, none⟩) (init 0)
      (sendAndFlush { message := {} } ++ [.publish 1 .failed]) = some s ∧
    s.tasks = [.tick, .returned false] ∧
    s.shared.waitingConfirmations 0 = some ⟨7, { message := {} }⟩ ∧
    s.shared.invocations = [] ∧
    ¬ ∃ m : ClientMessage, m.publishingId = 0 ∧
      (m ∈ s.shared.queue ∨ (∃ τ ∈ s.tasks, m ∈ τ.carried) ∨
        m.toPublished ∈ s.shared.publishedMessages) := by
  refine ⟨_, rfl, by decide +kernel, by decide +kernel, rfl, ?_⟩
  rintro ⟨m, -, hm | ⟨τ, hτ, hm⟩ | hm⟩
  · exact absurd hm (List.not_mem_nil)
  · have htasks : τ ∈ [Task.tick, .returned false] := hτ
    rcases List.mem_cons.mp htasks with rfl | hτ
    · exact absurd hm (by simp [Task.carried])
    · rw [List.mem_singleton.mp hτ] at hm
      exact absurd hm (by simp [Task.carried])
  · exact absurd hm (List.not_mem_nil)

end RabbitMqStream.Producer
