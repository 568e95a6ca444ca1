/-
# When a batch call returns

The call that `BatchConfirm` follows returns when the broker has answered every message, in any
order and grouping.  The handlers are never held up, because the channel has room for a status for
each message; when they are through, the last waiter is gone and with it the sending half; and the
call takes what is in the channel and returns.

* `handler_step`: a handler makes its next step, and has one less to make.
* `sender_dead`: the channel ends when the last answer has been handled.
* `batch_confirmations_iff`: for which batches the call returns one status for each message.
* `emptyBatch_panics`: the empty one.

**The argument.** The steps that the handlers still have to make are counted (`work`).  While the
count is not zero some handler can move, as the channel has room for it (`room`), and every move
makes it smaller; so there is a way to a state in which it is zero.  There the channel has ended,
and the call can take the statuses out, one after the other.  The converse is a batch for which no
channel can be made, such as the empty one: `mpsc::channel` panics.
-/
import RabbitMqStream.Producer.BatchConfirm

namespace RabbitMqStream.Producer.BatchConfirm

open Lts Protocol

/-! ## 1. The answers are handled

A handler is never held up: what it takes is in the map, and there is room for what its callback
puts into the channel.  So the answers that have come are handled after finitely many steps. -/

/-- The steps that the handlers still have to make. -/
def work (p : Producer.State) : ℕ :=
  2 * (gather Task.todo p.tasks).card + (gather Task.inCall p.tasks).card

/-- The task has an answer to handle. -/
def Handles (τ : Task) : Prop := τ.todo ≠ 0 ∨ τ.inCall ≠ 0

/-- What a handler leaves as it was. -/
structure Handled (p p' : Producer.State) : Prop where
  held : p'.ledger.held = p.ledger.held
  registrations : p'.shared.registrations = p.shared.registrations
  answered : p'.shared.answered = p.shared.answered
  wire : p'.shared.wire = p.shared.wire
  returned : ∀ (t : ℕ) (ok : Bool), p.tasks[t]? = some (.returned ok) →
    p'.tasks[t]? = some (.returned ok)

section Handlers

variable {p p' p'' : Producer.State}

theorem Handled.refl (p : Producer.State) : Handled p p :=
  ⟨rfl, rfl, rfl, rfl, fun _ _ h => h⟩

theorem Handled.trans (h : Handled p p') (h' : Handled p' p'') : Handled p p'' where
  held := h'.held.trans h.held
  registrations := h'.registrations.trans h.registrations
  answered := h'.answered.trans h.answered
  wire := h'.wire.trans h.wire
  returned t ok ht := h'.returned t ok (h.returned t ok ht)

theorem Handled.orderly (h : Handled p p') (ho : Orderly p) : Orderly p' := by
  obtain ⟨hdistinct, hb⟩ := ho
  have hids : p'.ledger.ids = p.ledger.ids := congrArg (List.map Prod.fst) h.registrations
  refine ⟨?_, ?_, ?_⟩
  · rw [Distinct, h.held, hids]
    exact hdistinct
  · rw [h.answered]
    exact hb.once
  · rw [h.answered, Shared.publishedIds, h.wire]
    exact hb.published

/-- The task of a handler moves. -/
theorem handled_set {sh : Shared} {u : ℕ} {τ τ' : Task} (hu : p.tasks[u]? = some τ)
    (hτ : Handles τ) (hheld : τ'.held = τ.held)
    (hreg : sh.registrations = p.shared.registrations) (hans : sh.answered = p.shared.answered)
    (hwire : sh.wire = p.shared.wire) : Handled p ⟨sh, p.tasks.set u τ'⟩ := by
  refine ⟨gather_set_eq Task.held hu hheld, hreg, hans, hwire, fun t ok ht => ?_⟩
  have hne : u ≠ t := by
    rintro rfl
    rw [hu, Option.some.injEq] at ht
    subst ht
    exact hτ.elim (fun h => h rfl) (fun h => h rfl)
  exact (List.getElem?_set_ne hne).trans ht

/-- **A handler makes its next step**, and has one less to make.  An answer that is to be handled
finds its waiter, and a waiter that was found is called.  The first is one answer less to handle and
one waiter more in a call, so it counts for two. -/
theorem handler_moves (cfg : Config) (hl : Ledger.Inv Answer.publishingId p.ledger)
    (hb : BrokerHonest p) {u : ℕ} {τ : Task} (hu : p.tasks[u]? = some τ) (hτ : Handles τ) :
    ∃ p', Producer.step cfg p (.move u) = some p' ∧ Handled p p' ∧ work p' + 1 = work p := by
  cases τ with
  | handle answers =>
    cases answers with
    | nil => exact absurd hτ (by simp [Handles, Task.todo, Task.inCall])
    | cons a answers =>
      have htodo : a ∈ p.ledger.todo := mem_gather_of_getElem? _ hu (by simp [Task.todo])
      obtain ⟨w, hw, -⟩ := hl.finds_waiter hb.ledger htodo
      have hw' : p.shared.waitingConfirmations a.publishingId = some w := hw
      have hfirst := card_gather_set Task.todo (.callback a w answers) hu
      have hsecond := card_gather_set Task.inCall (.callback a w answers) hu
      have hstep : Producer.step cfg p (.move u) = some ⟨{ p.shared with
          waitingConfirmations :=
            Function.update p.shared.waitingConfirmations a.publishingId none },
          p.tasks.set u (.callback a w answers)⟩ := by
        simp only [Producer.step, hu, advance, hw']
      refine ⟨_, hstep, handled_set hu hτ rfl rfl rfl rfl, ?_⟩
      simp only [Task.todo, Task.inCall, Multiset.coe_card, List.length_cons,
        Multiset.card_singleton, Multiset.card_zero] at hfirst hsecond
      simp only [work]
      omega
  | callback a w answers =>
    have hfirst := card_gather_set Task.todo (.handle answers) hu
    have hsecond := card_gather_set Task.inCall (.handle answers) hu
    have hstep : Producer.step cfg p (.move u) = some ⟨{ p.shared with
        invocations := p.shared.invocations ++ [(w.cb, a.status w.msg)] },
        p.tasks.set u (.handle answers)⟩ := by
      simp only [Producer.step, hu, advance]
    refine ⟨_, hstep, handled_set hu hτ rfl rfl rfl rfl, ?_⟩
    simp only [Task.todo, Task.inCall, Multiset.coe_card, Multiset.card_singleton,
      Multiset.card_zero] at hfirst hsecond
    simp only [work]
    omega
  | _ => exact absurd hτ (by simp [Handles, Task.todo, Task.inCall])

/-- While there is work, some task has an answer to handle. -/
theorem exists_handler (h : work p ≠ 0) :
    ∃ (u : ℕ) (τ : Task), p.tasks[u]? = some τ ∧ Handles τ := by
  have hsome : ∃ τ ∈ p.tasks, Handles τ := by
    by_contra hnone
    simp only [Handles, not_exists, not_and, not_or, not_not] at hnone
    refine h ?_
    rw [work, (gather_eq_zero_iff _).mpr fun τ hτ => (hnone τ hτ).1,
      (gather_eq_zero_iff _).mpr fun τ hτ => (hnone τ hτ).2]
    rfl
  obtain ⟨τ, hmem, hτ⟩ := hsome
  obtain ⟨u, hu⟩ := List.mem_iff_getElem?.mp hmem
  exact ⟨u, τ, hu, hτ⟩

end Handlers

/-! ## 2. The call returns

First the handlers, then the call.  A handler that has to put a status into the channel finds
room for it, as the channel has been made with room for all; the call then takes them out one by
one and sees the end of the channel behind the last. -/

section Returning

variable {cfg : Config} {s : State}

/-- **There is room in the channel** for every waiter of the call. -/
theorem room {t u : ℕ} {a : Answer} {w : ProducerMessageWaiter} {answers : List Answer}
    (hf : Following s) (hb : BrokerHonest s.producer) (hcall : s.call = .running t)
    (hu : s.producer.tasks[u]? = some (.callback a w answers)) (hw : w.cb = collect) :
    s.channel.length < s.messages.length := by
  obtain ⟨τ, -, hs⟩ := hf.stage t hcall
  have hlt := invoked_lt_mine hf.ledger hb hu hw
  have hle := hs.length_le
  rw [hf.delivered t hcall, List.length_append] at hlt
  omega

/-- No handler is held up. -/
theorem handler_step (cfg : Config) (hf : Following s) (ho : Orderly s.producer) {u : ℕ}
    {τ : Task} (hu : s.producer.tasks[u]? = some τ) (hτ : Handles τ) :
    ∃ s', step cfg s (.producer (.move u)) = some s' ∧ Handled s.producer s'.producer ∧
      work s'.producer + 1 = work s.producer ∧ s'.call = s.call ∧ s'.messages = s.messages := by
  obtain ⟨p, hp, hhandled, hwork⟩ := handler_moves cfg hf.ledger ho.2 hu hτ
  cases hd : s.delivers (.move u) with
  | none =>
    refine ⟨{ s with producer := p }, ?_, hhandled, hwork, rfl, rfl⟩
    simp [step, callbackOf, hp, hd]
  | some status =>
    have hroom : s.channel.length < s.messages.length := by
      simp only [State.delivers] at hd
      split at hd
      · rename_i t a w answers hcall hcallback
        split at hd
        · rename_i hw
          exact room hf ho.2 hcall hcallback hw
        · exact absurd hd (by simp)
      · exact absurd hd (by simp)
    refine ⟨{ s with producer := p, channel := s.channel ++ [status] }, ?_, hhandled, hwork,
      rfl, rfl⟩
    simp [step, callbackOf, hp, hd, hroom]

/-- The handlers make all their steps. -/
theorem handlers_finish (cfg : Config) : ∀ (n : ℕ) {s : State}, Following s →
    Orderly s.producer → work s.producer = n →
    ∃ (us : List ℕ) (s' : State),
      run (step cfg) s (us.map fun u => .producer (.move u)) = some s' ∧ Following s' ∧
      Handled s.producer s'.producer ∧ work s'.producer = 0 ∧ s'.call = s.call ∧
      s'.messages = s.messages := by
  intro n
  induction n with
  | zero =>
    intro s hf _ hwork
    exact ⟨[], s, rfl, hf, Handled.refl _, hwork, rfl, rfl⟩
  | succ n ih =>
    intro s hf ho hwork
    obtain ⟨u, τ, hu, hτ⟩ := exists_handler (p := s.producer) (by omega)
    obtain ⟨s₁, hs₁, hhandled, hless, hcall, hms⟩ := handler_step cfg hf ho hu hτ
    have ho₁ := hhandled.orderly ho
    obtain ⟨us, s', hrun, hf', hrest, hzero, hcall', hms'⟩ :=
      ih (following_step hf ho ho₁ hs₁) ho₁ (by omega)
    exact ⟨u :: us, s', run_cons.mpr ⟨s₁, hs₁, hrun⟩, hf', hhandled.trans hrest, hzero,
      hcall'.trans hcall, hms'.trans hms⟩

/-- The publish has succeeded and the broker has answered each published id of the batch. -/
def Answered (s : State) : Prop :=
  (∃ t, s.call = .running t ∧ s.producer.tasks[t]? = some (.returned true)) ∧
  ∀ id ∈ s.producer.shared.publishedIds, id ∈ (mine s.producer.shared).map Prod.fst →
    id ∈ s.producer.shared.answered.map Answer.publishingId

/-- The handlers are through with the answers to the batch. -/
def Through (s : State) : Prop :=
  ∀ id ∈ (mine s.producer.shared).map Prod.fst,
    (∀ a ∈ s.producer.ledger.todo, a.publishingId ≠ id) ∧
    ∀ x ∈ s.producer.ledger.inCall, x.1.publishingId ≠ id

/-- Every answer has been handled, and nobody has the sending half any more.  A waiter of the call
has been published and answered, so its answer is in one of the three places of the ledger.  In the
first two no answer is left, and in the third the waiter is out of the map. -/
theorem sender_dead (hf : Following s) (ha : Answered s) (hth : Through s) :
    ¬ s.SenderAlive := by
  obtain ⟨⟨t, hcall, ht⟩, hanswered⟩ := ha
  obtain ⟨τ, ht', hs⟩ := hf.stage t hcall
  rw [ht, Option.some.injEq] at ht'
  subst ht'
  have hpublished : ∀ id ∈ (mine s.producer.shared).map Prod.fst,
      id ∈ s.producer.shared.publishedIds := by
    cases hs with
    | returned hle hok => exact (hok rfl).2
  rintro (⟨⟨id, w⟩, hreg, hw, hcb⟩ | ⟨τ, hτ, hcalling⟩)
  · have hid : id ∈ (mine s.producer.shared).map Prod.fst :=
      List.mem_map.mpr ⟨_, mem_mine.mpr ⟨hreg, hcb⟩, rfl⟩
    obtain ⟨a, ha, rfl⟩ := List.mem_map.mp (hanswered id (hpublished id hid) hid)
    rcases hf.ledger.place_of_answered ha with hin | ⟨v, hin⟩ | ⟨v, hc⟩
    · exact (hth _ hid).1 a hin rfl
    · exact (hth _ hid).2 _ hin rfl
    · -- its waiter has been called, so it is not in the map
      have hnone : s.producer.shared.waitingConfirmations a.publishingId = none :=
        hf.spent a v (Or.inr hc)
      simp only at hw
      rw [hnone] at hw
      exact absurd hw (by simp)
  · cases τ with
    | callback a w answers =>
      have hin : (a, w) ∈ s.producer.ledger.inCall :=
        (mem_gather _).mpr ⟨_, hτ, Multiset.mem_singleton_self _⟩
      have hmine := mem_mine.mpr ⟨hf.ledger.inCall_own a w hin, Option.some.inj hcalling⟩
      exact (hth _ (List.mem_map.mpr ⟨_, hmine, rfl⟩)).2 _ hin rfl
    | _ => exact absurd hcalling (by simp [calling])

/-- The call takes what is in the channel and returns. -/
theorem collects (cfg : Config) {t : ℕ} : ∀ (ch : List ConfirmationStatus) {s : State},
    s.channel = ch → Following s → Orderly s.producer → s.call = .running t →
    s.producer.tasks[t]? = some (.returned true) → ¬ s.SenderAlive →
    ∃ (s' : State) (confirmations : List ConfirmationStatus),
      run (step cfg) s (List.replicate (ch.length + 1) .recv) = some s' ∧
      s'.call = .returned confirmations ∧ Complete s.messages confirmations := by
  intro ch
  induction ch with
  | nil =>
    intro s hch hf ho hcall ht hdead
    refine ⟨{ s with call := .returned s.confirmations }, s.confirmations, ?_, rfl,
      complete_of_dead hf ho.2 hcall ht hch hdead⟩
    refine run_cons.mpr ⟨_, ?_, run_nil.mpr rfl⟩
    simp [step, hcall, ht, hch, hdead]
  | cons status rest ih =>
    intro s hch hf ho hcall ht hdead
    let s₁ : State := { s with channel := rest, confirmations := s.confirmations ++ [status] }
    have hstep : step cfg s .recv = some s₁ := by
      simp [step, hcall, ht, hch, s₁]
    have ho₁ : Orderly s₁.producer := ho
    have hf' := following_step hf ho ho₁ hstep
    obtain ⟨s', confirmations, hrun, hreturned, hcomplete⟩ := ih rfl hf' ho hcall ht hdead
    exact ⟨s', confirmations, run_cons.mpr ⟨_, hstep, hrun⟩, hreturned, hcomplete⟩

end Returning

/-! ## 3. Every batch

The promise holds in every state that a run can reach with the call under way.  What it asks for
is said of that state: that the broker has answered what the batch has published. -/

/-- What the caller of `do_batch_send_with_confirm` is promised, in a state in which the call has
been made. -/
structure Served (cfg : Config) (ms : List Message) (s : State) : Prop where
  alive : s.call ≠ .panicked
  /-- No handler is held up by the channel. -/
  handlers : ∀ (u : ℕ) (τ : Task), s.producer.tasks[u]? = some τ → Handles τ →
    ∃ s', step cfg s (.producer (.move u)) = some s'
  /-- When all is answered and the handlers are through, the call returns by itself. -/
  collects : Answered s → Through s → ∃ (k : ℕ) (s' : State)
    (confirmations : List ConfirmationStatus),
      run (step cfg) s (List.replicate k .recv) = some s' ∧
        s'.call = .returned confirmations ∧ Complete ms confirmations
  /-- When all is answered, the handlers can still finish, and then the call returns. -/
  returns : Answered s → ∃ (us : List ℕ) (k : ℕ) (s' : State)
    (confirmations : List ConfirmationStatus),
      run (step cfg) s ((us.map fun u => .producer (.move u)) ++ List.replicate k .recv) =
        some s' ∧ s'.call = .returned confirmations ∧ Complete ms confirmations
  /-- The call has not returned anything else. -/
  complete : ∀ confirmations, s.call = .returned confirmations → Complete ms confirmations

section Every

variable {cfg : Config} {s : State}

/-- A call that has been made with a batch for which there is a channel has not panicked. -/
theorem capacity_run {first : UInt64} {es : List Event}
    (h : run (step cfg) (start first) es = some s) (hcap : Capacity s.messages.length) :
    s.call ≠ .panicked := by
  have hinv : s.call = .panicked → ¬ Capacity s.messages.length := by
    refine run_invariant (P := fun u => u.call = .panicked → ¬ Capacity u.messages.length)
      (fun u e u' hP hs => ?_) (fun h => absurd h (by simp [start])) h
    cases step_cases hs with
    | panic hcall hcap => exact fun _ => hcap
    | producer | deliver | recv => exact hP
    | confirm | finish | fail => exact fun h => absurd h (by simp)
  exact fun hpanicked => hinv hpanicked hcap

theorem Handled.answered_state {s' : State} (h : Handled s.producer s'.producer)
    (hcall : s'.call = s.call) (ha : Answered s) : Answered s' := by
  obtain ⟨⟨t, hrunning, ht⟩, hall⟩ := ha
  refine ⟨⟨t, hcall.trans hrunning, h.returned t true ht⟩, ?_⟩
  rw [Shared.publishedIds, h.wire, mine, h.registrations, h.answered]
  exact hall

theorem through_of_work {s : State} (h : work s.producer = 0) : Through s := by
  have htodo : s.producer.ledger.todo = 0 := Multiset.card_eq_zero.mp (by
    simp only [work] at h
    simp only [State.ledger]
    omega)
  have hin : s.producer.ledger.inCall = 0 := Multiset.card_eq_zero.mp (by
    simp only [work] at h
    simp only [State.ledger]
    omega)
  intro id _
  rw [htodo, hin]
  exact ⟨fun a ha => absurd ha (Multiset.notMem_zero a),
    fun x hx => absurd hx (Multiset.notMem_zero x)⟩

theorem served_of_following (cfg : Config) (hf : Following s) (ho : Orderly s.producer)
    (halive : s.call ≠ .panicked) : Served cfg s.messages s where
  alive := halive
  handlers u τ hu hτ := by
    obtain ⟨s', hs', -⟩ := handler_step cfg hf ho hu hτ
    exact ⟨s', hs'⟩
  collects ha hth := by
    obtain ⟨⟨t, hcall, ht⟩, -⟩ := id ha
    exact ⟨_, collects cfg s.channel rfl hf ho hcall ht (sender_dead hf ha hth)⟩
  returns ha := by
    obtain ⟨us, s₁, hrun₁, hf₁, hhandled, hzero, hcall₁, hms₁⟩ :=
      handlers_finish cfg _ hf ho rfl
    have ha₁ := hhandled.answered_state hcall₁ ha
    obtain ⟨⟨t, hcall, ht⟩, -⟩ := id ha₁
    obtain ⟨s', confirmations, hrun, hreturned, hcomplete⟩ := collects cfg s₁.channel rfl hf₁
      (hhandled.orderly ho) hcall ht (sender_dead hf₁ ha₁ (through_of_work hzero))
    rw [hms₁] at hcomplete
    refine ⟨us, s₁.channel.length + 1, s', confirmations, ?_, hreturned, hcomplete⟩
    rw [run_append, hrun₁]
    exact hrun
  complete := hf.returned

end Every

/-- **For which batches the call returns one status for each message**: for those for which a
channel can be made.

The run is any run of the producer with any number of other calls, in which the ids are all
different and the broker answers only what it has received, and answers it once.

From left to right, the promise is looked at in the run that consists of the call alone.  From
right to left, the invariant of `BatchConfirm` holds in the state that has been reached, and the
promise follows from it by counting down the work. -/
theorem batch_confirmations_iff (cfg : Config) (first : UInt64) (ms : List Message) :
    (∀ (es : List Event) (s : State), run (step cfg) (start first) es = some s →
      Along (step cfg) (fun u => Orderly u.producer) (start first) es →
      s.call ≠ .notCalled → s.messages = ms → Served cfg ms s) ↔ Capacity ms.length := by
  constructor
  · intro h
    by_contra hcap
    have hrun : run (step cfg) (start first) [.confirm ms] =
        some { start first with messages := ms, call := .panicked } := by
      simp [run, step, start, hcap]
    have ho : Orderly (init first) := by
      refine ⟨?_, by simp [init], by simp [init]⟩
      simp [Distinct, ledger_init, Ledger.empty, Ledger.ids]
    have hserved := h _ _ hrun ⟨ho, fun s' hs' => ?_⟩ (by simp) rfl
    · exact hserved.alive rfl
    · rw [run_cons] at hrun
      obtain ⟨s₁, hs₁, hnil⟩ := hrun
      rw [hs', Option.some.injEq] at hs₁
      rw [hs₁, run_nil.mp hnil]
      exact ho
  · rintro hcap es s hrun ho - rfl
    exact served_of_following cfg (following_run hrun ho) (ho.last hrun) (capacity_run hrun hcap)

/-- Two messages, confirmed in one frame in the other order, with the second call of the callback
before the first `recv`. -/
def confirmedTwice (m : Message) : List Event :=
  let move (t : ℕ) : Event := .producer (.move t)
  [.confirm [m, m], move 1, move 1, move 1, move 1, move 1, move 1, .producer (.publish 1 .ok),
    .producer (.confirm [1, 0]), move 2, move 2, move 2, move 2, .recv, .recv, .recv]

example : (run (step ⟨1, 100, 1, none⟩) (start 0) (confirmedTwice { message := {} })).map
    State.call = some (.returned [⟨1, true, .ok, { message := {} }⟩,
      ⟨0, true, .ok, { message := {} }⟩]) := by
  decide +kernel

/-- The panic is the end of the call. -/
theorem panicked_stays {cfg : Config} {es : List Event} {s s' : State}
    (hp : s.call = .panicked) (h : run (step cfg) s es = some s') : s'.call = .panicked := by
  refine run_invariant (P := fun u => u.call = .panicked) (fun u e u' hu hs => ?_) hp h
  cases step_cases hs with
  | confirm hcall | recv hcall | finish hcall | fail hcall =>
    rw [hu] at hcall
    exact absurd hcall (by simp)
  | panic => rfl
  | producer | deliver => exact hu

/-- The empty batch: the call panics, and returns nothing however the run goes on. -/
theorem emptyBatch_panics : ∃ s,
    run (step ⟨1, 100, 1, none⟩) (start 0) [.confirm []] = some s ∧ s.call = .panicked ∧
    ∀ (es : List Event) (s' : State), run (step ⟨1, 100, 1, none⟩) s es = some s' →
      ∀ confirmations, s'.call ≠ .returned confirmations := by
  refine ⟨_, rfl, rfl, fun es s' h confirmations hreturned => ?_⟩
  rw [panicked_stays rfl h] at hreturned
  exact absurd hreturned (by simp)

end RabbitMqStream.Producer.BatchConfirm
