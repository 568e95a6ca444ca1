/-
# What is left in the accumulator when a producer is closed

`send` returns as soon as its message is in the accumulator.  `close` raises the flag and hands
the `DeletePublisher` request to the connection; it does not flush, and the request goes out in
front of whatever is still in the accumulator.

To say whose messages these are, the accumulator is followed through a run: which task has put
which message into it, in order, and how many have been taken out again.  The record is beside
the producer and does not influence it (`run_track`).

* `right_step`: the record is right, it is the content of the accumulator with the senders' tasks.
* `run_close_at_once`: with the flag down, `close` gets to its hand-over in one step of its own, and
  the accumulator is as it was.
* `refused_step`: with the flag up, it never gets there.
* `close_accepted_iff`: whatever the other tasks do, no message whose `send` had returned when
  `close` was called is left at the hand-over, exactly when there was none at the call or the flag
  was up.
* `close_accepted_left`: a run in which such a message is left.

**The argument.**  From the call on there are two cases.  With the flag up, `close` has failed, and
its task never comes to the hand-over (`refused_step`), so that there is nothing to show.  With
the flag down, what is in the accumulator later was there at the call, or was put there by a task
that had not returned then, since a task that has returned does not move (`Since.inside`).  So no
accepted message is there if none was at the call.  And if one was, then the run in which nobody
moves but `close` comes to the hand-over with that message still in its place
(`run_close_at_once`).
-/
import RabbitMqStream.Producer.Confirmation

namespace RabbitMqStream.Producer

open Lts Protocol

/-! ## 1. The accumulator followed

Beside the producer a list is kept of what was put in, each with the task that did it, and a
number of how many were taken out.  As the channel is first in, first out, what is left is the
end of the list. -/

/-- A producer, and what has gone through its accumulator. -/
structure Tracked : Type where
  state : State
  /-- The messages that were put in, each with the number of the task that did it. -/
  added : List (ℕ × ClientMessage) := []
  /-- How many were taken out. -/
  taken : ℕ := 0

/-- What an event puts into the accumulator. -/
def addedBy (s : State) : Event → List (ℕ × ClientMessage)
  | .move t =>
    match s.tasks[t]? with
    | some (.sendAdd msg) => [(t, msg)]
    | _ => []
  | _ => []

/-- How many messages an event takes out: one, when it is a `try_recv` that finds something. -/
def takenBy (cfg : Config) (s : State) : Event → ℕ
  | .move t =>
    match s.tasks[t]? with
    | some (.drain _ messages) =>
      if messages.length < cfg.batchSize.toNat ∧ s.shared.queue ≠ [] then 1 else 0
    | _ => 0
  | _ => 0

def track (cfg : Config) (s : Tracked) (e : Event) : Option Tracked :=
  (step cfg s.state e).map fun s' =>
    { state := s'
      added := s.added ++ addedBy s.state e
      taken := s.taken + takenBy cfg s.state e }

/-- What is in the accumulator, with the tasks it comes from. -/
def Tracked.inside (s : Tracked) : List (ℕ × ClientMessage) := s.added.drop s.taken

theorem track_eq_some {cfg : Config} {s u : Tracked} {e : Event} :
    track cfg s e = some u ↔ ∃ s', step cfg s.state e = some s' ∧
      u = { state := s'
            added := s.added ++ addedBy s.state e
            taken := s.taken + takenBy cfg s.state e } := by
  rw [track, Option.map_eq_some_iff]
  exact exists_congr fun s' => and_congr_right' eq_comm

/-- **Every run can be followed.** -/
theorem run_track (cfg : Config) {es : List Event} {s : Tracked} {s' : State}
    (h : run (step cfg) s.state es = some s') :
    ∃ u, run (track cfg) s es = some u ∧ u.state = s' := by
  induction es generalizing s with
  | nil => exact ⟨s, rfl, run_nil.mp h⟩
  | cons e es ih =>
    obtain ⟨s₁, he, h⟩ := run_cons.mp h
    obtain ⟨s₂, h₂, hstate₂⟩ : ∃ s₂, track cfg s e = some s₂ ∧ s₂.state = s₁ :=
      ⟨_, track_eq_some.mpr ⟨s₁, he, rfl⟩, rfl⟩
    obtain ⟨u, hu, hstate⟩ := ih (hstate₂ ▸ h)
    exact ⟨u, run_cons.mpr ⟨s₂, h₂, hu⟩, hstate⟩

/-! ## 2. What a step does to the accumulator

At most one message is put in or taken out in a step.  A task whose call has returned does
neither and does not change any more, so that what is known of it at one time is known of it for
good. -/

/-- A step leaves the accumulator alone, or puts one message in, or takes one out.  By cases on the
event, and for a task that moves on its operation: `send` on the channel puts in, a `try_recv` that
finds something takes out. -/
theorem queue_step {cfg : Config} {s s' : State} {e : Event} (h : step cfg s e = some s') :
    (s'.shared.queue = s.shared.queue ∧ addedBy s e = [] ∧ takenBy cfg s e = 0) ∨
    (∃ t msg, s.tasks[t]? = some (.sendAdd msg) ∧ s'.shared.queue = s.shared.queue ++ [msg] ∧
      addedBy s e = [(t, msg)] ∧ takenBy cfg s e = 0) ∨
    (∃ msg, s.shared.queue = msg :: s'.shared.queue ∧ addedBy s e = [] ∧
      takenBy cfg s e = 1) := by
  cases e with
  | send cb m | batchSend cb ms | close | confirm ids | error errs =>
    cases h
    exact Or.inl ⟨rfl, rfl, rfl⟩
  | publish t result =>
    obtain ⟨owner, messages, ht, rfl⟩ := step_publish h
    exact Or.inl ⟨(write_frame result s.shared (cfg.frame messages)).2.2.2, rfl, rfl⟩
  | move t =>
    obtain ⟨τ, sh, τ', ht, hmove, rfl⟩ := step_move h
    cases hmove with
    | @sendAdd msg hroom =>
      exact Or.inr (Or.inl ⟨t, msg, ht, rfl, by simp only [addedBy, ht],
        by simp only [takenBy, ht]⟩)
    | @pop owner messages msg rest hlt hq =>
      exact Or.inr (Or.inr ⟨msg, hq, by simp only [addedBy, ht],
        by simp [takenBy, ht, hlt, hq]⟩)
    | drained hend =>
      refine Or.inl ⟨rfl, by simp only [addedBy, ht], ?_⟩
      simp only [takenBy, ht]
      exact if_neg fun hc => hc.2 (hend hc.1)
    | sendDraw | batchDraw =>
      exact Or.inl ⟨(draw_frame s.shared _).2.1, by simp only [addedBy, ht],
        by simp only [takenBy, ht]⟩
    | _ => exact Or.inl ⟨rfl, by simp only [addedBy, ht], by simp only [takenBy, ht]⟩

/-- A call that has returned stays as it is. -/
theorem returned_step {cfg : Config} {s s' : State} {e : Event} {t : ℕ} {ok : Bool}
    (ht : s.tasks[t]? = some (.returned ok)) (h : step cfg s e = some s') :
    s'.tasks[t]? = some (.returned ok) := by
  cases e with
  | send cb m | batchSend cb ms | close | confirm ids | error errs =>
    cases h
    exact getElem?_snoc ht
  | move u =>
    obtain ⟨τ, sh, τ', hu, hmove, rfl⟩ := step_move h
    have hut : u ≠ t := by
      rintro rfl
      rw [ht, Option.some.injEq] at hu
      subst hu
      cases hmove
    exact (List.getElem?_set_ne hut).trans ht
  | publish u result =>
    obtain ⟨owner, messages, hu, rfl⟩ := step_publish h
    have hut : u ≠ t := by
      rintro rfl
      rw [ht, Option.some.injEq] at hu
      exact absurd hu (by simp)
    exact (List.getElem?_set_ne hut).trans ht

/-- The record says what is in the accumulator. -/
structure Tracked.Right (s : Tracked) : Prop where
  queue : s.state.shared.queue = s.inside.map Prod.snd
  taken : s.taken ≤ s.added.length

theorem right_step {cfg : Config} {s u : Tracked} {e : Event} (hr : s.Right)
    (h : track cfg s e = some u) : u.Right := by
  obtain ⟨s', hs, rfl⟩ := track_eq_some.mp h
  have hqueue := hr.queue
  have htaken := hr.taken
  unfold Tracked.inside at hqueue
  rcases queue_step hs with ⟨heq, hadd, htake⟩ | ⟨t, msg, -, heq, hadd, htake⟩ |
    ⟨msg, heq, hadd, htake⟩
  · rw [hadd, htake, List.append_nil]
    exact ⟨heq.trans hqueue, htaken⟩
  · rw [hadd, htake]
    refine ⟨?_, ?_⟩
    · unfold Tracked.inside
      simp only [heq, hqueue, Nat.add_zero, List.drop_append_of_le_length htaken, List.map_append]
      rfl
    · simp only [List.length_append]
      omega
  · have hlt : s.taken < s.added.length := by
      by_contra hge
      rw [List.drop_eq_nil_of_le (by omega), heq] at hqueue
      exact absurd hqueue (by simp)
    rw [hadd, htake, List.append_nil]
    rw [heq, List.drop_eq_getElem_cons hlt, List.map_cons, List.cons.injEq] at hqueue
    exact ⟨hqueue.2, hlt⟩

/-! ## 3. From the call of `close` on

The state at the call is fixed and the run goes on.  Whoever puts a message in has not returned
at that time, since only tasks that move do so. -/

/-- What has changed since the state `s`: messages were added, by tasks that had not returned
then, and messages were taken. -/
structure Since (s u : Tracked) : Prop where
  added : ∃ new, u.added = s.added ++ new ∧
    ∀ a ∈ new, ∀ ok, s.state.tasks[a.1]? ≠ some (.returned ok)
  taken : s.taken ≤ u.taken
  returned : ∀ (t : ℕ) (ok : Bool), s.state.tasks[t]? = some (.returned ok) →
    u.state.tasks[t]? = some (.returned ok)

theorem since_refl (s : Tracked) : Since s s :=
  ⟨⟨[], by simp, by simp⟩, Nat.le_refl _, fun _ _ h => h⟩

theorem since_step {cfg : Config} {s u v : Tracked} {e : Event} (hs : Since s u)
    (h : track cfg u e = some v) : Since s v := by
  obtain ⟨u', hu, rfl⟩ := track_eq_some.mp h
  obtain ⟨new, hnew, hreturned⟩ := hs.added
  refine ⟨⟨new ++ addedBy u.state e, ?_, ?_⟩, Nat.le_trans hs.taken (Nat.le_add_right _ _),
    fun t ok ht => returned_step (hs.returned t ok ht) hu⟩
  · rw [hnew, List.append_assoc]
  · intro a ha ok hok
    rcases List.mem_append.mp ha with ha | ha
    · exact hreturned a ha ok hok
    · rcases queue_step hu with ⟨-, hadd, -⟩ | ⟨t, msg, ht, -, hadd, -⟩ | ⟨msg, -, hadd, -⟩
      · rw [hadd] at ha
        exact absurd ha (by simp)
      · rw [hadd, List.mem_singleton] at ha
        subst ha
        -- the task was at the `send` on the channel, so it had not returned
        rw [hs.returned t ok hok] at ht
        exact absurd ht (by simp)
      · rw [hadd] at ha
        exact absurd ha (by simp)

/-- What is in the accumulator was there before, or was put in by a task that had not returned. -/
theorem Since.inside {s u : Tracked} (hs : Since s u) {a : ℕ × ClientMessage} (ha : a ∈ u.inside) :
    a ∈ s.inside ∨ ∀ ok, s.state.tasks[a.1]? ≠ some (.returned ok) := by
  obtain ⟨new, hnew, hreturned⟩ := hs.added
  rw [Tracked.inside, hnew, List.drop_append] at ha
  rcases List.mem_append.mp ha with ha | ha
  · exact Or.inl (List.drop_subset_drop_left s.added hs.taken ha)
  · exact Or.inr (hreturned a (List.mem_of_mem_drop ha))

/-! ## 4. A `close` that is refused

The flag is never lowered, and a `close` that finds it up fails.  The other case is a run of a
few steps that is written down: the flag is down, `close` raises it and is at its hand-over. -/

theorem draw_closed (s : Shared) (m : Message) : (s.draw m).1.closed = s.closed := by
  unfold Shared.draw
  split <;> rfl

theorem write_closed (result : PublishResult) (s : Shared) (cmd : PublishCommand) :
    (result.write s cmd).closed = s.closed := by
  cases result <;> rfl

/-- The flag stays up. -/
theorem closed_step {cfg : Config} {s s' : State} {e : Event} (hc : s.shared.closed = true)
    (h : step cfg s e = some s') : s'.shared.closed = true := by
  cases e with
  | send cb m | batchSend cb ms | close | confirm ids | error errs =>
    cases h
    exact hc
  | publish t result =>
    obtain ⟨owner, messages, -, rfl⟩ := step_publish h
    exact (write_closed result s.shared _).trans hc
  | move t =>
    obtain ⟨τ, sh, τ', -, hmove, rfl⟩ := step_move h
    cases hmove with
    | sendDraw | batchDraw => exact (draw_closed s.shared _).trans hc
    | closeFlag => rfl
    | _ => exact hc

/-- The flag is up and task `n` is a `close` that finds it up, or has found it up. -/
structure Refused (n : ℕ) (s : State) : Prop where
  closed : s.shared.closed = true
  task : s.tasks[n]? = some .closeFlag ∨ s.tasks[n]? = some (.returned false)

theorem refused_step {cfg : Config} {n : ℕ} {s s' : State} {e : Event} (hr : Refused n s)
    (h : step cfg s e = some s') : Refused n s' := by
  refine ⟨closed_step hr.closed h, ?_⟩
  rcases hr.task with htask | htask
  · cases e with
    | send cb m | batchSend cb ms | close | confirm ids | error errs =>
      cases h
      exact Or.inl (getElem?_snoc htask)
    | publish t result =>
      obtain ⟨owner, messages, ht, rfl⟩ := step_publish h
      have hne : t ≠ n := by
        rintro rfl
        cases ht.symm.trans htask
      exact Or.inl ((List.getElem?_set_ne hne).trans htask)
    | move t =>
      obtain ⟨τ, sh, τ', ht, hmove, rfl⟩ := step_move h
      by_cases hne : t = n
      · subst hne
        cases ht.symm.trans htask
        cases hmove with
        | closeRefused hc =>
          exact Or.inr (List.getElem?_set_self (List.getElem?_eq_some_iff.mp ht).1)
        | closeFlag hc => exact absurd (hr.closed.symm.trans hc) (by simp)
      · exact Or.inl ((List.getElem?_set_ne hne).trans htask)
  · exact Or.inr (returned_step htask h)

theorem refused_track {cfg : Config} {n : ℕ} {s u : Tracked} {e : Event}
    (hr : Refused n s.state) (h : track cfg s e = some u) : Refused n u.state := by
  obtain ⟨s', hs, rfl⟩ := track_eq_some.mp h
  exact refused_step hr hs

/-- The call of `close` alone. -/
theorem track_close (cfg : Config) (s : Tracked) :
    track cfg s .close = some { s with state := s.state.spawn Task.closeFlag } := by
  simp [track, step, addedBy, takenBy]

/-- With the flag down `close` can go on to its hand-over at once, and leaves the accumulator as it
is. -/
theorem run_close_at_once (cfg : Config) {s : Tracked} (hc : s.state.shared.closed = false) :
    ∃ u, run (track cfg) s [.close, .move s.state.tasks.length] = some u ∧
      u.state.tasks[s.state.tasks.length]? = some .deletePublisher ∧ u.inside = s.inside := by
  refine ⟨_, run_cons.mpr ⟨_, track_close cfg s, run_cons.mpr ⟨_, track_eq_some.mpr
    ⟨⟨{ s.state.shared with closed := true },
      (s.state.tasks ++ [Task.closeFlag]).set s.state.tasks.length .deletePublisher⟩, ?_, rfl⟩,
    rfl⟩⟩, ?_, ?_⟩
  · simp [step, State.spawn, advance, hc]
  · simp
  · simp [Tracked.inside, addedBy, takenBy, State.spawn]

/-! ## 5. What `close` leaves in the accumulator

The two halves of the equivalence come from the two lemmas of the sections above.  In the run of
`close_accepted_left` the condition fails: a `send` has returned, nobody has flushed, and the
request goes out in front of its message. -/

/-- **What `close` leaves in the accumulator.**  The run up to the call of `close` ends in `s`, and
later, in `u`, `close` is about to hand over its request.  Whatever the other tasks do between the
two, the accumulator then holds no message whose `send` had returned at the call, exactly when it
held none at the call, or the flag was up already and this `close` is refused.

`close` does nothing for the messages: when the flag is down it can get to its hand-over at once
(`run_close_at_once`), and what was in the accumulator is still there.  The other direction follows
what is put in after the call, which is of tasks that had not returned (`Since.inside`). -/
theorem close_accepted_iff (cfg : Config) (first : UInt64) (es : List Event) (s : Tracked)
    (hs : run (track cfg) { state := init first } es = some s) :
    (∀ es' u, run (track cfg) s (.close :: es') = some u →
      u.state.shared.queue = u.inside.map Prod.snd) ∧
    ((∀ es' u, run (track cfg) s (.close :: es') = some u →
        u.state.tasks[s.state.tasks.length]? = some .deletePublisher →
        ∀ a ∈ u.inside, s.state.tasks[a.1]? ≠ some (.returned true)) ↔
      s.state.shared.closed = true ∨
        ∀ a ∈ s.inside, s.state.tasks[a.1]? ≠ some (.returned true)) := by
  have hright : s.Right := run_invariant (P := Tracked.Right) (fun _ _ _ hr h => right_step hr h)
    ⟨rfl, Nat.le_refl _⟩ hs
  refine ⟨fun es' u hu => ?_, fun hkept => ?_, fun hstart es' u hu hclose a ha => ?_⟩
  · exact (run_invariant (P := Tracked.Right) (fun _ _ _ hr h => right_step hr h) hright hu).queue
  · by_cases hc : s.state.shared.closed = true
    · exact Or.inl hc
    · obtain ⟨u, hu, hclose, hinside⟩ := run_close_at_once cfg (by simpa using hc)
      exact Or.inr (hinside ▸ hkept _ u hu hclose)
  · rcases hstart with hc | hstart
    · obtain ⟨v, hv, hu⟩ := run_cons.mp hu
      obtain rfl := Option.some.inj ((track_close cfg s).symm.trans hv)
      have hcalled : Refused s.state.tasks.length (s.state.spawn .closeFlag) :=
        ⟨hc, Or.inl (List.getElem?_concat_length ..)⟩
      have hrefused := run_invariant (P := fun u : Tracked => Refused s.state.tasks.length u.state)
        (fun _ _ _ hr h => refused_track hr h) hcalled hu
      rcases hrefused.task with htask | htask <;> cases hclose.symm.trans htask
    · have hsince := run_invariant (P := Since s) (fun _ _ _ h he => since_step h he)
        (since_refl s) hu
      rcases hsince.inside ha with ha | hnew
      · exact hstart a ha
      · exact hnew true

/-- A message is sent, and its call returns. -/
def sendOnce (m : Message) : List Event :=
  [.send 7 m, .move 1, .move 1, .move 1, .move 1, .move 1]

/-- The timer takes the message out, and publishes it. -/
def flushOnce : List Event := [.move 0, .move 0, .move 0, .move 0, .move 0, .publish 0 .ok]

/-- The rule at a message that was flushed before the call. -/
theorem close_accepted_iff_flushed : ∃ s,
    run (track ⟨1, 100, 1, none⟩) { state := init 0 }
      (sendOnce { message := {} } ++ flushOnce) = some s ∧
    s.state.tasks[1]? = some (.returned true) ∧ s.state.shared.closed = false ∧
    ∀ es' u, run (track ⟨1, 100, 1, none⟩) s (.close :: es') = some u →
      u.state.tasks[2]? = some .deletePublisher →
      ∀ a ∈ u.inside, s.state.tasks[a.1]? ≠ some (.returned true) :=
  ⟨_, rfl, rfl, rfl, (close_accepted_iff ⟨1, 100, 1, none⟩ 0
    (sendOnce { message := {} } ++ flushOnce) _ rfl).2.mpr (Or.inr (by decide +kernel))⟩

/-- No flush comes between: `close` hands over its request in front of the message. -/
theorem close_accepted_left : ∃ s u,
    run (track ⟨1, 100, 1, none⟩) { state := init 0 } (sendOnce { message := {} }) = some s ∧
    run (track ⟨1, 100, 1, none⟩) s [.close, .move 2] = some u ∧
    u.state.tasks[s.state.tasks.length]? = some .deletePublisher ∧
    u.state.shared.queue = [⟨0, { message := {} }, none⟩] ∧
    ¬ ∀ a ∈ u.inside, s.state.tasks[a.1]? ≠ some (.returned true) := by
  refine ⟨_, _, rfl, rfl, by decide +kernel, by decide +kernel, fun h => ?_⟩
  exact h (1, ⟨0, { message := {} }, none⟩) (by decide +kernel) (by decide +kernel)

end RabbitMqStream.Producer
