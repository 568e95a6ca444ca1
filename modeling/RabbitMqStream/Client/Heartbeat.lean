/-
# The life of the heartbeat

A client tells the broker that it is there by a task of its own, which hands over a `Heartbeat`
frame, sleeps and begins again.  `initialize` starts it; a `Tune` frame may come at any time and
restarts it with another interval; `close` takes it.  A task whose handle is dropped is aborted:
it is not polled any more, but a poll that has begun may still hand over its frame.

`Handshake` only knows whether there is such a task.  Here are the tasks.

* `heartbeat_life`: when there is one, over any run: from the start on, until the broker tunes the
  heartbeat to zero or a call of `close` takes it.  There is never more than one, and its interval
  is half of the heartbeat that was negotiated last.
* `heartbeat_ends`: once it has ended it is not started again, and no frame comes but those that
  were on their way.
* `handshake_heartbeat`: every run of `connect` is one of these runs.

**The argument.**  There are three kinds of events that matter: the start, a `Tune` frame, and a
`close` that takes the handle.  Over them the life of the heartbeat is a small automaton, with the
value that was negotiated last beside it (`step_next`), and what has happened so far decides its
state (`unborn_foldl_iff`).  The tasks are tied to it by an invariant: the task with the handle
goes on and no other does, because dropping a handle aborts its task before another one is spawned
(`dropTask_aborted`).
-/
import RabbitMqStream.Client.Handshake

namespace RabbitMqStream.Client.Heartbeat

open Lts Protocol
open Handshake (guest connecting)

/-! ## 1. The tasks

A task may be in a poll, at the hand-over of its frame, and it may be aborted.  The handle is
the number of a task, and dropping it aborts the task without waiting for the end of its poll. -/

/-- A task that was spawned by `start_hearbeat_task`. -/
structure Beater : Type where
  /-- Seconds. -/
  interval : UInt32
  /-- In a poll, at the hand-over of its frame. -/
  sending : Bool := false
  aborted : Bool := false
  deriving DecidableEq

structure State : Type where
  heartbeat : UInt32
  maxFrameSize : UInt32
  /-- The task that the handle in `ClientState` belongs to. -/
  heartbeatTask : Option ℕ := none
  /-- `initialize` has called `start_hearbeat_task`. -/
  started : Bool := false
  /-- A reply to a `Tune` frame that is to be handed over. -/
  replying : Option TunesCommand := none
  beaters : List Beater := []
  -- A record of what has happened:
  wire : List RequestKind := []

def init (opts : ClientOptions) : State :=
  ⟨opts.heartbeat, opts.maxFrameSize, none, false, none, [], []⟩

def Beater.abort (b : Beater) : Beater := { b with aborted := true }

/-- `Drop` of the `TaskHandle`, if there is one. -/
def State.dropTask (s : State) : State :=
  match s.heartbeatTask with
  | some n => { s with heartbeatTask := none, beaters := s.beaters.modify n Beater.abort }
  | none => s

/-- `start_hearbeat_task`. -/
def State.startHearbeatTask (s : State) : State :=
  if s.heartbeat = 0 then s
  else
    let s := s.dropTask
    { s with
      heartbeatTask := some s.beaters.length
      beaters := s.beaters ++ [{ interval := max (s.heartbeat / 2) 1 }] }

def State.negotiate (s : State) (tune : TunesCommand) : State :=
  { s with
    heartbeat := tune.heartbeat
    maxFrameSize := tune.maxFrameSize
    replying := some tune }

/-- What `handle_tune_command` does under the lock. -/
def State.tuned (s : State) (tune : TunesCommand) : State :=
  if s.heartbeatTask.isSome then (s.negotiate tune).dropTask.startHearbeatTask
  else s.negotiate tune

inductive Event : Type where
  /-- `initialize` starts the task. -/
  | start
  /-- A `Tune` frame is negotiated. -/
  | tune (tunes : TunesCommand)
  /-- The reply is handed over. -/
  | reply
  /-- A call of `close` takes the task. -/
  | take
  /-- Task `n` is polled. -/
  | poll (n : ℕ)
  /-- It hands over its frame and goes to sleep. -/
  | beat (n : ℕ)
  /-- It is dropped in the middle of the hand-over. -/
  | cancel (n : ℕ)
  deriving DecidableEq

def step (opts : ClientOptions) (s : State) : Event → Option State
  | .start => if s.started then none else some { s with started := true }.startHearbeatTask
  | .tune tunes => if s.replying = none then some (s.tuned (opts.tune tunes)) else none
  | .reply =>
    match s.replying with
    | some tune => some { s with replying := none, wire := s.wire ++ [.tunes tune] }
    | none => none
  | .take => if s.started then some s.dropTask else none
  | .poll n =>
    match s.beaters[n]? with
    | some ⟨interval, false, false⟩ =>
      some { s with beaters := s.beaters.set n ⟨interval, true, false⟩ }
    | _ => none
  | .beat n =>
    match s.beaters[n]? with
    | some ⟨interval, true, aborted⟩ => some { s with
        beaters := s.beaters.set n ⟨interval, false, aborted⟩
        wire := s.wire ++ [.heartbeat {}] }
    | _ => none
  | .cancel n =>
    match s.beaters[n]? with
    | some ⟨interval, true, true⟩ =>
      some { s with beaters := s.beaters.set n ⟨interval, false, true⟩ }
    | _ => none

/-! ## 2. What a step does

The steps as a relation.  Only a start, a `Tune` frame and a `close` touch the handle. -/

inductive Step (opts : ClientOptions) (s : State) : Event → State → Prop where
  | start (hs : s.started = false) :
      Step opts s .start { s with started := true }.startHearbeatTask
  | tune {tunes : TunesCommand} (hr : s.replying = none) :
      Step opts s (.tune tunes) (s.tuned (opts.tune tunes))
  | reply {tune : TunesCommand} (hr : s.replying = some tune) :
      Step opts s .reply { s with replying := none, wire := s.wire ++ [.tunes tune] }
  | take (hs : s.started = true) : Step opts s .take s.dropTask
  | poll {n : ℕ} {interval : UInt32} (hn : s.beaters[n]? = some ⟨interval, false, false⟩) :
      Step opts s (.poll n) { s with beaters := s.beaters.set n ⟨interval, true, false⟩ }
  | beat {n : ℕ} {interval : UInt32} {aborted : Bool}
      (hn : s.beaters[n]? = some ⟨interval, true, aborted⟩) :
      Step opts s (.beat n) { s with
        beaters := s.beaters.set n ⟨interval, false, aborted⟩
        wire := s.wire ++ [.heartbeat {}] }
  | cancel {n : ℕ} {interval : UInt32} (hn : s.beaters[n]? = some ⟨interval, true, true⟩) :
      Step opts s (.cancel n) { s with beaters := s.beaters.set n ⟨interval, false, true⟩ }

theorem step_cases {opts : ClientOptions} {s s' : State} {e : Event}
    (h : step opts s e = some s') : Step opts s e s' := by
  cases e with
  | start =>
    simp only [step] at h
    split at h
    · exact absurd h (by simp)
    · rename_i hs
      cases h
      exact .start (by simpa using hs)
  | tune tunes =>
    simp only [step] at h
    split at h
    · rename_i hr
      cases h
      exact .tune hr
    · exact absurd h (by simp)
  | reply =>
    simp only [step] at h
    split at h
    · rename_i tune hr
      cases h
      exact .reply hr
    · exact absurd h (by simp)
  | take =>
    simp only [step] at h
    split at h
    · rename_i hs
      cases h
      exact .take hs
    · exact absurd h (by simp)
  | poll n =>
    simp only [step] at h
    split at h
    · rename_i interval hn
      cases h
      exact .poll hn
    · exact absurd h (by simp)
  | beat n =>
    simp only [step] at h
    split at h
    · rename_i interval aborted hn
      cases h
      exact .beat hn
    · exact absurd h (by simp)
  | cancel n =>
    simp only [step] at h
    split at h
    · rename_i interval hn
      cases h
      exact .cancel hn
    · exact absurd h (by simp)

/-! ## 3. At most one task

A new task is spawned when the handle has been dropped, so the one before does not go on.  It
may still hand over the frame that it has in its hands. -/

/-- A task that goes on is the one with the handle. -/
def State.Alone (s : State) : Prop :=
  ∀ (n : ℕ) (b : Beater), s.beaters[n]? = some b → b.aborted = false → s.heartbeatTask = some n

/-- The task with the handle is the only one that goes on, and has the right interval. -/
structure Inv (s : State) : Prop where
  alone : s.Alone
  running : ∀ n : ℕ, s.heartbeatTask = some n → s.started = true ∧ s.heartbeat ≠ 0 ∧
    ∃ b, s.beaters[n]? = some b ∧ b.aborted = false ∧ b.interval = max (s.heartbeat / 2) 1

theorem inv_init (opts : ClientOptions) : Inv (init opts) :=
  ⟨fun n b hn => absurd hn (by simp [init]), fun n hn => absurd hn (by simp [init])⟩

section Drop

variable (s : State)

@[simp] theorem dropTask_heartbeatTask : s.dropTask.heartbeatTask = none := by
  unfold State.dropTask
  split
  · rfl
  · assumption

@[simp] theorem dropTask_started : s.dropTask.started = s.started := by
  unfold State.dropTask
  split <;> rfl

@[simp] theorem dropTask_heartbeat : s.dropTask.heartbeat = s.heartbeat := by
  unfold State.dropTask
  split <;> rfl

@[simp] theorem dropTask_replying : s.dropTask.replying = s.replying := by
  unfold State.dropTask
  split <;> rfl

@[simp] theorem dropTask_maxFrameSize : s.dropTask.maxFrameSize = s.maxFrameSize := by
  unfold State.dropTask
  split <;> rfl

@[simp] theorem dropTask_wire : s.dropTask.wire = s.wire := by
  unfold State.dropTask
  split <;> rfl

@[simp] theorem dropTask_length : s.dropTask.beaters.length = s.beaters.length := by
  unfold State.dropTask
  split
  · exact List.length_modify ..
  · rfl

variable {s}

theorem dropTask_of_none (h : s.heartbeatTask = none) : s.dropTask = s := by
  rw [State.dropTask, h]

/-- **When the handle is dropped no task goes on.** -/
theorem dropTask_aborted (halone : s.Alone) :
    ∀ (n : ℕ) (b : Beater), s.dropTask.beaters[n]? = some b → b.aborted = true := by
  intro n b hn
  unfold State.dropTask at hn
  split at hn
  · rename_i m hm
    simp only at hn
    rw [List.getElem?_modify, Option.map_eq_map, Option.map_eq_some_iff] at hn
    obtain ⟨c, hc, hb⟩ := hn
    by_cases hnm : m = n
    · rw [if_pos hnm] at hb
      rw [← hb]
      rfl
    · rw [if_neg hnm] at hb
      subst hb
      by_contra hlive
      have hn := halone n c hc (by simpa using hlive)
      rw [hm, Option.some.injEq] at hn
      exact hnm hn
  · rename_i hnone
    by_contra hlive
    have hm := halone n b hn (by simpa using hlive)
    rw [hnone] at hm
    exact absurd hm (by simp)

end Drop

section Start

variable {s : State}

/-- `start_hearbeat_task`: the new task is the only one that goes on. -/
theorem inv_startHearbeatTask (hs : s.started = true) (halone : s.Alone)
    (hnone : s.heartbeatTask = none) : Inv s.startHearbeatTask := by
  unfold State.startHearbeatTask
  split
  · exact ⟨halone, fun n hn => absurd hn (by simp [hnone])⟩
  · rename_i hne
    constructor
    · intro n b hn hlive
      rcases getElem?_of_snoc hn with hold | ⟨rfl, -⟩
      · rw [dropTask_aborted halone n b hold] at hlive
        exact absurd hlive (by simp)
      · rfl
    · intro n hn
      obtain rfl := Option.some.inj hn
      refine ⟨by simpa using hs, by simpa using hne, _, List.getElem?_concat_length, rfl, ?_⟩
      simp

theorem inv_dropTask (hi : Inv s) : Inv s.dropTask := by
  refine ⟨fun n b hn hlive => ?_, fun n hn => absurd hn (by simp)⟩
  rw [dropTask_aborted hi.alone n b hn] at hlive
  exact absurd hlive (by simp)

end Start

/-- Nothing but the phase of a task changes. -/
theorem inv_set {s : State} (hi : Inv s) {n : ℕ} {b : Beater} (b' : Beater)
    (hn : s.beaters[n]? = some b) (haborted : b'.aborted = b.aborted)
    (hinterval : b'.interval = b.interval) (wire : List RequestKind) :
    Inv { s with beaters := s.beaters.set n b', wire := wire } where
  alone m c hm hlive := by
    rcases getElem?_of_set hm with ⟨rfl, rfl⟩ | ⟨-, hm⟩
    · exact hi.alone m b hn (haborted ▸ hlive)
    · exact hi.alone m c hm hlive
  running m hm := by
    obtain ⟨hs, hne, c, hc, hlive, hint⟩ := hi.running m hm
    refine ⟨hs, hne, ?_⟩
    by_cases hnm : n = m
    · subst hnm
      rw [hn, Option.some.injEq] at hc
      subst hc
      exact ⟨b', getElem?_set_moved hn, haborted.trans hlive, hinterval.trans hint⟩
    · exact ⟨c, (List.getElem?_set_ne hnm).trans hc, hlive, hint⟩

theorem Inv.task_of_unstarted {s : State} (hi : Inv s) (hs : s.started = false) :
    s.heartbeatTask = none := by
  by_contra hsome
  obtain ⟨n, hn⟩ := Option.ne_none_iff_exists'.mp hsome
  rw [(hi.running n hn).1] at hs
  exact absurd hs (by simp)

theorem inv_step {opts : ClientOptions} {s s' : State} {e : Event} (hi : Inv s)
    (h : step opts s e = some s') : Inv s' := by
  cases step_cases h with
  | start hs =>
    exact inv_startHearbeatTask rfl hi.alone (hi.task_of_unstarted hs)
  | @tune tunes hr =>
    unfold State.tuned
    split
    · rename_i hsome
      obtain ⟨n, hn⟩ := Option.isSome_iff_exists.mp hsome
      have halone : (s.negotiate (opts.tune tunes)).Alone := hi.alone
      refine inv_startHearbeatTask ?_ (fun m b hm hlive => ?_) (dropTask_heartbeatTask _)
      · rw [dropTask_started]
        exact (hi.running n hn).1
      · rw [dropTask_aborted halone m b hm] at hlive
        exact absurd hlive (by simp)
    · rename_i hnone
      have htask : s.heartbeatTask = none := by simpa using hnone
      refine ⟨hi.alone, fun n hn => ?_⟩
      rw [show s.heartbeatTask = some n from hn] at htask
      exact absurd htask (by simp)
  | reply hr => exact ⟨hi.alone, hi.running⟩
  | take hs => exact inv_dropTask hi
  | poll hn | beat hn | cancel hn => refine inv_set hi _ hn ?_ ?_ _ <;> rfl

/-! ## 4. When there is one

A heartbeat begins with the start, and each `Tune` frame and each `close` may end it. -/

inductive Life : Type where
  | unborn
  | beating
  | ended
  deriving DecidableEq

def State.life (s : State) : Life :=
  if s.started then if s.heartbeatTask.isSome then .beating else .ended else .unborn

/-- The life of a heartbeat, and the value that was negotiated last. -/
def next (opts : ClientOptions) : Life × UInt32 → Event → Life × UInt32
  | (.unborn, heartbeat), .start => (if heartbeat = 0 then .ended else .beating, heartbeat)
  | (.beating, heartbeat), .take => (.ended, heartbeat)
  | (.beating, _), .tune tunes =>
    (if (opts.tune tunes).heartbeat = 0 then .ended else .beating, (opts.tune tunes).heartbeat)
  | (life, _), .tune tunes => (life, (opts.tune tunes).heartbeat)
  | x, _ => x

/-- The value that was negotiated last. -/
def negotiated (opts : ClientOptions) (heartbeat : UInt32) (es : List Event) : UInt32 :=
  es.foldl (fun heartbeat e =>
    match e with
    | .tune tunes => (opts.tune tunes).heartbeat
    | _ => heartbeat) heartbeat

/-- The event leaves a heartbeat alive. -/
def Sustains (opts : ClientOptions) : Event → Prop
  | .take => False
  | .tune tunes => (opts.tune tunes).heartbeat ≠ 0
  | _ => True

instance (opts : ClientOptions) : DecidablePred (Sustains opts)
  | .take => inferInstanceAs (Decidable False)
  | .tune tunes => inferInstanceAs (Decidable ((opts.tune tunes).heartbeat ≠ 0))
  | .start | .reply | .poll _ | .beat _ | .cancel _ => inferInstanceAs (Decidable True)

theorem startHearbeatTask_life (s : State) (hs : s.started = true)
    (hnone : s.heartbeatTask = none) :
    s.startHearbeatTask.life = (if s.heartbeat = 0 then .ended else .beating) ∧
      s.startHearbeatTask.heartbeat = s.heartbeat := by
  unfold State.startHearbeatTask
  split
  · exact ⟨by simp [State.life, hs, hnone], rfl⟩
  · exact ⟨by simp [State.life, hs], by simp⟩

/-- **The heartbeat has this life.** By cases on the step.  A `Tune` frame starts a task only where
there was one before it, and with a heartbeat of zero none is started, which is an end. -/
theorem step_next {opts : ClientOptions} {s s' : State} {e : Event} (hi : Inv s)
    (h : step opts s e = some s') :
    (s'.life, s'.heartbeat) = next opts (s.life, s.heartbeat) e := by
  cases step_cases h with
  | start hs =>
    obtain ⟨hlife, hheartbeat⟩ :=
      startHearbeatTask_life { s with started := true } rfl (hi.task_of_unstarted hs)
    rw [hlife, hheartbeat]
    simp [State.life, hs, next]
  | @tune tunes hr =>
    unfold State.tuned
    split
    · rename_i hsome
      obtain ⟨n, hn⟩ := Option.isSome_iff_exists.mp hsome
      have hs := (hi.running n hn).1
      obtain ⟨hlife, hheartbeat⟩ := startHearbeatTask_life (s.negotiate (opts.tune tunes)).dropTask
        ((dropTask_started _).trans hs) (dropTask_heartbeatTask _)
      rw [hlife, hheartbeat, dropTask_heartbeat]
      simp [State.life, hs, hsome, next, State.negotiate]
    · rename_i hnone
      have hlife : (s.negotiate (opts.tune tunes)).life = s.life := rfl
      have hnot : s.life ≠ .beating := by
        unfold State.life
        rw [if_neg hnone]
        split <;> simp
      rw [hlife]
      cases hl : s.life with
      | beating => exact absurd hl hnot
      | unborn | ended => rfl
  | take hs =>
    have hlife : s.dropTask.life = .ended := by simp [State.life, hs]
    rw [hlife, dropTask_heartbeat]
    unfold State.life
    rw [if_pos hs]
    split <;> rfl
  | reply | poll | beat | cancel =>
    show (s.life, s.heartbeat) = _
    cases s.life <;> rfl

/-- The same over a run. -/
theorem run_next {opts : ClientOptions} : ∀ {es : List Event} {s t : State}, Inv s →
    run (step opts) s es = some t →
      Inv t ∧ (t.life, t.heartbeat) = es.foldl (next opts) (s.life, s.heartbeat) := by
  intro es
  induction es with
  | nil =>
    intro s t hi h
    obtain rfl := run_nil.mp h
    exact ⟨hi, rfl⟩
  | cons e es ih =>
    intro s t hi h
    obtain ⟨s', hs', h⟩ := run_cons.mp h
    obtain ⟨hit, ht⟩ := ih (inv_step hi hs') h
    rw [step_next hi hs'] at ht
    exact ⟨hit, ht⟩

section Closed

variable {opts : ClientOptions}

theorem ended_foldl (es : List Event) (heartbeat : UInt32) :
    (es.foldl (next opts) (.ended, heartbeat)).1 = .ended := by
  induction es generalizing heartbeat with
  | nil => rfl
  | cons e es ih => cases e <;> exact ih _

theorem beating_foldl_iff (es : List Event) (heartbeat : UInt32) :
    (es.foldl (next opts) (.beating, heartbeat)).1 = .beating ↔ ∀ e ∈ es, Sustains opts e := by
  induction es generalizing heartbeat with
  | nil => simp
  | cons e es ih =>
    rw [List.foldl_cons, List.forall_mem_cons]
    cases e with
    | take => simp [next, ended_foldl, Sustains]
    | tune tunes =>
      by_cases hzero : (opts.tune tunes).heartbeat = 0
      · simp [next, hzero, ended_foldl, Sustains]
      · simp [next, hzero, ih, Sustains]
    | start | reply | poll | beat | cancel => simp [next, ih, Sustains]

/-- **When a heartbeat is alive**, in terms of what has happened.  By induction on the events up to
the first start, before which only the negotiated value changes.  Behind it a heartbeat is alive as
long as every event leaves it so. -/
theorem unborn_foldl_iff (es : List Event) (heartbeat : UInt32) :
    (es.foldl (next opts) (.unborn, heartbeat)).1 = .beating ↔
      ∃ pre post, es = pre ++ .start :: post ∧ .start ∉ pre ∧
        negotiated opts heartbeat pre ≠ 0 ∧ ∀ e ∈ post, Sustains opts e := by
  induction es generalizing heartbeat with
  | nil => simp
  | cons e es ih =>
    rw [List.foldl_cons]
    by_cases he : e = .start
    · subst he
      constructor
      · intro h
        by_cases hzero : heartbeat = 0
        · simp [next, hzero, ended_foldl] at h
        · refine ⟨[], es, rfl, List.not_mem_nil, hzero, ?_⟩
          rw [next, if_neg hzero, beating_foldl_iff] at h
          exact h
      · rintro ⟨pre, post, heq, hpre, hne, hpost⟩
        cases pre with
        | nil =>
          obtain rfl := (List.cons.inj heq).2
          have hpos : heartbeat ≠ 0 := hne
          rw [next, if_neg hpos, beating_foldl_iff]
          exact hpost
        | cons e pre =>
          obtain rfl := (List.cons.inj heq).1
          exact absurd List.mem_cons_self hpre
    · have hnext : next opts (.unborn, heartbeat) e =
          (.unborn, negotiated opts heartbeat [e]) := by
        cases e with
        | start => exact absurd rfl he
        | _ => rfl
      rw [hnext, ih]
      constructor
      · rintro ⟨pre, post, rfl, hpre, hne, hpost⟩
        refine ⟨e :: pre, post, rfl, ?_, hne, hpost⟩
        rw [List.mem_cons, not_or]
        exact ⟨Ne.symm he, hpre⟩
      · rintro ⟨pre, post, heq, hpre, hne, hpost⟩
        cases pre with
        | nil => exact absurd (List.cons.inj heq).1 he
        | cons d pre =>
          obtain ⟨rfl, rfl⟩ := List.cons.inj heq
          rw [List.mem_cons, not_or] at hpre
          exact ⟨pre, post, rfl, hpre.2, hne, hpost⟩

theorem foldl_negotiated (es : List Event) (life : Life) (heartbeat : UInt32) :
    (es.foldl (next opts) (life, heartbeat)).2 = negotiated opts heartbeat es := by
  induction es generalizing life heartbeat with
  | nil => rfl
  | cons e es ih =>
    rw [List.foldl_cons, negotiated, List.foldl_cons]
    cases e <;> cases life <;> exact ih _ _

end Closed

/-- A task goes on as long as the heartbeat is alive. -/
theorem Inv.beating_iff {s : State} (hi : Inv s) :
    (∃ b ∈ s.beaters, b.aborted = false) ↔ s.life = .beating := by
  constructor
  · rintro ⟨b, hb, hlive⟩
    obtain ⟨n, hn⟩ := List.mem_iff_getElem?.mp hb
    have htask := hi.alone n b hn hlive
    simp [State.life, (hi.running n htask).1, htask]
  · intro hlife
    have hsome : s.heartbeatTask.isSome := by
      by_contra hnone
      unfold State.life at hlife
      rw [if_neg hnone] at hlife
      split at hlife <;> exact absurd hlife (by simp)
    obtain ⟨n, hn⟩ := Option.isSome_iff_exists.mp hsome
    obtain ⟨-, -, b, hb, hlive, -⟩ := hi.running n hn
    exact ⟨b, List.mem_of_getElem? hb, hlive⟩

/-- **The life of the heartbeat**, over any run.  A task goes on exactly when the heartbeat was
started with a value other than zero, and no `close` and no `Tune` frame has ended it since.  There
is one such task at most, and its interval belongs to the value that was negotiated last.

The automaton is run along the events, and its state at the end is compared with the tasks that
the invariant allows. -/
theorem heartbeat_life (opts : ClientOptions) (es : List Event) (s : State)
    (h : run (step opts) (init opts) es = some s) :
    ((∃ b ∈ s.beaters, b.aborted = false) ↔
      ∃ pre post, es = pre ++ .start :: post ∧ .start ∉ pre ∧
        negotiated opts opts.heartbeat pre ≠ 0 ∧ ∀ e ∈ post, Sustains opts e) ∧
    ∀ (n m : ℕ) (b c : Beater), s.beaters[n]? = some b → b.aborted = false →
      s.beaters[m]? = some c → c.aborted = false →
        n = m ∧ b.interval = max (negotiated opts opts.heartbeat es / 2) 1 := by
  obtain ⟨hi, hlife⟩ := run_next (inv_init opts) h
  refine ⟨?_, fun n m b c hn hb hm hc => ?_⟩
  · rw [hi.beating_iff, ← unborn_foldl_iff]
    exact Eq.congr_left (congrArg Prod.fst hlife)
  · have hfirst := hi.alone n b hn hb
    have hsecond := hi.alone m c hm hc
    rw [hfirst, Option.some.injEq] at hsecond
    obtain ⟨-, -, b', hb', -, hinterval⟩ := hi.running n hfirst
    rw [hn, Option.some.injEq] at hb'
    subst hb'
    refine ⟨hsecond, ?_⟩
    rw [hinterval, ← foldl_negotiated es .unborn]
    exact congrArg (fun x => max (x.2 / 2) 1) hlife

/-- The heartbeat is started with half a minute, beats, and is tuned to ten seconds. -/
def retuned : List Event :=
  [.tune ⟨0, 30⟩, .reply, .start, .poll 0, .beat 0, .poll 0, .tune ⟨0, 10⟩, .reply, .beat 0,
    .poll 1, .beat 1]

theorem heartbeat_life_retuned : ∃ s, run (step guest) (init guest) retuned = some s ∧
    s.beaters = [⟨15, false, true⟩, ⟨5, false, false⟩] ∧ ∃ b ∈ s.beaters, b.aborted = false := by
  refine ⟨_, rfl, rfl, (heartbeat_life guest retuned _ rfl).1.mpr ?_⟩
  exact ⟨[.tune ⟨0, 30⟩, .reply], _, rfl, by decide, by decide, by decide⟩

/-! ## 5. After its end

Without a handle nothing starts a task again.  What may come is one frame for each task that was
in the middle of a hand-over, and there are no more of them later. -/

/-- The `Heartbeat` frames that were handed over. -/
def State.beats (s : State) : ℕ := s.wire.countP (· matches .heartbeat _)

/-- The tasks that are in the middle of handing over a frame. -/
def State.sending (s : State) : ℕ := s.beaters.countP Beater.sending

/-- A task is done with its hand-over. -/
theorem sending_set {s : State} {n : ℕ} {b : Beater} (b' : Beater)
    (hn : s.beaters[n]? = some b) (hb : b.sending = true) (hb' : b'.sending = false) :
    (s.beaters.set n b').countP Beater.sending + 1 = s.sending := by
  obtain ⟨hlt, hget⟩ := List.getElem?_eq_some_iff.mp hn
  have hpos : 0 < s.beaters.countP Beater.sending :=
    List.countP_pos_iff.mpr ⟨b, List.mem_of_getElem? hn, hb⟩
  rw [List.countP_set hlt, hget, if_pos hb, hb', if_neg (by simp), State.sending]
  omega

theorem task_of_ended {s : State} (hended : s.life = .ended) :
    s.started = true ∧ s.heartbeatTask = none := by
  unfold State.life at hended
  split at hended
  · rename_i hs
    split at hended
    · exact absurd hended (by simp)
    · rename_i hnone
      exact ⟨hs, by simpa using hnone⟩
  · exact absurd hended (by simp)

/-- A step after the end: no task is begun, and a frame that comes was on its way.  The start has
been made and there is no handle, so neither a start nor a `Tune` frame makes a task.  A hand-over
that ends is one less under way and at most one frame more. -/
theorem step_ended {opts : ClientOptions} {s s' : State} {e : Event} (hi : Inv s)
    (hended : s.life = .ended) (h : step opts s e = some s') :
    s'.beaters.length = s.beaters.length ∧ s'.beats + s'.sending ≤ s.beats + s.sending := by
  obtain ⟨hstarted, hnone⟩ := task_of_ended hended
  cases step_cases h with
  | start hs =>
    rw [hstarted] at hs
    exact absurd hs (by simp)
  | @tune tunes hr =>
    rw [State.tuned, hnone, Option.isSome_none, if_neg (by simp)]
    exact ⟨rfl, Nat.le_refl _⟩
  | reply hr =>
    refine ⟨rfl, Nat.le_of_eq ?_⟩
    simp [State.beats, State.sending]
  | take hs =>
    rw [dropTask_of_none hnone]
    exact ⟨rfl, Nat.le_refl _⟩
  | poll hn =>
    -- there is no task to be polled
    have hlive := hi.beating_iff.mp ⟨_, List.mem_of_getElem? hn, rfl⟩
    rw [hended] at hlive
    exact absurd hlive (by simp)
  | @beat n interval aborted hn =>
    have hsending := sending_set ⟨interval, false, aborted⟩ hn rfl rfl
    refine ⟨List.length_set .., ?_⟩
    simp only [State.beats, State.sending, List.countP_append, List.countP_singleton] at hsending ⊢
    simp only [if_pos]
    omega
  | @cancel n interval hn =>
    have hsending := sending_set ⟨interval, false, true⟩ hn rfl rfl
    refine ⟨List.length_set .., ?_⟩
    simp only [State.beats, State.sending] at hsending ⊢
    omega

/-- **The heartbeat ends for good.**  Once it is over, by a `close` or because it was tuned to zero,
it stays so whatever comes: no task is begun any more, and at most those frames are handed over that
were on their way.

An ended life has no way back.  The frames that may still come are those of the tasks that were in
the middle of a hand-over, and each of these can be handed over once. -/
theorem heartbeat_ends (opts : ClientOptions) (es es' : List Event) (s t : State)
    (h : run (step opts) (init opts) es = some s) (hended : s.life = .ended)
    (h' : run (step opts) s es' = some t) :
    t.life = .ended ∧ t.beaters.length = s.beaters.length ∧ t.beats ≤ s.beats + s.sending := by
  obtain ⟨hi, -⟩ := run_next (inv_init opts) h
  have hkept : Inv t ∧ t.life = .ended ∧ t.beaters.length = s.beaters.length ∧
      t.beats + t.sending ≤ s.beats + s.sending := by
    refine run_invariant (P := fun u => Inv u ∧ u.life = .ended ∧
      u.beaters.length = s.beaters.length ∧ u.beats + u.sending ≤ s.beats + s.sending)
      (fun u e u' hu hs => ?_) ⟨hi, hended, rfl, Nat.le_refl _⟩ h'
    obtain ⟨hiu, hlife, hlength, hbeats⟩ := hu
    obtain ⟨hlength', hbeats'⟩ := step_ended hiu hlife hs
    refine ⟨inv_step hiu hs, ?_, hlength'.trans hlength, hbeats'.trans hbeats⟩
    have hnext := congrArg Prod.fst (step_next hiu hs)
    rw [hlife] at hnext
    exact hnext.trans (ended_foldl [e] u.heartbeat)
  exact ⟨hkept.2.1, hkept.2.2.1, by omega⟩

/-- `close` takes the heartbeat in the middle of a beat, and a `Tune` frame comes later. -/
theorem heartbeat_ends_taken : ∃ s t,
    run (step guest) (init guest) [.start, .poll 0, .take] = some s ∧
    run (step guest) s [.tune ⟨0, 10⟩, .beat 0, .reply] = some t ∧
    t.life = .ended ∧ t.beats = 1 ∧ t.beats ≤ s.beats + s.sending :=
  ⟨_, _, rfl, rfl, rfl, rfl, (heartbeat_ends guest [.start, .poll 0, .take]
    [.tune ⟨0, 10⟩, .beat 0, .reply] _ _ rfl rfl rfl).2.2⟩

/-! ## 6. Connecting

The machine of `Handshake` has the heartbeat as one bit.  Its runs are runs of the machine here,
with the frames of the heartbeat and the replies to `Tune` frames picked out of its trace. -/

/-- `connect` has come past the start of the heartbeat, or has failed. -/
def PastStart : Handshake.Place → Prop
  | .next .exchangeCommandVersions | .calling .exchangeCommandVersions _ | .connected | .failed =>
    True
  | _ => False

/-- The reply that is to be handed over. -/
def replyOf (opts : ClientOptions) : Handshake.Tuning → Option TunesCommand
  | .replying tunes => some (opts.tune tunes)
  | _ => none

/-- The frames that are not requests of `connect`. -/
def unasked : Handshake.Occurrence → Option RequestKind
  | .handed (.tunes cmd) => some (.tunes cmd)
  | .handed (.heartbeat cmd) => some (.heartbeat cmd)
  | _ => none

/-- The state of the heartbeat, as `connect` has it. -/
structure Matches (opts : ClientOptions) (s : Handshake.State) (t : State) : Prop where
  heartbeat : t.heartbeat = s.heartbeat
  maxFrameSize : t.maxFrameSize = s.maxFrameSize
  task : t.heartbeatTask.isSome = s.heartbeatTask
  started : t.started = true → PastStart s.place
  /-- A `Tune` frame that is being handled is the one that the dispatcher is at. -/
  tuning : s.tuning ≠ .notBegun → s.tunes ≠ none
  replying : t.replying = replyOf opts s.tuning
  idle : ∀ b ∈ t.beaters, b.sending = false
  wire : t.wire = s.trace.filterMap unasked

theorem matches_init (opts : ClientOptions) : Matches opts (Handshake.init opts) (init opts) := by
  constructor <;> simp [Handshake.init, init, replyOf]

/-- While the handler has a frame, the dispatcher stays at it. -/
theorem loop_kept {d d' : Dispatcher.DispatcherState} {e : Dispatcher.Event} {r : Response}
    (hl : d.loop = .notifying r) (he : e ≠ .notify) (h : Dispatcher.step d e = some d') :
    d'.loop = .notifying r := by
  cases Dispatcher.step_cases h with
  | frame hl' | eof hl' | remove hl' | miss hl' | send hl' =>
    rw [hl] at hl'
    exact absurd hl' (by simp)
  | notify => exact absurd rfl he
  | alloc | load | insert | setHandler | store | clear | farewell => exact hl

theorem requests_loop_kept {q q' : Requests} {e : Requests.Event} {r : Response}
    (hl : q.dispatcher.loop = .notifying r) (he : e ≠ .dispatcher .notify)
    (h : Requests.step q e = some q') : q'.dispatcher.loop = .notifying r := by
  cases Requests.step_cases h with
  | dispatcher hne hd => exact loop_kept hl (fun heq => he (by rw [heq])) hd
  | request | handOver | refused | response | dropped => exact hl

/-- The same of the frame. -/
theorem tunes_kept {s s' : Handshake.State} {e : Requests.Event} (ht : s.tunes ≠ none)
    (he : e ≠ .dispatcher .notify) (h : Requests.step s.requests e = some s'.requests) :
    s'.tunes ≠ none := by
  unfold Handshake.State.tunes at ht
  split at ht
  · rename_i header cmd hl
    have hkept := requests_loop_kept hl he h
    simp [Handshake.State.tunes, hkept]
  · exact absurd rfl ht

theorem dropTask_idle {t : State} (hidle : ∀ b ∈ t.beaters, b.sending = false) :
    ∀ b ∈ t.dropTask.beaters, b.sending = false := by
  unfold State.dropTask
  split
  · intro b hb
    obtain ⟨n, hn⟩ := List.mem_iff_getElem?.mp hb
    simp only at hn
    rw [List.getElem?_modify, Option.map_eq_map, Option.map_eq_some_iff] at hn
    obtain ⟨c, hc, rfl⟩ := hn
    have hc := hidle c (List.mem_of_getElem? hc)
    split
    · exact hc
    · exact hc
  · exact hidle

/-- What `start_hearbeat_task` does to everything else. -/
structure Started (t t' : State) : Prop where
  maxFrameSize : t'.maxFrameSize = t.maxFrameSize
  heartbeat : t'.heartbeat = t.heartbeat
  started : t'.started = t.started
  replying : t'.replying = t.replying
  wire : t'.wire = t.wire
  task : t.heartbeatTask = none → t'.heartbeatTask.isSome = decide (t.heartbeat ≠ 0)
  idle : (∀ b ∈ t.beaters, b.sending = false) → ∀ b ∈ t'.beaters, b.sending = false

theorem started_startHearbeatTask (t : State) : Started t t.startHearbeatTask := by
  unfold State.startHearbeatTask
  split
  · rename_i hzero
    exact ⟨rfl, rfl, rfl, rfl, rfl, fun hnone => by simp [hnone, hzero], id⟩
  · rename_i hne
    refine ⟨by simp, by simp, by simp, by simp, by simp, fun _ => by simp [hne],
      fun hidle b hb => ?_⟩
    rcases List.mem_append.mp hb with hb | hb
    · exact dropTask_idle hidle b hb
    · rw [List.mem_singleton.mp hb]

section Refinement

variable {opts : ClientOptions} {s s' : Handshake.State} {t : State}

/-- A step that has nothing to do with the heartbeat. -/
theorem Matches.other (hm : Matches opts s t) (hheartbeat : s'.heartbeat = s.heartbeat)
    (hframe : s'.maxFrameSize = s.maxFrameSize) (htask : s'.heartbeatTask = s.heartbeatTask)
    (htuning : s'.tuning = s.tuning) (htunes : s.tunes ≠ none → s'.tunes ≠ none)
    (hplace : PastStart s.place → PastStart s'.place)
    (htrace : s'.trace.filterMap unasked = s.trace.filterMap unasked) : Matches opts s' t where
  heartbeat := hm.heartbeat.trans hheartbeat.symm
  maxFrameSize := hm.maxFrameSize.trans hframe.symm
  task := hm.task.trans htask.symm
  started h := hplace (hm.started h)
  tuning h := htunes (hm.tuning (htuning ▸ h))
  replying := htuning ▸ hm.replying
  idle := hm.idle
  wire := hm.wire.trans htrace.symm

/-- The one event of the heartbeat is the same `Tune` frame.  The frames that were not requests of
`connect` are the same before and behind it, as its reply has not been handed over yet. -/
theorem matches_tune (hm : Matches opts s t) {cmd : TunesCommand} (hc : s.tunes = some cmd)
    (hb : s.tuning = .notBegun) : ∃ t', run (step opts) t [.tune cmd] = some t' ∧
      Matches opts { s with
        maxFrameSize := (opts.tune cmd).maxFrameSize
        heartbeat := (opts.tune cmd).heartbeat
        heartbeatTask := s.heartbeatTask && (opts.tune cmd).heartbeat ≠ 0
        tuning := .replying cmd
        trace := s.trace ++ [.tuned cmd] } t' := by
  have hreplying : t.replying = none := by
    rw [hm.replying, hb]
    rfl
  have htrace : (s.trace ++ [Handshake.Occurrence.tuned cmd]).filterMap unasked =
      s.trace.filterMap unasked := by
    simp [unasked]
  have htunes : s.tunes ≠ none := by
    rw [hc]
    simp
  refine ⟨t.tuned (opts.tune cmd), ?_, ?_⟩
  · simp [run, step, hreplying]
  unfold State.tuned
  split
  · rename_i hsome
    obtain hst := started_startHearbeatTask (t.negotiate (opts.tune cmd)).dropTask
    have htask : s.heartbeatTask = true := hm.task.symm.trans hsome
    refine ⟨?_, ?_, ?_, ?_, fun _ => htunes, ?_, hst.idle (dropTask_idle hm.idle), ?_⟩
    · rw [hst.heartbeat, dropTask_heartbeat]
      rfl
    · rw [hst.maxFrameSize, dropTask_maxFrameSize]
      rfl
    · rw [hst.task (dropTask_heartbeatTask _), dropTask_heartbeat, htask, Bool.true_and]
      rfl
    · rw [hst.started, dropTask_started]
      exact hm.started
    · rw [hst.replying, dropTask_replying]
      rfl
    · rw [hst.wire, dropTask_wire]
      exact hm.wire.trans htrace.symm
  · rename_i hnone
    have htask : s.heartbeatTask = false := by
      rw [← hm.task]
      simpa using hnone
    refine ⟨rfl, rfl, ?_, hm.started, fun _ => htunes, rfl, hm.idle, hm.wire.trans htrace.symm⟩
    simp only [htask, Bool.false_and]
    exact hm.task.trans htask

theorem matches_start (hm : Matches opts s t) (hi : Inv t) (hp : s.place = .startHeartbeat) :
    ∃ t', run (step opts) t [.start] = some t' ∧ Matches opts { s with
        heartbeatTask := s.heartbeatTask || s.heartbeat ≠ 0
        place := .next .exchangeCommandVersions } t' := by
  have hstarted : t.started = false := by
    by_contra hs
    have hpast := hm.started (by simpa using hs)
    rw [hp] at hpast
    exact hpast
  have hnone := hi.task_of_unstarted hstarted
  have htask : s.heartbeatTask = false := by
    rw [← hm.task, hnone]
    rfl
  have hst := started_startHearbeatTask { t with started := true }
  refine ⟨State.startHearbeatTask { t with started := true }, ?_, ?_⟩
  · simp [run, step, hstarted]
  · refine ⟨hst.heartbeat.trans hm.heartbeat, hst.maxFrameSize.trans hm.maxFrameSize, ?_,
      fun _ => trivial, hm.tuning, hst.replying.trans hm.replying, hst.idle hm.idle,
      hst.wire.trans hm.wire⟩
    rw [hst.task hnone]
    simp only [htask, Bool.false_or]
    rw [hm.heartbeat]

theorem matches_beat (hm : Matches opts s t) (hi : Inv t) (hb : s.heartbeatTask = true) :
    ∃ es t', run (step opts) t es = some t' ∧
      Matches opts { s with trace := s.trace ++ [.handed (.heartbeat {})] } t' := by
  obtain ⟨n, hn⟩ := Option.isSome_iff_exists.mp (hm.task.trans hb)
  obtain ⟨-, -, ⟨interval, sending, aborted⟩, hget, hlive, -⟩ := hi.running n hn
  obtain rfl : aborted = false := hlive
  obtain rfl : sending = false := hm.idle _ (List.mem_of_getElem? hget)
  have hpoll : step opts t (.poll n) =
      some { t with beaters := t.beaters.set n ⟨interval, true, false⟩ } := by
    simp only [step, hget]
  have hbeat : step opts { t with beaters := t.beaters.set n ⟨interval, true, false⟩ } (.beat n) =
      some { t with
        beaters := (t.beaters.set n ⟨interval, true, false⟩).set n ⟨interval, false, false⟩
        wire := t.wire ++ [.heartbeat {}] } := by
    simp only [step, getElem?_set_moved hget]
  refine ⟨[.poll n, .beat n], _, run_cons.mpr ⟨_, hpoll, run_cons.mpr ⟨_, hbeat, rfl⟩⟩,
    hm.heartbeat, hm.maxFrameSize, hm.task, hm.started, hm.tuning, hm.replying,
    fun b hmem => ?_, ?_⟩
  · simp only [List.set_set] at hmem
    rcases List.mem_or_eq_of_mem_set hmem with hmem | rfl
    · exact hm.idle b hmem
    · rfl
  · rw [List.filterMap_append, hm.wire]
    rfl

theorem unasked_request (p : Handshake.Phase) (id : UInt32) :
    unasked (.handed ((p.method opts).request id)) = none := by
  cases p <;> rfl

theorem pastStart_finish {p : Handshake.Phase} {n : ℕ} {result : CallResult}
    (h : PastStart (.calling p n)) : PastStart (p.finish result) := by
  cases p with
  | exchangeCommandVersions =>
    cases result with
    | response r =>
      simp only [Handshake.Phase.finish]
      split <;> trivial
    | connectionClosed | sendFailed | castError => trivial
  | peerProperties | saslHandshake | saslAuthenticate | «open» => exact absurd h id

/-- A step of `connect` is a run of the heartbeat.  Steps of the requests and of the dispatcher make
no event of the heartbeat.  A `Tune` frame, its reply, the start and a beat make one each, and the
beat is preceded by a poll. -/
theorem matches_step {e : Handshake.Event} (hm : Matches opts s t) (hi : Inv t)
    (h : Handshake.step opts s e = some s') :
    ∃ es t', run (step opts) t es = some t' ∧ Matches opts s' t' := by
  cases Handshake.step_cases h with
  | @call p q hp hq =>
    refine ⟨[], t, rfl, hm.other rfl rfl rfl rfl (fun ht => tunes_kept ht (by simp) hq)
      (fun hpast => ?_) rfl⟩
    rw [hp] at hpast
    cases p <;> exact hpast
  | @refused p n q hp hq =>
    exact ⟨[], t, rfl, hm.other rfl rfl rfl rfl (fun ht => tunes_kept ht (by simp) hq)
      (fun _ => trivial) rfl⟩
  | @handOver p n q id result hp hq hid =>
    refine ⟨[], t, rfl, hm.other rfl rfl rfl rfl (fun ht => tunes_kept ht (by simp) hq)
      (fun hpast => ?_) ?_⟩
    · rw [hp] at hpast
      show PastStart (if result = .ok then .calling p n else .failed)
      split
      · exact hpast
      · trivial
    · simp [unasked_request]
  | @recv p n q m result hp hq hn =>
    refine ⟨[], t, rfl, hm.other rfl rfl rfl rfl (fun ht => tunes_kept ht (by simp) hq)
      (fun hpast => ?_) ?_⟩
    · rw [hp] at hpast
      exact pastStart_finish hpast
    · rw [List.filterMap_append]
      cases result <;> simp [Handshake.answer, unasked]
  | @dispatcher e q hq =>
    by_cases he : e = .notify
    · subst he
      -- the handler is done with the frame, or there is none
      have hidle : replyOf opts s.tuning = none := by
        by_contra hreply
        have htunes : s.tunes ≠ none := hm.tuning fun hb => hreply (by rw [hb]; rfl)
        have hdone : s.tuning ≠ .done := fun hd => hreply (by rw [hd]; rfl)
        simp [Handshake.step, htunes, hdone] at h
      refine ⟨[], t, rfl, ?_⟩
      rw [if_pos rfl]
      exact { hm with
        tuning := fun h => absurd rfl h
        replying := hm.replying.trans hidle }
    · rw [if_neg he]
      exact ⟨[], t, rfl, hm.other rfl rfl rfl rfl
        (fun ht => tunes_kept ht (fun heq => he (Requests.Event.dispatcher.inj heq)) hq) id rfl⟩
  | @tune cmd hc ht =>
    obtain ⟨t', hrun, hm'⟩ := matches_tune hm hc ht
    exact ⟨_, t', hrun, hm'⟩
  | @tuneReply cmd ht =>
    have hreplying : t.replying = some (opts.tune cmd) := by
      rw [hm.replying, ht]
      rfl
    refine ⟨[.reply], { t with replying := none, wire := t.wire ++ [.tunes (opts.tune cmd)] }, ?_,
      hm.heartbeat, hm.maxFrameSize, hm.task, hm.started, fun _ => hm.tuning (by simp [ht]), rfl,
      hm.idle, ?_⟩
    · simp [run, step, hreplying]
    · rw [List.filterMap_append, hm.wire]
      rfl
  | tuneNotify ht =>
    refine ⟨[], t, rfl, { hm with tuning := fun _ => hm.tuning (by simp [ht]), replying := ?_ }⟩
    rw [hm.replying, ht]
    rfl
  | notified hp hpermit =>
    refine ⟨[], t, rfl, hm.other rfl rfl rfl rfl id (fun hpast => ?_) rfl⟩
    rw [hp] at hpast
    exact absurd hpast id
  | startHeartbeat hp =>
    obtain ⟨t', hrun, hm'⟩ := matches_start hm hi hp
    exact ⟨_, t', hrun, hm'⟩
  | beat hb => exact matches_beat hm hi hb

end Refinement

/-- **The heartbeat of `connect`** is a heartbeat: for every run of `connect` there is a run here
that has the same values, the same frames and a task when `connect` has one.

Step by step: a step of `connect` is a run of the heartbeat, most often of no event or of one
(`matches_step`). -/
theorem handshake_heartbeat (opts : ClientOptions) (es : List Handshake.Event) (s : Handshake.State)
    (h : run (Handshake.step opts) (Handshake.init opts) es = some s) :
    ∃ es' t, run (step opts) (init opts) es' = some t ∧ Matches opts s t := by
  have hreached := run_invariant (P := fun u => ∃ es' t, run (step opts) (init opts) es' = some t ∧
    Matches opts u t) (fun u e u' hu hs => ?_) ⟨[], init opts, rfl, matches_init opts⟩ h
  · exact hreached
  · obtain ⟨es', t, ht, hm⟩ := hu
    obtain ⟨hi, -⟩ := run_next (inv_init opts) ht
    obtain ⟨more, t', ht', hm'⟩ := matches_step hm hi hs
    refine ⟨es' ++ more, t', ?_, hm'⟩
    rw [run_append, ht]
    exact ht'

theorem handshake_heartbeat_connecting : ∃ s es t,
    run (Handshake.step guest) (Handshake.init guest) connecting = some s ∧
    run (step guest) (init guest) es = some t ∧ Matches guest s t := by
  obtain ⟨es, t, hrun, hm⟩ := handshake_heartbeat guest connecting _ rfl
  exact ⟨_, es, t, rfl, hrun, hm⟩

end RabbitMqStream.Client.Heartbeat
