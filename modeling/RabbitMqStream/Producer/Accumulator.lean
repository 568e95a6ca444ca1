/-
# The accumulator

`MessageAccumulator`: a bounded channel and a counter beside it.  `add` sends its message and
increments the counter afterwards; `get` takes the lock on the receiving end, takes messages out
until it has enough or there is none, and subtracts their number from the counter.  Channel and
counter are never changed together, so the counter says how full the channel is only when nobody
is at work.

**Calls.**  The accumulator is taken here by itself: any number of calls of `add` and `get` run
at the same time, each `get` with a batch size of its own.  One step of a call is its `send`, its
`fetch_add`, the taking of the lock, a `try_recv` or its `fetch_sub`.  The lock goes back with the
`fetch_sub`: what comes behind it in `get` touches nothing that is shared.

* `accumulator_conserves`: the batches, in the order in which the gets had the lock, and then what
  is in the channel are what was sent, in the order in which it was accepted; and the counter is
  right whenever no call is at work.

The channel is a bounded first-in-first-out queue.  Its receiving end belongs to the accumulator,
so a `send` waits for room but does not fail.

**The argument.**  The lock has to come first: one get at a time is between its first `try_recv`
and its `fetch_sub`, and it is the last one that got the lock (`locked_step`).  So what leaves the
channel is put at the end of the last batch, and the batches followed by the channel stay what was
accepted (`conserved_step`).  For the counter nothing is needed but that each call changes it once
by what it has sent or taken: it is short of what is in the channel or unsubtracted by what is
uncounted (`counted_step`), modulo the width of the machine's numbers.  When no call is at work
both corrections are zero.
-/
import RabbitMqStream.Producer.Model

namespace RabbitMqStream.Producer.Accumulator

open Lts

/-! ## 1. The accumulator

The channel, the counter, and who holds the receiving end.  What was accepted and who has got
the lock is recorded beside them and read by no step. -/

structure MessageAccumulator : Type where
  /-- What is in the channel. -/
  queue : List ClientMessage := []
  /-- The call that holds the lock on the receiving end. -/
  receiver : Option ℕ := none
  capacity : UInt64
  messageCount : UInt64 := 0
  deriving DecidableEq

/-- The largest channel that can be made, `usize::MAX >> 3`. -/
def maxPermits : ℕ := (2 ^ 64 - 1) >>> 3

/-- `MessageAccumulator::new`.  Making a channel panics if it is to have no room or too much. -/
def MessageAccumulator.new (batchSize : UInt64) : Option MessageAccumulator :=
  if 0 < batchSize.toNat ∧ batchSize.toNat ≤ maxPermits then some { capacity := batchSize }
  else none

/-- A call of `add` or `get`, and how far it has come. -/
inductive Call : Type where
  /-- `add`, at the `send`. -/
  | adding (message : ClientMessage)
  /-- At the `fetch_add`. -/
  | counting (message : ClientMessage)
  | added (message : ClientMessage) (full : Bool)
  /-- `get`, at the lock. -/
  | locking (batchSize : UInt64)
  /-- At the head of the loop of `try_recv`. -/
  | receiving (batchSize : UInt64) (messages : List ClientMessage)
  /-- At the `fetch_sub`. -/
  | subtracting (batchSize : UInt64) (messages : List ClientMessage)
  | got (batchSize : UInt64) (messages : List ClientMessage)
  /-- `Vec::with_capacity` has panicked. -/
  | panicked
  deriving DecidableEq

structure State extends MessageAccumulator where
  calls : List Call := []
  -- Records of what has happened:
  /-- The messages in the order in which the channel has accepted them. -/
  accepted : List ClientMessage := []
  /-- The calls of `get` in the order in which they got the lock. -/
  held : List ℕ := []

/-- The accumulator before any call. -/
def State.new (batchSize : UInt64) : Option State :=
  (MessageAccumulator.new batchSize).map fun acc => { acc with }

/-- What the call has taken out of the channel. -/
def Call.batch : Call → List ClientMessage
  | .receiving _ messages | .subtracting _ messages | .got _ messages => messages
  | .adding _ | .counting _ | .added _ _ | .locking _ | .panicked => []

/-- The batches, in the order in which the gets had the lock; the last may still grow. -/
def State.batches (s : State) : List (List ClientMessage) :=
  s.held.map (look Call.batch [] s.calls)

/-! ## 2. The steps

An `add` has two steps and a `get` three kinds of them.  Between any two of them any other call
may take a step, except for those that wait for room in the channel or for the lock. -/

inductive Event : Type where
  | add (message : ClientMessage)
  | get (batchSize : UInt64)
  /-- Call `t` takes its next step. -/
  | move (t : ℕ)
  deriving DecidableEq

/-- `size_of::<ClientMessage>()`, with pointers of 64 bits: a number, the pointer of a message and
an optional string. -/
def clientMessageSize : ℕ := 40

/-- The beginning of `get`: `Vec::with_capacity`, of no more than `isize::MAX` bytes.  If the
allocator refuses them, the process ends, and the run with it. -/
def Call.get (batchSize : UInt64) : Call :=
  if batchSize.toNat * clientMessageSize ≤ isizeMax then .locking batchSize else .panicked

def step (s : State) : Event → Option State
  | .add message => some { s with calls := s.calls ++ [.adding message] }
  | .get batchSize => some { s with calls := s.calls ++ [.get batchSize] }
  | .move t =>
    match s.calls[t]? with
    | some (.adding message) =>
      if s.queue.length < s.capacity.toNat then some { s with
        queue := s.queue ++ [message]
        calls := s.calls.set t (.counting message)
        accepted := s.accepted ++ [message] }
      else none
    -- the addition wraps; a build that checks it panics here instead
    | some (.counting message) => some { s with
        messageCount := s.messageCount + 1
        calls := s.calls.set t (.added message (s.messageCount + 1 = s.capacity)) }
    | some (.locking batchSize) =>
      if s.receiver = none then some { s with
        receiver := some t
        calls := s.calls.set t (.receiving batchSize [])
        held := s.held ++ [t] }
      else none
    | some (.receiving batchSize messages) =>
      if messages.length < batchSize.toNat then
        match s.queue with
        | message :: rest => some { s with
            queue := rest
            calls := s.calls.set t (.receiving batchSize (messages ++ [message])) }
        | [] => some { s with calls := s.calls.set t (.subtracting batchSize messages) }
      else some { s with calls := s.calls.set t (.subtracting batchSize messages) }
    | some (.subtracting batchSize messages) => some { s with
        messageCount := s.messageCount - UInt64.ofNat messages.length
        receiver := none
        calls := s.calls.set t (.got batchSize messages) }
    | _ => none

/-- What a step does, and when. -/
inductive Step (s : State) : Event → State → Prop where
  | add (message : ClientMessage) :
      Step s (.add message) { s with calls := s.calls ++ [.adding message] }
  | get (batchSize : UInt64) :
      Step s (.get batchSize) { s with calls := s.calls ++ [.get batchSize] }
  | send {t : ℕ} {message : ClientMessage} (ht : s.calls[t]? = some (.adding message))
      (hroom : s.queue.length < s.capacity.toNat) :
      Step s (.move t) { s with
        queue := s.queue ++ [message]
        calls := s.calls.set t (.counting message)
        accepted := s.accepted ++ [message] }
  | fetchAdd {t : ℕ} {message : ClientMessage} (ht : s.calls[t]? = some (.counting message)) :
      Step s (.move t) { s with
        messageCount := s.messageCount + 1
        calls := s.calls.set t (.added message (s.messageCount + 1 = s.capacity)) }
  | lock {t : ℕ} {batchSize : UInt64} (ht : s.calls[t]? = some (.locking batchSize))
      (hfree : s.receiver = none) :
      Step s (.move t) { s with
        receiver := some t
        calls := s.calls.set t (.receiving batchSize [])
        held := s.held ++ [t] }
  | recv {t : ℕ} {batchSize : UInt64} {messages rest : List ClientMessage}
      {message : ClientMessage} (ht : s.calls[t]? = some (.receiving batchSize messages))
      (hlt : messages.length < batchSize.toNat) (hq : s.queue = message :: rest) :
      Step s (.move t) { s with
        queue := rest
        calls := s.calls.set t (.receiving batchSize (messages ++ [message])) }
  | finish {t : ℕ} {batchSize : UInt64} {messages : List ClientMessage}
      (ht : s.calls[t]? = some (.receiving batchSize messages))
      (hend : messages.length < batchSize.toNat → s.queue = []) :
      Step s (.move t) { s with calls := s.calls.set t (.subtracting batchSize messages) }
  | fetchSub {t : ℕ} {batchSize : UInt64} {messages : List ClientMessage}
      (ht : s.calls[t]? = some (.subtracting batchSize messages)) :
      Step s (.move t) { s with
        messageCount := s.messageCount - UInt64.ofNat messages.length
        receiver := none
        calls := s.calls.set t (.got batchSize messages) }

theorem step_cases {s s' : State} {e : Event} (h : step s e = some s') : Step s e s' := by
  cases e with
  | add message =>
    cases h
    exact .add message
  | get batchSize =>
    cases h
    exact .get batchSize
  | move t =>
    simp only [step] at h
    split at h
    · rename_i message ht
      split at h
      · rename_i hroom
        cases h
        exact .send ht hroom
      · exact absurd h (by simp)
    · rename_i message ht
      cases h
      exact .fetchAdd ht
    · rename_i batchSize ht
      split at h
      · rename_i hfree
        cases h
        exact .lock ht hfree
      · exact absurd h (by simp)
    · rename_i batchSize messages ht
      split at h
      · rename_i hlt
        split at h
        · rename_i message rest hq
          cases h
          exact .recv ht hlt hq
        · rename_i hq
          cases h
          exact .finish ht fun _ => hq
      · rename_i hge
        cases h
        exact .finish ht fun hlt => absurd hlt hge
    · rename_i batchSize messages ht
      cases h
      exact .fetchSub ht
    · exact absurd h (by simp)

/-! ## 3. The lock

The calls that have got the lock are recorded in their order.  A call holds it when it is the
last of them and has not come behind its `fetch_sub`; the record has every call once. -/

/-- The call holds the lock on the receiving end. -/
def Call.Holds (c : Call) : Prop :=
  match c with
  | .receiving _ _ | .subtracting _ _ => True
  | .adding _ | .counting _ | .added _ _ | .locking _ | .got _ _ | .panicked => False

/-- The call has got the lock, and may have given it back. -/
def Call.HasHeld (c : Call) : Prop :=
  match c with
  | .receiving _ _ | .subtracting _ _ | .got _ _ => True
  | .adding _ | .counting _ | .added _ _ | .locking _ | .panicked => False

/-- One get at a time has the lock, and it is the last that got it. -/
structure Locked (s : State) : Prop where
  one : ∀ t c, s.calls[t]? = some c → c.Holds → s.receiver = some t
  held : ∀ t, t ∈ s.held ↔ ∃ c, s.calls[t]? = some c ∧ c.HasHeld
  nodup : s.held.Nodup
  last : ∀ t, s.receiver = some t → ∃ before, s.held = before ++ [t]

theorem get_not_hasHeld (batchSize : UInt64) : ¬ (Call.get batchSize).HasHeld := by
  unfold Call.get
  split <;> simp [Call.HasHeld]

theorem hasHeld_of_holds {c : Call} (h : c.Holds) : c.HasHeld := by
  cases c with
  | receiving | subtracting => trivial
  | _ => exact absurd h (by simp [Call.Holds])

theorem locked_begin {s : State} (hl : Locked s) {c : Call} (hc : ¬ c.HasHeld) :
    Locked { s with calls := s.calls ++ [c] } := by
  -- a call that has or had the lock was there before
  have hold : ∀ (t : ℕ) (d : Call), (s.calls ++ [c])[t]? = some d → d.HasHeld →
      s.calls[t]? = some d := by
    intro t d hd hh
    rcases getElem?_of_snoc hd with hd | ⟨-, rfl⟩
    · exact hd
    · exact absurd hh hc
  refine ⟨fun t d hd hh => hl.one t d (hold t d hd (hasHeld_of_holds hh)) hh, fun t => ?_,
    hl.nodup, hl.last⟩
  rw [hl.held t]
  constructor
  · rintro ⟨d, hd, hh⟩
    exact ⟨d, getElem?_snoc hd, hh⟩
  · rintro ⟨d, hd, hh⟩
    exact ⟨d, hold t d hd hh, hh⟩

/-- Which calls have had the lock after a call has moved. -/
theorem exists_hasHeld_set {calls : List Call} {t : ℕ} {c : Call} (ht : calls[t]? = some c)
    (c' : Call) (u : ℕ) : (∃ d, (calls.set t c')[u]? = some d ∧ d.HasHeld) ↔
      if t = u then c'.HasHeld else ∃ d, calls[u]? = some d ∧ d.HasHeld := by
  split
  · rename_i htu
    subst htu
    rw [getElem?_set_moved ht]
    simp
  · rename_i htu
    rw [List.getElem?_set_ne htu]

/-- A call moves that neither takes the lock nor gives it back. -/
theorem locked_set {s : State} (hl : Locked s) {t : ℕ} {c : Call} (ht : s.calls[t]? = some c)
    (c' : Call) (hholds : c'.Holds → c.Holds) (hheld : c.HasHeld ↔ c'.HasHeld) :
    Locked { s with calls := s.calls.set t c' } := by
  refine ⟨fun u d hd hh => ?_, fun u => ?_, hl.nodup, hl.last⟩
  · rcases getElem?_of_set hd with ⟨rfl, rfl⟩ | ⟨-, hd⟩
    · exact hl.one u c ht (hholds hh)
    · exact hl.one u d hd hh
  · rw [hl.held u, exists_hasHeld_set ht c' u]
    split
    · rename_i htu
      subst htu
      rw [ht]
      simp [hheld]
    · rfl

/-- The get is new among those that have had the lock, since it is still waiting for it, and it is
the last. -/
theorem locked_lock {s : State} (hl : Locked s) {t : ℕ} {batchSize : UInt64}
    (ht : s.calls[t]? = some (.locking batchSize)) (hfree : s.receiver = none) :
    Locked { s with
      receiver := some t
      calls := s.calls.set t (.receiving batchSize [])
      held := s.held ++ [t] } := by
  have hfresh : t ∉ s.held := by
    intro hmem
    obtain ⟨d, hd, hh⟩ := (hl.held t).mp hmem
    rw [ht, Option.some.injEq] at hd
    subst hd
    exact hh
  refine ⟨fun u d hd hh => ?_, fun u => ?_, ?_, fun u hu => ?_⟩
  · rcases getElem?_of_set hd with ⟨rfl, -⟩ | ⟨-, hd⟩
    · rfl
    · have hother := hl.one u d hd hh
      rw [hfree] at hother
      exact absurd hother (by simp)
  · rw [exists_hasHeld_set ht _ u, List.mem_append, List.mem_singleton, hl.held u]
    split
    · rename_i htu
      exact ⟨fun _ => trivial, fun _ => Or.inr htu.symm⟩
    · rename_i htu
      exact or_iff_left (Ne.symm htu)
  · exact List.nodup_append.mpr ⟨hl.nodup, List.nodup_singleton t,
      fun u hu v hv huv => hfresh (List.mem_singleton.mp hv ▸ huv ▸ hu)⟩
  · obtain rfl := Option.some.inj hu
    exact ⟨s.held, rfl⟩

theorem locked_step {s s' : State} {e : Event} (hl : Locked s) (h : step s e = some s') :
    Locked s' := by
  cases step_cases h with
  | add message => exact locked_begin hl (by simp [Call.HasHeld])
  | get batchSize => exact locked_begin hl (get_not_hasHeld batchSize)
  | @send t message ht hroom =>
    exact { locked_set hl ht (.counting message) (fun h => h) Iff.rfl with }
  | @fetchAdd t message ht =>
    exact { locked_set hl ht (.added message _) (fun h => h) Iff.rfl with }
  | @recv t batchSize messages rest message ht hlt hq =>
    exact { locked_set hl ht (.receiving batchSize (messages ++ [message])) (fun h => h)
      Iff.rfl with }
  | finish ht hend => exact locked_set hl ht _ (fun h => h) Iff.rfl
  | lock ht hfree => exact locked_lock hl ht hfree
  | @fetchSub t batchSize messages ht =>
    have hset := locked_set hl ht (.got batchSize messages) False.elim Iff.rfl
    refine ⟨fun u d hd hh => ?_, hset.held, hset.nodup, fun u hu => absurd hu (by simp)⟩
    -- whoever held the lock is `t`, and `t` holds it no more
    have hu := hset.one u d hd hh
    have ht' := hl.one t _ ht trivial
    rw [show s.receiver = some u from hu, Option.some.injEq] at ht'
    subst ht'
    rw [getElem?_set_moved ht, Option.some.injEq] at hd
    subst hd
    exact absurd hh (by simp [Call.Holds])

/-! ## 4. The messages

What is followed is the list of all batches, one behind the other.  As only the holder of the
lock takes messages out, and its batch is the last one, a message that is taken goes to the end
of that list. -/

/-- What the call has sent. -/
def Call.sent : Call → Multiset ClientMessage
  | .counting message | .added message _ => {message}
  | .adding _ | .locking _ | .receiving _ _ | .subtracting _ _ | .got _ _ | .panicked => 0

/-- A batch has no more messages than were asked for, and not more than fit into memory. -/
def Call.Sized : Call → Prop
  | .receiving batchSize messages | .subtracting batchSize messages | .got batchSize messages =>
    messages.length ≤ batchSize.toNat ∧ batchSize.toNat ≤ isizeMax
  | .locking batchSize => batchSize.toNat ≤ isizeMax
  | .adding _ | .counting _ | .added _ _ | .panicked => True

structure Conserved (s : State) : Prop where
  locked : Locked s
  sized : ∀ c ∈ s.calls, c.Sized
  permits : s.capacity.toNat ≤ maxPermits
  room : s.queue.length ≤ s.capacity.toNat
  sent : (s.accepted : Multiset ClientMessage) = gather Call.sent s.calls
  fifo : s.batches.flatten ++ s.queue = s.accepted

theorem get_sized (batchSize : UInt64) : (Call.get batchSize).Sized := by
  unfold Call.get
  split
  · rename_i hle
    exact (Nat.le_mul_of_pos_right _ (by decide : 0 < clientMessageSize)).trans hle
  · trivial

theorem get_batch (batchSize : UInt64) : (Call.get batchSize).batch = [] := by
  unfold Call.get
  split <;> rfl

theorem get_sent (batchSize : UInt64) : (Call.get batchSize).sent = 0 := by
  unfold Call.get
  split <;> rfl

theorem conserved_begin {s : State} (hc : Conserved s) {c : Call} (hheld : ¬ c.HasHeld)
    (hsized : c.Sized) (hsent : c.sent = 0) (hbatch : c.batch = []) :
    Conserved { s with calls := s.calls ++ [c] } where
  locked := locked_begin hc.locked hheld
  sized := List.forall_mem_append.mpr ⟨hc.sized, List.forall_mem_singleton.mpr hsized⟩
  permits := hc.permits
  room := hc.room
  sent := by
    show _ = gather Call.sent (s.calls ++ [c])
    rw [gather_snoc, hsent, add_zero]
    exact hc.sent
  fifo := by
    show (s.held.map (look Call.batch [] (s.calls ++ [c]))).flatten ++ s.queue = _
    rw [look_snoc _ _ hbatch]
    exact hc.fifo

theorem sized_set {s : State} (hc : Conserved s) {t : ℕ} {c : Call} (h : c.Sized) :
    ∀ d ∈ s.calls.set t c, d.Sized := by
  intro d hd
  rcases List.mem_or_eq_of_mem_set hd with hd | rfl
  · exact hc.sized d hd
  · exact h

/-- A call moves that sends nothing. -/
theorem sent_set {s : State} (hc : Conserved s) {t : ℕ} {c : Call} (ht : s.calls[t]? = some c)
    (c' : Call) (h : c'.sent = c.sent) :
    (s.accepted : Multiset ClientMessage) = gather Call.sent (s.calls.set t c') := by
  rw [gather_set_eq Call.sent ht h]
  exact hc.sent

/-- A call moves that takes nothing out of the channel. -/
theorem batches_set {calls : List Call} {t : ℕ} {c : Call} (held : List ℕ)
    (ht : calls[t]? = some c) (c' : Call) (h : c'.batch = c.batch) :
    held.map (look Call.batch [] (calls.set t c')) = held.map (look Call.batch [] calls) := by
  rw [look_set_eq _ _ ht h]

theorem fifo_set {s : State} (hc : Conserved s) {t : ℕ} {c : Call} (ht : s.calls[t]? = some c)
    (c' : Call) (h : c'.batch = c.batch) :
    (s.held.map (look Call.batch [] (s.calls.set t c'))).flatten ++ s.queue = s.accepted := by
  rw [batches_set s.held ht c' h]
  exact hc.fifo

/-- The get that has the lock takes the first message of the channel: its batch is the last. -/
theorem batches_recv {s : State} (hl : Locked s) {t : ℕ} {batchSize : UInt64}
    {messages : List ClientMessage} (ht : s.calls[t]? = some (.receiving batchSize messages))
    (message : ClientMessage) :
    (s.held.map (look Call.batch []
      (s.calls.set t (.receiving batchSize (messages ++ [message]))))).flatten =
      s.batches.flatten ++ [message] := by
  obtain ⟨before, hheld⟩ := hl.last t (hl.one t _ ht trivial)
  have hnot : t ∉ before := by
    have hnodup := hl.nodup
    rw [hheld] at hnodup
    exact fun hmem => (List.nodup_append.mp hnodup).2.2 t hmem t (by simp) rfl
  have hsame : before.map (Function.update (look Call.batch [] s.calls) t (messages ++ [message]))
      = before.map (look Call.batch [] s.calls) :=
    List.map_congr_left fun u hu =>
      Function.update_of_ne (fun (heq : u = t) => hnot (heq ▸ hu)) _ _
  rw [State.batches, hheld, look_set _ _ _ ht, List.map_append, List.map_append,
    List.flatten_append, List.flatten_append, List.append_assoc]
  show (before.map (Function.update _ t (messages ++ [message]))).flatten ++ _ = _
  rw [hsame, List.map_singleton, List.map_singleton, Function.update_self, look_of_getElem? ht,
    List.flatten_singleton, List.flatten_singleton]
  rfl

/-- By cases on the step.  A `send` puts its message at the end of what was accepted and of the
channel, a `try_recv` moves the front of the channel to the end of the last batch, and the others
change neither. -/
theorem conserved_step {s s' : State} {e : Event} (hc : Conserved s) (h : step s e = some s') :
    Conserved s' := by
  have hlocked := locked_step hc.locked h
  cases step_cases h with
  | add message => exact conserved_begin hc (by simp [Call.HasHeld]) trivial rfl rfl
  | get batchSize =>
    exact conserved_begin hc (get_not_hasHeld batchSize) (get_sized batchSize)
      (get_sent batchSize) (get_batch batchSize)
  | @send t message ht hroom =>
    refine ⟨hlocked, sized_set hc trivial, hc.permits, ?_, ?_, ?_⟩
    · rw [List.length_append, List.length_singleton]
      exact hroom
    · simp only
      rw [gather_set_take Call.sent ht (show Call.sent (.counting message) =
        message ::ₘ Call.sent (.adding message) from rfl), ← hc.sent, Multiset.cons_coe,
        Multiset.coe_eq_coe]
      exact List.perm_append_singleton message s.accepted
    · simp only [State.batches]
      rw [batches_set s.held ht (.counting message) rfl, ← List.append_assoc]
      exact congrArg (· ++ [message]) hc.fifo
  | @fetchAdd t message ht =>
    exact ⟨hlocked, sized_set hc trivial, hc.permits, hc.room,
      sent_set hc ht (.added message _) rfl, fifo_set hc ht (.added message _) rfl⟩
  | @lock t batchSize ht hfree =>
    have hsized : (Call.locking batchSize).Sized := hc.sized _ (List.mem_of_getElem? ht)
    refine ⟨hlocked, sized_set hc ⟨Nat.zero_le _, hsized⟩, hc.permits, hc.room,
      sent_set hc ht (.receiving batchSize []) rfl, ?_⟩
    -- the batch of the get that locks is empty
    simp only [State.batches]
    rw [batches_set _ ht (.receiving batchSize []) rfl, List.map_append, List.flatten_append,
      List.map_singleton, look_of_getElem? ht, List.flatten_singleton]
    exact (congrArg (· ++ s.queue) (List.append_nil _)).trans hc.fifo
  | @recv t batchSize messages rest message ht hlt hq =>
    have hsized : (Call.receiving batchSize messages).Sized :=
      hc.sized _ (List.mem_of_getElem? ht)
    refine ⟨hlocked, sized_set hc ⟨?_, hsized.2⟩, hc.permits, ?_,
      sent_set hc ht (.receiving batchSize (messages ++ [message])) rfl, ?_⟩
    · rw [List.length_append, List.length_singleton]
      exact hlt
    · have hroom := hc.room
      rw [hq, List.length_cons] at hroom
      exact Nat.le_of_succ_le hroom
    · have hfifo := hc.fifo
      rw [hq] at hfifo
      simp only [State.batches]
      rw [batches_recv hc.locked ht, List.append_assoc]
      exact hfifo
  | @finish t batchSize messages ht hend =>
    have hsized := hc.sized _ (List.mem_of_getElem? ht)
    exact ⟨hlocked, sized_set hc hsized, hc.permits, hc.room,
      sent_set hc ht (.subtracting batchSize messages) rfl,
      fifo_set hc ht (.subtracting batchSize messages) rfl⟩
  | @fetchSub t batchSize messages ht =>
    have hsized := hc.sized _ (List.mem_of_getElem? ht)
    exact ⟨hlocked, sized_set hc hsized, hc.permits, hc.room,
      sent_set hc ht (.got batchSize messages) rfl, fifo_set hc ht (.got batchSize messages) rfl⟩

/-! ## 5. The counter

Each call is charged with the difference that it makes for the time being: a message sent and
not counted, or messages taken out and not subtracted.  The counter and the charges together are
what has gone through, in the arithmetic of the machine. -/

/-- The message that the call has sent and not counted. -/
def Call.uncounted : Call → Multiset ClientMessage
  | .counting message => {message}
  | .adding _ | .added _ _ | .locking _ | .receiving _ _ | .subtracting _ _ | .got _ _
  | .panicked => 0

/-- The messages that the call has taken out of the channel and not subtracted. -/
def Call.unsubtracted : Call → Multiset ClientMessage
  | .receiving _ messages | .subtracting _ messages => messages
  | .adding _ | .counting _ | .added _ _ | .locking _ | .got _ _ | .panicked => 0

/-- How many messages have been sent and not counted. -/
def State.uncounted (s : State) : ℕ := (gather Call.uncounted s.calls).card

/-- How many messages are in the channel, or taken out of it and not subtracted. -/
def State.unsubtracted (s : State) : ℕ :=
  s.queue.length + (gather Call.unsubtracted s.calls).card

/-- The counter is short of what has not been subtracted by what has not been counted. -/
def Counted (s : State) : Prop :=
  s.messageCount + UInt64.ofNat s.uncounted = UInt64.ofNat s.unsubtracted

theorem get_counts (batchSize : UInt64) :
    (Call.get batchSize).uncounted = 0 ∧ (Call.get batchSize).unsubtracted = 0 := by
  unfold Call.get
  split <;> exact ⟨rfl, rfl⟩

/-- A call moves: what it held uncounted and unsubtracted is replaced. -/
theorem counts_set {calls : List Call} {t : ℕ} {c : Call} (ht : calls[t]? = some c) (c' : Call) :
    (gather Call.uncounted (calls.set t c')).card + c.uncounted.card =
      (gather Call.uncounted calls).card + c'.uncounted.card ∧
    (gather Call.unsubtracted (calls.set t c')).card + c.unsubtracted.card =
      (gather Call.unsubtracted calls).card + c'.unsubtracted.card :=
  ⟨card_gather_set Call.uncounted c' ht, card_gather_set Call.unsubtracted c' ht⟩

/-- **What a step does to the counter** and to what it should count: nothing, or a message is sent,
or one is counted, or a batch is subtracted.  By cases on the step, with the charges of the call
that moves replaced (`counts_set`). -/
theorem counts_step {s s' : State} {e : Event} (h : step s e = some s') :
    (s'.messageCount = s.messageCount ∧ s'.uncounted = s.uncounted ∧
      s'.unsubtracted = s.unsubtracted) ∨
    (s'.messageCount = s.messageCount ∧ s'.uncounted = s.uncounted + 1 ∧
      s'.unsubtracted = s.unsubtracted + 1) ∨
    (s'.messageCount = s.messageCount + 1 ∧ s.uncounted = s'.uncounted + 1 ∧
      s'.unsubtracted = s.unsubtracted) ∨
    (∃ t batchSize messages, e = .move t ∧
      s.calls[t]? = some (.subtracting batchSize messages) ∧
      s'.messageCount = s.messageCount - UInt64.ofNat messages.length ∧
      s'.uncounted = s.uncounted ∧ s.unsubtracted = s'.unsubtracted + messages.length) := by
  cases step_cases h with
  | add message =>
    refine Or.inl ⟨rfl, ?_, ?_⟩ <;>
      simp [State.uncounted, State.unsubtracted, Call.uncounted, Call.unsubtracted]
  | get batchSize =>
    obtain ⟨hu, hs⟩ := get_counts batchSize
    refine Or.inl ⟨rfl, ?_, ?_⟩ <;> simp [State.uncounted, State.unsubtracted, hu, hs]
  | @send t message ht hroom =>
    obtain ⟨hu, hs⟩ := counts_set ht (.counting message)
    refine Or.inr (Or.inl ⟨rfl, ?_, ?_⟩)
    · simpa [State.uncounted, Call.uncounted] using hu
    · simp only [Call.unsubtracted, Multiset.card_zero, add_zero] at hs
      simp only [State.unsubtracted, hs, List.length_append, List.length_singleton]
      omega
  | @fetchAdd t message ht =>
    obtain ⟨hu, hs⟩ := counts_set ht (.added message (s.messageCount + 1 = s.capacity))
    refine Or.inr (Or.inr (Or.inl ⟨rfl, ?_, ?_⟩))
    · simpa [State.uncounted, Call.uncounted] using hu.symm
    · simpa [State.unsubtracted, Call.unsubtracted] using hs
  | @lock t batchSize ht hfree =>
    obtain ⟨hu, hs⟩ := counts_set ht (.receiving batchSize [])
    refine Or.inl ⟨rfl, ?_, ?_⟩
    · simpa [State.uncounted, Call.uncounted] using hu
    · simpa [State.unsubtracted, Call.unsubtracted] using hs
  | @recv t batchSize messages rest message ht hlt hq =>
    obtain ⟨hu, hs⟩ := counts_set ht (.receiving batchSize (messages ++ [message]))
    refine Or.inl ⟨rfl, ?_, ?_⟩
    · simpa [State.uncounted, Call.uncounted] using hu
    · simp only [Call.unsubtracted, Multiset.coe_card, List.length_append,
        List.length_singleton] at hs
      simp only [State.unsubtracted, hq, List.length_cons]
      omega
  | @finish t batchSize messages ht hend =>
    obtain ⟨hu, hs⟩ := counts_set ht (.subtracting batchSize messages)
    refine Or.inl ⟨rfl, ?_, ?_⟩
    · simpa [State.uncounted, Call.uncounted] using hu
    · simpa [State.unsubtracted, Call.unsubtracted] using hs
  | @fetchSub t batchSize messages ht =>
    obtain ⟨hu, hs⟩ := counts_set ht (.got batchSize messages)
    refine Or.inr (Or.inr (Or.inr ⟨t, batchSize, messages, rfl, ht, rfl, ?_, ?_⟩))
    · simpa [State.uncounted, Call.uncounted] using hu
    · simp only [Call.unsubtracted, Multiset.coe_card, Multiset.card_zero, add_zero] at hs
      simp only [State.unsubtracted]
      omega

theorem counted_step {s s' : State} {e : Event} (hc : Counted s) (h : step s e = some s') :
    Counted s' := by
  unfold Counted at hc ⊢
  rcases counts_step h with ⟨hm, hu, hs⟩ | ⟨hm, hu, hs⟩ | ⟨hm, hu, hs⟩ |
    ⟨t, batchSize, messages, -, -, hm, hu, hs⟩
  · rw [hm, hu, hs]
    exact hc
  · rw [hm, hu, hs, UInt64.ofNat_add, UInt64.ofNat_add, ← hc]
    grind
  · rw [hu, UInt64.ofNat_add] at hc
    rw [hm, hs, ← hc]
    grind
  · rw [hs, UInt64.ofNat_add] at hc
    rw [hm, hu]
    grind

/-! ## 6. Every run

The three invariants together, from the new accumulator on.  The capacity never changes. -/

/-- The call has returned. -/
def Call.Returned (c : Call) : Prop :=
  match c with
  | .added _ _ | .got _ _ | .panicked => True
  | .adding _ | .counting _ | .locking _ | .receiving _ _ | .subtracting _ _ => False

instance : DecidablePred Call.Returned
  | .added _ _ | .got _ _ | .panicked => inferInstanceAs (Decidable True)
  | .adding _ | .counting _ | .locking _ | .receiving _ _ | .subtracting _ _ =>
    inferInstanceAs (Decidable False)

/-- When no call is at work, the counter is how much is in the channel. -/
theorem messageCount_of_returned {s : State} (hcap : s.queue.length ≤ s.capacity.toNat)
    (hc : Counted s) (hr : ∀ c ∈ s.calls, c.Returned) :
    s.messageCount.toNat = s.queue.length := by
  have hu : gather Call.uncounted s.calls = 0 := by
    refine (gather_eq_zero_iff _).mpr fun c hmem => ?_
    have hret := hr c hmem
    cases c with
    | counting => exact absurd hret (by simp [Call.Returned])
    | _ => rfl
  have hs : gather Call.unsubtracted s.calls = 0 := by
    refine (gather_eq_zero_iff _).mpr fun c hmem => ?_
    have hret := hr c hmem
    cases c with
    | receiving | subtracting => exact absurd hret (by simp [Call.Returned])
    | _ => rfl
  have hlt := s.capacity.toNat_lt
  simp only [Counted, State.uncounted, State.unsubtracted, hu, hs, Multiset.card_zero,
    add_zero] at hc
  rw [show s.messageCount = UInt64.ofNat s.queue.length by simpa using hc, UInt64.toNat_ofNat']
  exact Nat.mod_eq_of_lt (by omega)

theorem conserved_new {batchSize : UInt64} {s : State} (h : State.new batchSize = some s) :
    Conserved s ∧ Counted s ∧ s.capacity = batchSize := by
  obtain ⟨acc, hacc, rfl⟩ := Option.map_eq_some_iff.mp h
  unfold MessageAccumulator.new at hacc
  split at hacc
  · rename_i hsize
    cases hacc
    exact ⟨⟨⟨by simp, by simp, List.nodup_nil, by simp⟩, by simp, hsize.2, Nat.zero_le _, rfl,
      rfl⟩, rfl, rfl⟩
  · exact absurd hacc (by simp)

theorem capacity_step {s s' : State} {e : Event} (h : step s e = some s') :
    s'.capacity = s.capacity := by
  cases step_cases h <;> rfl

/-- **The accumulator loses nothing**, whatever calls of `add` and `get` run at the same time.

The batches in the order in which the gets had the lock, and behind them the channel, are the
messages that the adds have sent, in the order in which they were accepted.  No batch has more
messages than its get asked for, the channel holds no more than its capacity, and when all calls
have returned the counter is the number of messages in the channel.

All of it is one invariant of the single steps.  The last part is the only one about the end of a
run: there the channel is smaller than its capacity, which is smaller than the range of the
counter, so that an equation modulo the range is an equation. -/
theorem accumulator_conserves (batchSize : UInt64) (s₀ s : State) (es : List Event)
    (hnew : State.new batchSize = some s₀) (h : run step s₀ es = some s) :
    s.batches.flatten <+: s.accepted ∧
    s.batches.flatten ++ s.queue = s.accepted ∧
    (s.accepted : Multiset ClientMessage) = gather Call.sent s.calls ∧
    (s.held.Nodup ∧ ∀ t, t ∈ s.held ↔ ∃ c, s.calls[t]? = some c ∧ c.HasHeld) ∧
    (∀ c ∈ s.calls, c.Sized) ∧
    s.queue.length ≤ batchSize.toNat ∧
    ((∀ c ∈ s.calls, c.Returned) → s.messageCount.toNat = s.queue.length) := by
  obtain ⟨hconserved, hcounted, hcap⟩ := conserved_new hnew
  have hinv := run_invariant (P := fun u => Conserved u ∧ Counted u ∧ u.capacity = batchSize)
    (fun u e u' hu he => ⟨conserved_step hu.1 he, counted_step hu.2.1 he,
      (capacity_step he).trans hu.2.2⟩) ⟨hconserved, hcounted, hcap⟩ h
  obtain ⟨hc, hcount, hcapacity⟩ := hinv
  exact ⟨⟨s.queue, hc.fifo⟩, hc.fifo, hc.sent, ⟨hc.locked.nodup, hc.locked.held⟩, hc.sized,
    hcapacity ▸ hc.room,
    messageCount_of_returned hc.room hcount⟩

/-- A message by its number. -/
def numbered (id : UInt64) : ClientMessage := { publishingId := id, message := { message := {} } }

/-- A get comes between the `send` of an add and its `fetch_add`: it takes the lock, finds the
message and then nothing more, and subtracts one. -/
def flushBetween : List Event :=
  [.add (numbered 0), .move 0, .get 4, .move 1, .move 1, .move 1, .move 1, .move 0]

/-- The counter goes below zero and comes back. -/
theorem accumulator_conserves_flushBetween : ∃ s₀ s, State.new 2 = some s₀ ∧
    run step s₀ flushBetween = some s ∧ s.batches = [[numbered 0]] ∧
    s.batches.flatten ++ s.queue = s.accepted ∧ s.messageCount.toNat = s.queue.length := by
  obtain ⟨-, hfifo, -, -, -, -, hcount⟩ := accumulator_conserves 2 _ _ flushBetween rfl rfl
  exact ⟨_, _, rfl, rfl, rfl, hfifo, hcount (by decide)⟩

end RabbitMqStream.Producer.Accumulator
