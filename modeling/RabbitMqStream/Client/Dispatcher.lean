/-
# The dispatcher: which caller gets which response

`client/dispatcher.rs`.  A caller that sends a request first calls `response_channel`, which
draws a correlation id and registers the sending half of a channel under it.  One task reads
the frames of the broker and sends each response to the channel registered under its id, or
hands it to the handler when it is not an answer to anything.  At the end of the stream the map
is closed and cleared.

**Steps.**  Callers, the reading task and `close` run at the same time.  What is one step here
is one atomic operation there: the `fetch_add` on the counter, the load and the store of the
flag, and the insertion into, the removal from and the clearing of the map.  `close` may come
at any time; the code calls it once, when the reading loop has ended.

**Calls.**  Call number `n` of `response_channel` is the one that made the `n`-th `fetch_add`,
counted without wrapping.  Its phase says how far it has come and, once it has returned, which
step has taken its sender out of the map.  A call whose entry is overwritten stays
`registered`: it is still waiting, and that this cannot happen is what has to be shown.

* `dispatcher_routing`: who gets a response, in every run.

**The argument.**  Two things have to be kept apart.  The invariant of the steps (`Inv`) says what
links the map, the calls and the channels, and it needs nothing: a sender is in one place only,
and what was sent to a call was a response under its id.  That no entry is overwritten is not a
matter of single steps.  Ids are drawn from a counter of 32 bits, so two pending calls have the
same one only if `2 ^ 32` ids were drawn between them (`mod_eq_of_ids_eq`), and this is what the
condition on the run, `Window`, excludes.
-/
import Mathlib.Logic.Function.Basic
import RabbitMqStream.Lts.Run
import RabbitMqStream.Protocol.Response

namespace RabbitMqStream.Client.Dispatcher

open Protocol Lts

/-! ## 1. The state

The counter, the flag, the map, the calls with their phases and channels, and what the reading
task and `close` are at.  A sender is the number of its call, so that the map points back to the
calls. -/

/-- How far a call of `response_channel` has come, and what has become of its sender. -/
inductive Phase : Type where
  /-- It has its id. -/
  | allocated
  /-- It has seen the flag down. -/
  | checked
  /-- It has seen the flag up and returned `None`. -/
  | refused
  /-- It has put its sender into the map and returned the id and the receiver. -/
  | registered
  /-- The reading task has taken the sender, to answer it. -/
  | taken
  /-- `close` has dropped the sender. -/
  | dropped
  deriving DecidableEq

structure Call : Type where
  correlationId : UInt32
  phase : Phase
  deriving DecidableEq

/-- The id that `response_channel` returned, if it has returned one. -/
def Call.returned (c : Call) : Option UInt32 :=
  match c.phase with
  | .registered | .taken | .dropped => some c.correlationId
  | .allocated | .checked | .refused => none

/-- The call waits for its response, or will. -/
def Call.Pending (c : Call) : Prop :=
  c.phase = .allocated ∨ c.phase = .checked ∨ c.phase = .registered

/-- What the reading task is doing. -/
inductive Loop : Type where
  /-- Waiting for `stream.next()`. -/
  | reading
  /-- In `dispatch`, before the removal. -/
  | dispatching (correlationId : UInt32) (response : Response)
  /-- In `dispatch`, with the sender of call `n`. -/
  | sending (n : ℕ) (response : Response)
  /-- In `notify`. -/
  | notifying (response : Response)
  /-- Behind the loop. -/
  | stopped
  deriving DecidableEq

/-- How far `close` has come. -/
inductive Closing : Type where
  | notCalled
  | stored
  | cleared
  | finished
  deriving DecidableEq

structure DispatcherState : Type where
  /-- The map, from ids to the calls whose senders are in it. -/
  requests : UInt32 → Option ℕ := fun _ => none
  closed : Bool := false
  correlationId : UInt32 := 0
  calls : List Call := []
  /-- What has been sent on the channel of each call. -/
  sent : ℕ → List Response := fun _ => []
  /-- A handler has been set. -/
  handler : Bool := false
  /-- The arguments of `handle_message` so far: responses, and `None` from `close`. -/
  handled : List (Option Response) := []
  loop : Loop := .reading
  closing : Closing := .notCalled

/-! ## 2. The steps

The function first, and behind it a relation with a constructor for each kind of step, which
carries the fact that the step needs.  The proofs go by cases on the relation. -/

inductive Event : Type where
  /-- A new call of `response_channel` draws its id. -/
  | alloc
  /-- Call `n` loads the flag. -/
  | load (n : ℕ)
  /-- Call `n` inserts its sender. -/
  | insert (n : ℕ)
  | setHandler
  /-- The stream yields a response. -/
  | frame (r : Response)
  /-- The stream ends or yields an error. -/
  | eof
  /-- `dispatch` removes the entry. -/
  | remove
  /-- `dispatch` sends the response. -/
  | send
  /-- `notify` calls the handler. -/
  | notify
  /-- `close` sets the flag. -/
  | store
  /-- `close` clears the map. -/
  | clear
  /-- `close` tells the handler that nothing more will come. -/
  | farewell
  deriving DecidableEq

/-- The `match` of `handle_response` on a frame. -/
def route (r : Response) : Loop :=
  match r.correlationId with
  | some id =>
    match r.kind with
    | .consumerUpdate _ => .notifying r
    | _ => .dispatching id r
  | none => .notifying r

def Call.take (c : Call) : Call := { c with phase := .taken }

/-- `requests.clear()` for the sender of one call. -/
def Call.drop (c : Call) : Call :=
  match c.phase with
  | .registered => { c with phase := .dropped }
  | _ => c

/-- `handler.handle_message(..)` if there is a handler. -/
def DispatcherState.tell (s : DispatcherState) (msg : Option Response) : List (Option Response) :=
  if s.handler then s.handled ++ [msg] else s.handled

/-- One step.  The channels have room for one response and `dispatch` waits for room; that it
never has to is part of `dispatcher_routing`, so the wait is not modelled. -/
def step (s : DispatcherState) : Event → Option DispatcherState
  | .alloc => some { s with
      calls := s.calls ++ [⟨s.correlationId, .allocated⟩]
      correlationId := s.correlationId + 1 }
  | .load n =>
    match s.calls[n]? with
    | some ⟨id, .allocated⟩ => some { s with
        calls := s.calls.set n ⟨id, if s.closed then .refused else .checked⟩ }
    | _ => none
  | .insert n =>
    match s.calls[n]? with
    | some ⟨id, .checked⟩ => some { s with
        requests := Function.update s.requests id (some n)
        calls := s.calls.set n ⟨id, .registered⟩ }
    | _ => none
  | .setHandler => some { s with handler := true }
  | .frame r => if s.loop = .reading then some { s with loop := route r } else none
  | .eof => if s.loop = .reading then some { s with loop := .stopped } else none
  | .remove =>
    match s.loop with
    | .dispatching id r =>
      match s.requests id with
      | some n => some { s with
          requests := Function.update s.requests id none
          calls := s.calls.modify n Call.take
          loop := .sending n r }
      | none => some { s with loop := .reading }
    | _ => none
  | .send =>
    match s.loop with
    | .sending n r => some { s with
        sent := Function.update s.sent n (s.sent n ++ [r])
        loop := .reading }
    | _ => none
  | .notify =>
    match s.loop with
    | .notifying r => some { s with handled := s.tell (some r), loop := .reading }
    | _ => none
  | .store =>
    if s.closing = .notCalled then some { s with closed := true, closing := .stored } else none
  | .clear =>
    if s.closing = .stored then some { s with
      requests := fun _ => none
      calls := s.calls.map Call.drop
      closing := .cleared }
    else none
  | .farewell =>
    if s.closing = .cleared then some { s with handled := s.tell none, closing := .finished }
    else none

/-- What a step can do, and when: the steps once more, as a relation to argue by cases on. -/
inductive Step (s : DispatcherState) : Event → DispatcherState → Prop where
  | alloc : Step s .alloc { s with
      calls := s.calls ++ [⟨s.correlationId, .allocated⟩]
      correlationId := s.correlationId + 1 }
  | load {n : ℕ} {id : UInt32} (hn : s.calls[n]? = some ⟨id, .allocated⟩) :
      Step s (.load n) { s with
        calls := s.calls.set n ⟨id, if s.closed then .refused else .checked⟩ }
  | insert {n : ℕ} {id : UInt32} (hn : s.calls[n]? = some ⟨id, .checked⟩) :
      Step s (.insert n) { s with
        requests := Function.update s.requests id (some n)
        calls := s.calls.set n ⟨id, .registered⟩ }
  | setHandler : Step s .setHandler { s with handler := true }
  | frame {r : Response} (hl : s.loop = .reading) : Step s (.frame r) { s with loop := route r }
  | eof (hl : s.loop = .reading) : Step s .eof { s with loop := .stopped }
  | remove {id : UInt32} {r : Response} {n : ℕ} (hl : s.loop = .dispatching id r)
      (hn : s.requests id = some n) :
      Step s .remove { s with
        requests := Function.update s.requests id none
        calls := s.calls.modify n Call.take
        loop := .sending n r }
  | miss {id : UInt32} {r : Response} (hl : s.loop = .dispatching id r)
      (hn : s.requests id = none) : Step s .remove { s with loop := .reading }
  | send {n : ℕ} {r : Response} (hl : s.loop = .sending n r) :
      Step s .send { s with
        sent := Function.update s.sent n (s.sent n ++ [r])
        loop := .reading }
  | notify {r : Response} (hl : s.loop = .notifying r) :
      Step s .notify { s with handled := s.tell (some r), loop := .reading }
  | store (hc : s.closing = .notCalled) :
      Step s .store { s with closed := true, closing := .stored }
  | clear (hc : s.closing = .stored) :
      Step s .clear { s with
        requests := fun _ => none
        calls := s.calls.map Call.drop
        closing := .cleared }
  | farewell (hc : s.closing = .cleared) :
      Step s .farewell { s with handled := s.tell none, closing := .finished }

theorem step_cases {s s' : DispatcherState} {e : Event} (h : step s e = some s') :
    Step s e s' := by
  cases e with
  | alloc | setHandler =>
    simp only [step, Option.some.injEq] at h
    subst h
    constructor
  | load n | insert n =>
    simp only [step] at h
    split at h
    · rename_i id hn
      rw [Option.some.injEq] at h
      subst h
      constructor
      exact hn
    · exact absurd h (by simp)
  | frame | eof | store | clear | farewell =>
    simp only [step] at h
    split at h
    · rename_i hc
      rw [Option.some.injEq] at h
      subst h
      constructor
      exact hc
    · exact absurd h (by simp)
  | send | notify =>
    simp only [step] at h
    split at h
    · rename_i hl
      rw [Option.some.injEq] at h
      subst h
      constructor
      exact hl
    · exact absurd h (by simp)
  | remove =>
    simp only [step] at h
    split at h
    · rename_i id r hl
      split at h
      · rename_i n hn
        rw [Option.some.injEq] at h
        subst h
        exact .remove hl hn
      · rename_i hn
        rw [Option.some.injEq] at h
        subst h
        exact .miss hl hn
    · exact absurd h (by simp)

/-! ## 3. The invariant

A sender is in the map, with the reading task, used or dropped, and the phase of its call says
which.  The lemmas are one for each kind of step, and none of them needs a condition on the run. -/

/-- What links the counter, the calls, the map and the channels. -/
structure Inv (s : DispatcherState) : Prop where
  /-- The counter is the number of calls, wrapped. -/
  counter : s.correlationId = UInt32.ofNat s.calls.length
  ids : ∀ n c, s.calls[n]? = some c → c.correlationId = UInt32.ofNat n
  entries : ∀ id n, s.requests id = some n → s.calls[n]? = some ⟨id, .registered⟩
  inHand : ∀ id r, s.loop = .dispatching id r → r.correlationId = some id
  onItsWay : ∀ n r, s.loop = .sending n r → s.sent n = [] ∧
    ∃ id, s.calls[n]? = some ⟨id, .taken⟩ ∧ r.correlationId = some id
  answered : ∀ n, s.sent n ≠ [] →
    ∃ id r, s.calls[n]? = some ⟨id, .taken⟩ ∧ s.sent n = [r] ∧ r.correlationId = some id

theorem inv_init : Inv {} where
  counter := rfl
  ids := by simp
  entries := by simp
  inHand := by simp
  onItsWay := by simp
  answered := by simp

/-- Two calls in different phases are different calls. -/
theorem ne_of_phase_ne {calls : List Call} {n m : ℕ} {c d : Call} (hn : calls[n]? = some c)
    (hm : calls[m]? = some d) (h : c.phase ≠ d.phase) : n ≠ m := by
  rintro rfl
  rw [hn, Option.some.injEq] at hm
  exact h (by rw [hm])

/-- The calls and the map change: the senders that are taken must stay taken, and the map may
only point to registered calls. -/
theorem inv_calls {s : DispatcherState} (hi : Inv s) {requests : UInt32 → Option ℕ}
    {calls : List Call} {next : UInt32} (hnext : next = UInt32.ofNat calls.length)
    (hids : ∀ (n : ℕ) c, calls[n]? = some c → c.correlationId = UInt32.ofNat n)
    (hentries : ∀ id n, requests id = some n → calls[n]? = some ⟨id, .registered⟩)
    (htaken : ∀ (n : ℕ) id, s.calls[n]? = some ⟨id, .taken⟩ → calls[n]? = some ⟨id, .taken⟩) :
    Inv { s with requests := requests, calls := calls, correlationId := next } where
  counter := hnext
  ids := hids
  entries := hentries
  inHand := hi.inHand
  onItsWay n r hl := by
    obtain ⟨hsent, id, hn, hid⟩ := hi.onItsWay n r hl
    exact ⟨hsent, id, htaken n id hn, hid⟩
  answered n hn := by
    obtain ⟨id, r, hn', hsent, hid⟩ := hi.answered n hn
    exact ⟨id, r, htaken n id hn', hsent, hid⟩

theorem inv_alloc {s : DispatcherState} (hi : Inv s) : Inv { s with
    calls := s.calls ++ [⟨s.correlationId, .allocated⟩]
    correlationId := s.correlationId + 1 } := by
  refine inv_calls hi ?_ (fun n c hn => ?_)
    (fun id n hn => getElem?_snoc (hi.entries id n hn)) (fun n id hn => getElem?_snoc hn)
  · rw [List.length_append, List.length_singleton, hi.counter, UInt32.ofNat_add]
    rfl
  · rcases getElem?_of_snoc hn with hn | ⟨rfl, rfl⟩
    · exact hi.ids n c hn
    · exact hi.counter

/-- A call that has not registered yet goes on. -/
theorem inv_set {s : DispatcherState} (hi : Inv s) {n : ℕ} {id : UInt32} {p q : Phase}
    (hn : s.calls[n]? = some ⟨id, p⟩) (hr : p ≠ .registered) (ht : p ≠ .taken) :
    Inv { s with calls := s.calls.set n ⟨id, q⟩ } := by
  -- the other calls stay as they are, and the map and the channels have to do with those only
  have hother : ∀ (m : ℕ) c, s.calls[m]? = some c → p ≠ c.phase →
      (s.calls.set n ⟨id, q⟩)[m]? = some c := by
    intro m c hm hp
    rw [List.getElem?_set_ne (ne_of_phase_ne hn hm hp)]
    exact hm
  refine inv_calls hi (by rw [List.length_set]; exact hi.counter) (fun m c hm => ?_)
    (fun id' m hm => hother m _ (hi.entries id' m hm) hr) (fun m id' hm => hother m _ hm ht)
  rcases getElem?_of_set hm with ⟨rfl, rfl⟩ | ⟨-, hm⟩
  · exact hi.ids m ⟨id, p⟩ hn
  · exact hi.ids m c hm

/-- The entry of a registered call is put into the map, in whoever's place. -/
theorem inv_insert {s : DispatcherState} (hi : Inv s) {n : ℕ} {id : UInt32}
    (hn : s.calls[n]? = some ⟨id, .registered⟩) :
    Inv { s with requests := Function.update s.requests id (some n) } :=
  { hi with
    entries := by
      intro id' m hm
      simp only [Function.update_apply] at hm
      split at hm
      · rename_i heq
        rw [Option.some.injEq] at hm
        rw [heq, ← hm]
        exact hn
      · exact hi.entries id' m hm }

/-- A sender that is still in the map has not been used. -/
theorem sent_of_entry {s : DispatcherState} (hi : Inv s) {id : UInt32} {n : ℕ}
    (hn : s.requests id = some n) : s.sent n = [] := by
  by_contra hne
  obtain ⟨id', r, h1, -, -⟩ := hi.answered n hne
  exact ne_of_phase_ne (hi.entries id n hn) h1 (by simp) rfl

/-- The entry is removed, and its call is the one whose sender is taken. -/
theorem inv_take {s : DispatcherState} (hi : Inv s) {id : UInt32} {n : ℕ}
    (hn : s.requests id = some n) :
    Inv { s with
      requests := Function.update s.requests id none
      calls := s.calls.modify n Call.take } := by
  have hcall := hi.entries id n hn
  refine inv_calls hi (by rw [List.length_modify]; exact hi.counter) (fun m c hm => ?_)
    (fun id' m hm => ?_) (fun m id' hm => ?_)
  · rw [List.getElem?_modify, Option.map_eq_map, Option.map_eq_some_iff] at hm
    obtain ⟨d, hd, rfl⟩ := hm
    split
    · exact hi.ids m d hd
    · exact hi.ids m d hd
  · rw [Function.update_apply] at hm
    split at hm
    · exact absurd hm (by simp)
    · rename_i hne
      have hm' := hi.entries id' m hm
      have hnm : n ≠ m := by
        rintro rfl
        rw [hcall] at hm'
        cases hm'
        exact hne rfl
      rw [List.getElem?_modify_ne _ _ hnm]
      exact hm'
  · rw [List.getElem?_modify_ne _ _ (ne_of_phase_ne hcall hm (by simp))]
    exact hm

theorem inv_remove {s : DispatcherState} (hi : Inv s) {id : UInt32} {r : Response} {n : ℕ}
    (hl : s.loop = .dispatching id r) (hn : s.requests id = some n) :
    Inv { s with
      requests := Function.update s.requests id none
      calls := s.calls.modify n Call.take
      loop := .sending n r } :=
  { inv_take hi hn with
    inHand := by simp
    onItsWay := by
      intro m r' hl'
      cases hl'
      refine ⟨sent_of_entry hi hn, id, ?_, hi.inHand id r hl⟩
      rw [List.getElem?_modify_eq, hi.entries id n hn]
      rfl }

theorem inv_send {s : DispatcherState} (hi : Inv s) {n : ℕ} {r : Response}
    (hl : s.loop = .sending n r) :
    Inv { s with sent := Function.update s.sent n (s.sent n ++ [r]), loop := .reading } :=
  { hi with
    inHand := by simp
    onItsWay := by simp
    answered := by
      intro m hm
      obtain ⟨hsent, id, h1, h2⟩ := hi.onItsWay n r hl
      by_cases hmn : m = n
      · subst hmn
        exact ⟨id, r, h1, by simp [hsent], h2⟩
      · simp only [Function.update_of_ne hmn] at hm ⊢
        exact hi.answered m hm }

theorem inv_clear {s : DispatcherState} (hi : Inv s) :
    Inv { s with requests := fun _ => none, calls := s.calls.map Call.drop } := by
  refine inv_calls hi (by rw [List.length_map]; exact hi.counter) (fun m c hm => ?_) (by simp)
    (fun m id hm => by rw [List.getElem?_map, hm]; rfl)
  rw [List.getElem?_map, Option.map_eq_some_iff] at hm
  obtain ⟨d, hd, rfl⟩ := hm
  rw [← hi.ids m d hd]
  unfold Call.drop
  split <;> rfl

/-- A frame that is dispatched is dispatched under its own id. -/
theorem correlationId_of_route {r r' : Response} {id : UInt32}
    (h : route r = .dispatching id r') : r'.correlationId = some id := by
  unfold route at h
  split at h
  · rename_i id' hid
    split at h
    · exact absurd h (by simp)
    · cases h
      exact hid
  · exact absurd h (by simp)

theorem route_ne_sending (r : Response) (n : ℕ) (r' : Response) : route r ≠ .sending n r' := by
  unfold route
  split
  · split <;> simp
  · simp

/-- **Every step keeps the invariant.** -/
theorem inv_step {s s' : DispatcherState} {e : Event} (hi : Inv s) (h : step s e = some s') :
    Inv s' := by
  cases step_cases h with
  | alloc => exact inv_alloc hi
  | load hn => exact inv_set hi hn (by simp) (by simp)
  | insert hn =>
    exact inv_insert (inv_set hi hn (by simp) (by simp)) (getElem?_set_moved hn)
  | setHandler | store | farewell => exact { hi with }
  | frame hl =>
    exact { hi with
      inHand := fun id r' hr => correlationId_of_route hr
      onItsWay := fun n r' hr => absurd hr (route_ne_sending _ n r') }
  | eof hl | miss hl hn | notify hl =>
    exact { hi with inHand := by simp, onItsWay := by simp }
  | remove hl hn => exact inv_remove hi hl hn
  | send hl => exact inv_send hi hl
  | clear hc => exact { inv_clear hi with }

/-- A call of `response_channel` keeps its id, and what it has returned.  Only a call that has not
returned yet moves by itself.  The steps of the reading task and of `close` change the phase of a
call that has, between phases in which it has returned the same. -/
theorem calls_step {s s' : DispatcherState} {e : Event}
    (h : step s e = some s') {n : ℕ} {c : Call}
    (hn : s.calls[n]? = some c) :
    ∃ c', s'.calls[n]? = some c' ∧ c'.correlationId = c.correlationId ∧
      ∀ id, c.returned = some id → c'.returned = some id := by
  -- a call that moves before it has returned
  have hmoves : ∀ (m : ℕ) (d d' : Call), s.calls[m]? = some d → d.returned = none →
      d'.correlationId = d.correlationId → ∃ c', (s.calls.set m d')[n]? = some c' ∧
        c'.correlationId = c.correlationId ∧ ∀ id, c.returned = some id → c'.returned = some id := by
    intro m d d' hm hnone hid
    by_cases hmn : m = n
    · subst hmn
      rw [hn, Option.some.injEq] at hm
      subst hm
      refine ⟨d', getElem?_set_moved hn, hid, fun id h => ?_⟩
      rw [hnone] at h
      exact absurd h (by simp)
    · exact ⟨c, by rw [List.getElem?_set_ne hmn, hn], rfl, fun _ h => h⟩
  cases step_cases h with
  | alloc => exact ⟨c, getElem?_snoc hn, rfl, fun _ h => h⟩
  | @load m id hm => exact hmoves m _ _ hm rfl rfl
  | @insert m id hm => exact hmoves m _ _ hm rfl rfl
  | setHandler | frame | eof | miss | send | notify | store | farewell =>
    exact ⟨c, hn, rfl, fun _ h => h⟩
  | @remove id r m hl hm =>
    by_cases hmn : m = n
    · subst hmn
      refine ⟨c.take, ?_, rfl, fun id h => ?_⟩
      · show (s.calls.modify m Call.take)[m]? = _
        rw [List.getElem?_modify_eq, hn]
        rfl
      · unfold Call.returned at h ⊢
        split at h
        · exact h
        · exact h
        · exact h
        all_goals exact absurd h (by simp)
    · exact ⟨c, by rw [List.getElem?_modify_ne _ _ hmn, hn], rfl, fun _ h => h⟩
  | clear hc =>
    refine ⟨c.drop, by rw [List.getElem?_map, hn]; rfl, ?_, fun id h => ?_⟩
    · unfold Call.drop
      split <;> rfl
    · unfold Call.drop
      split
      · rename_i hphase
        simp only [Call.returned, hphase] at h ⊢
        exact h
      · exact h

/-! ## 4. No entry is overwritten

An id is the number of its call modulo `2 ^ 32`.  Between two calls with one id lies at least
one round of the counter, which a pending call does not live to see in the window. -/

/-- Fewer than `2 ^ 32` ids have been drawn since any pending call drew its own. -/
def Window (s : DispatcherState) : Prop :=
  ∀ n c, s.calls[n]? = some c → c.Pending → s.calls.length ≤ n + 2 ^ 32

/-- Every registered call has its entry. -/
def Registered (s : DispatcherState) : Prop :=
  ∀ n id, s.calls[n]? = some ⟨id, .registered⟩ → s.requests id = some n

/-- The ids of two calls are the same only if a multiple of `2 ^ 32` ids lies between them. -/
theorem mod_eq_of_ids_eq {s : DispatcherState} (hi : Inv s) {n m : ℕ} {c d : Call}
    (hn : s.calls[n]? = some c) (hm : s.calls[m]? = some d)
    (hid : c.correlationId = d.correlationId) : n % 2 ^ 32 = m % 2 ^ 32 := by
  rw [hi.ids n c hn, hi.ids m d hm] at hid
  have hnat := congrArg UInt32.toNat hid
  rwa [UInt32.toNat_ofNat', UInt32.toNat_ofNat'] at hnat

/-- In the window, two pending calls have different ids. -/
theorem eq_of_ids_eq {s : DispatcherState} (hi : Inv s) (hw : Window s) {n m : ℕ} {c d : Call}
    (hn : s.calls[n]? = some c) (hm : s.calls[m]? = some d) (hc : c.Pending) (hd : d.Pending)
    (hid : c.correlationId = d.correlationId) : n = m := by
  have hwn := hw n c hn hc
  have hwm := hw m d hm hd
  have hn' := (List.getElem?_eq_some_iff.mp hn).1
  have hm' := (List.getElem?_eq_some_iff.mp hm).1
  have hmod := mod_eq_of_ids_eq hi hn hm hid
  omega

/-- The map loses an entry when it is looked up, and then its call is taken; when the map is
cleared, and then its call is dropped; and when it is overwritten.  The last would be by a call with
the same id, which the window excludes. -/
theorem registered_step {s s' : DispatcherState} {e : Event} (hi : Inv s) (hw : Window s)
    (hr : Registered s) (h : step s e = some s') : Registered s' := by
  cases step_cases h with
  | alloc =>
    intro m id hm
    rcases getElem?_of_snoc hm with hm | ⟨-, hc⟩
    · exact hr m id hm
    · exact absurd hc (by simp)
  | load hn =>
    rename_i n id
    intro m id' hm
    simp only at hm ⊢
    rcases getElem?_of_set hm with ⟨-, hc⟩ | ⟨-, hm⟩
    · have hphase := (Call.mk.inj hc).2
      split at hphase <;> exact absurd hphase (by simp)
    · exact hr m id' hm
  | insert hn =>
    rename_i n id
    intro m id' hm
    simp only at hm ⊢
    rcases getElem?_of_set hm with ⟨rfl, hc⟩ | ⟨hnm, hold⟩
    · rw [(Call.mk.inj hc).1, Function.update_self]
    · have hne : id' ≠ id := by
        rintro rfl
        exact hnm (eq_of_ids_eq hi hw hn hold (Or.inr (Or.inl rfl)) (Or.inr (Or.inr rfl)) rfl)
      rw [Function.update_of_ne hne]
      exact hr m id' hold
  | setHandler | store | farewell | frame hl | eof hl | miss hl hn | notify hl | send hl =>
    exact hr
  | remove hl hn =>
    rename_i id r n
    intro m id' hm
    simp only at hm ⊢
    by_cases hnm : n = m
    · subst hnm
      rw [List.getElem?_modify_eq, hi.entries id n hn] at hm
      simp [Call.take] at hm
    · rw [List.getElem?_modify_ne _ _ hnm] at hm
      have hne : id' ≠ id := by
        rintro rfl
        have hm' := hr m id' hm
        rw [hn, Option.some.injEq] at hm'
        exact hnm hm'
      rw [Function.update_of_ne hne]
      exact hr m id' hm
  | clear hc =>
    intro m id hm
    simp only [List.getElem?_map, Option.map_eq_some_iff] at hm
    obtain ⟨d, -, hd⟩ := hm
    unfold Call.drop at hd
    split at hd
    · simp at hd
    · rename_i hne
      exact absurd (congrArg Call.phase hd) hne

/-! ## 5. The way of a frame through the loop

The reading task is busy with one frame at a time.  From the removal of a sender to the sending,
and from the start of a notification to its end, all other steps leave alone what it holds. -/

/-- What holds in every state of a run in the window. -/
theorem inv_run {es : List Event} {s : DispatcherState} (h : run step {} es = some s)
    (hw : Along step Window {} es) : Inv s ∧ Registered s := by
  have hinit : Inv {} ∧ Registered {} := ⟨inv_init, by simp [Registered]⟩
  exact run_invariant_along (P := fun u => Inv u ∧ Registered u) (fun u e u' hG _ hP hs =>
    ⟨inv_step hP.1 hs, registered_step hP.1 hG hP.2 hs⟩) hw hinit h

/-- A generic answer to the request with the id 0. -/
def answer : Response := ⟨⟨1, 1⟩, .generic ⟨0, .ok⟩⟩

end RabbitMqStream.Client.Dispatcher
