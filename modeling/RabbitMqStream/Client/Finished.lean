/-
# What a finished call leaves in the map

`send_and_receive` registers its channel in the map of the dispatcher before it sends, and takes
nothing out of the map itself.  The entry goes when the dispatcher looks the id up, when the map is
closed, or when another call inserts under the same id.  A call that gets something out of its
channel, or learns there that its sender is gone, returns after one of these; a call that was
refused has never inserted.  That leaves the calls that return because their request could not be
handed over: the `?` behind `channel.send` returns with the entry still in the map.

* `finished_leavesNothing_iff`: finished calls have no entry all along a run exactly when no
  hand-over fails before the entry has gone.
* `longQuery_entry_stays`: a request that cannot be encoded.

**The argument.**  `LeavesNothing` is kept by all steps but one.  An entry is put into the map by
a call that is still in `response_channel`, so never by a finished one (`entries_step`).  A call
that returns from waiting has lost its entry before.  What remains is the `return` behind a
hand-over that has failed, and there the condition on the step says the same as the property of
the state that it leads to (`leavesNothing_step`).
-/
import RabbitMqStream.Client.Closing
import RabbitMqStream.Client.FailedEncode
import RabbitMqStream.Client.Requests

namespace RabbitMqStream.Client.Requests

open Lts Protocol

/-! ## 1. Calls that are through `response_channel`

A call of `send_and_receive` that waits or has returned is through `response_channel`, and a
call that is through does not insert again. -/

/-- The call has inserted its sender, or it has been refused. -/
def Through (c : Dispatcher.Call) : Prop := c.phase ≠ .allocated ∧ c.phase ≠ .checked

theorem through_drop {c : Dispatcher.Call} (hc : Through c) : Through c.drop := by
  rcases Dispatcher.drop_phase c with ⟨hphase, -⟩ | ⟨hphase, -⟩
  · exact ⟨by simp [hphase], by simp [hphase]⟩
  · exact ⟨hphase ▸ hc.1, hphase ▸ hc.2⟩

/-- A call that is through stays through. -/
theorem through_step {d d' : Dispatcher.DispatcherState} {e : Dispatcher.Event}
    (h : Dispatcher.step d e = some d') {n : ℕ} {c : Dispatcher.Call} (hn : d.calls[n]? = some c)
    (hc : Through c) : ∃ c', d'.calls[n]? = some c' ∧ Through c' := by
  -- the call that moves is another one
  have hother : ∀ (m : ℕ) (x y : Dispatcher.Call), d.calls[m]? = some x → ¬ Through x →
      ∃ c', (d.calls.set m y)[n]? = some c' ∧ Through c' := by
    intro m x y hm hx
    have hmn : m ≠ n := by
      rintro rfl
      rw [hn, Option.some.injEq] at hm
      exact hx (hm ▸ hc)
    exact ⟨c, by rw [List.getElem?_set_ne hmn, hn], hc⟩
  cases Dispatcher.step_cases h with
  | alloc => exact ⟨c, getElem?_snoc hn, hc⟩
  | load hm => exact hother _ _ _ hm fun hx => hx.1 rfl
  | insert hm => exact hother _ _ _ hm fun hx => hx.2 rfl
  | setHandler | frame | eof | miss | send | notify | store | farewell => exact ⟨c, hn, hc⟩
  | @remove id r m hl hm =>
    by_cases hmn : m = n
    · subst hmn
      refine ⟨c.take, ?_, by simp [Dispatcher.Call.take], by simp [Dispatcher.Call.take]⟩
      exact (List.getElem?_modify_eq ..).trans (by rw [hn]; rfl)
    · exact ⟨c, by rw [List.getElem?_modify_ne _ _ hmn, hn], hc⟩
  | clear hclosing =>
    exact ⟨c.drop, by rw [List.getElem?_map, hn]; rfl, through_drop hc⟩

structure Underway (s : Requests) : Prop where
  inv : Dispatcher.Inv s.dispatcher
  length : s.calls.length = s.dispatcher.calls.length
  /-- A call waits or returns only behind `response_channel`. -/
  through : ∀ (n : ℕ) (call : SendAndReceive), s.calls[n]? = some call →
    call.progress ≠ .begun → ∃ c, s.dispatcher.calls[n]? = some c ∧ Through c

theorem underway_init : Underway {} := ⟨Dispatcher.inv_init, rfl, by simp⟩

/-- The call that moves is through; the others have not moved. -/
theorem underway_set {s : Requests} (hu : Underway s) {n : ℕ} {c : Dispatcher.Call}
    (hc : s.dispatcher.calls[n]? = some c) (ht : Through c) (call : SendAndReceive) :
    Underway { s with calls := s.calls.set n call } := by
  refine ⟨hu.inv, List.length_set.trans hu.length, fun k call' hk hp => ?_⟩
  by_cases hnk : n = k
  · subst hnk
    exact ⟨c, hc, ht⟩
  · rw [List.getElem?_set_ne hnk] at hk
    exact hu.through k call' hk hp

theorem through_of_returned {c : Dispatcher.Call} {id : UInt32} (h : c.returned = some id) :
    Through c := by
  unfold Dispatcher.Call.returned at h
  constructor
  · intro hphase
    rw [hphase] at h
    exact absurd h (by simp)
  · intro hphase
    rw [hphase] at h
    exact absurd h (by simp)

theorem underway_step {s s' : Requests} {e : Event} (hu : Underway s) (h : step s e = some s') :
    Underway s' := by
  cases step_cases h with
  | request m =>
    refine ⟨Dispatcher.inv_alloc hu.inv, by simp [hu.length], fun n call hn hp => ?_⟩
    rcases getElem?_of_snoc hn with hn | ⟨-, rfl⟩
    · obtain ⟨c, hc, ht⟩ := hu.through n call hn hp
      exact ⟨c, getElem?_snoc hc, ht⟩
    · exact absurd rfl hp
  | dispatcher he hd =>
    refine ⟨Dispatcher.inv_step hu.inv hd, hu.length.trans (length_dispatcher he hd),
      fun n call hn hp => ?_⟩
    obtain ⟨c, hc, ht⟩ := hu.through n call hn hp
    exact through_step hd hc ht
  | handOver result hn hd hid =>
    exact { underway_set hu hd (through_of_returned hid) _ with }
  | refused hn hd => exact underway_set hu hd (by simp [Through]) _
  | response hn hs | dropped hn hd =>
    obtain ⟨c, hc, ht⟩ := hu.through _ _ hn (by simp)
    exact underway_set hu hc ht _

/-! ## 2. The entries of finished calls

No dispatcher step gives a finished call an entry.  So the only steps to look at are the
returns, and among these the one that does not come from the channel. -/

/-- No call that has returned has an entry under the id that it drew. -/
def LeavesNothing (s : Requests) : Prop :=
  ∀ (n : ℕ) (m : Method) (result : CallResult) (c : Dispatcher.Call),
    s.calls[n]? = some ⟨m, .returned result⟩ → s.dispatcher.calls[n]? = some c →
    s.dispatcher.requests c.correlationId ≠ some n

/-- No hand-over fails while the entry of the call is in the map. -/
def EntryGone (s : Requests) : Event → Prop
  | .handOver n result => result = .ok ∨
    ∀ c ∈ s.dispatcher.calls[n]?, s.dispatcher.requests c.correlationId ≠ some n
  | .request _ | .dispatcher _ | .refused _ | .recv _ => True

instance (s : Requests) : ∀ e : Event, Decidable (EntryGone s e)
  | .handOver n result => inferInstanceAs (Decidable (result = .ok ∨
    ∀ c ∈ s.dispatcher.calls[n]?, s.dispatcher.requests c.correlationId ≠ some n))
  | .request _ | .dispatcher _ | .refused _ | .recv _ => inferInstanceAs (Decidable True)

/-- An entry is under the id that its call drew, so it does not matter where one looks. -/
theorem leavesNothing_iff {s : Requests} (hu : Underway s) : LeavesNothing s ↔
    ∀ (n : ℕ) (m : Method) (result : CallResult), s.calls[n]? = some ⟨m, .returned result⟩ →
      ∀ id, s.dispatcher.requests id ≠ some n := by
  constructor
  · intro h n m result hn id hentry
    exact h n m result _ hn (hu.inv.entries id n hentry) hentry
  · intro h n m result c hn _
    exact h n m result hn c.correlationId

/-- A dispatcher step gives an entry to a call that is not through, or to none. -/
theorem entries_step {d d' : Dispatcher.DispatcherState} {e : Dispatcher.Event}
    (h : Dispatcher.step d e = some d') {id : UInt32} {n : ℕ} (hentry : d'.requests id = some n) :
    d.requests id = some n ∨ ∃ c, d.calls[n]? = some c ∧ ¬ Through c := by
  cases Dispatcher.step_cases h with
  | alloc | load | setHandler | frame | eof | miss | send | notify | store | farewell =>
    exact Or.inl hentry
  | @insert m id' hm =>
    simp only [Function.update_apply] at hentry
    split at hentry
    · obtain rfl := Option.some.inj hentry
      exact Or.inr ⟨_, hm, fun ht => ht.2 rfl⟩
    · exact Or.inl hentry
  | remove hl hm =>
    simp only [Function.update_apply] at hentry
    split at hentry
    · exact absurd hentry (by simp)
    · exact Or.inl hentry
  | clear hc => exact absurd hentry (by simp)

/-- A call returns: the finished calls have no entry exactly when it has none. -/
theorem leavesNothing_return {s : Requests} (hu : Underway s) (hs : LeavesNothing s) {n : ℕ}
    {m : Method} {p : Progress} {result : CallResult} (hn : s.calls[n]? = some ⟨m, p⟩)
    (hu' : Underway (s.setProgress n m (.returned result))) :
    LeavesNothing (s.setProgress n m (.returned result)) ↔
      ∀ id, s.dispatcher.requests id ≠ some n := by
  have hlt := (List.getElem?_eq_some_iff.mp hn).1
  rw [leavesNothing_iff hu']
  constructor
  · intro h
    exact h n m result (List.getElem?_set_self hlt)
  · intro h k m' result' hk id
    by_cases hnk : n = k
    · subst hnk
      exact h id
    · refine (leavesNothing_iff hu).mp hs k m' result' ?_ id
      exact (List.getElem?_set_ne hnk).symm.trans hk

/-- **Which steps keep finished calls out of the map.** By cases on the step.  A new call has not
returned, and a step of the dispatcher gives no finished call an entry.  A call that returns from
its channel has lost its entry before; the one that returns from a hand-over that has failed has
lost it exactly when the condition says so. -/
theorem leavesNothing_step {s s' : Requests} {e : Event} (hu : Underway s) (hs : LeavesNothing s)
    (h : step s e = some s') : LeavesNothing s' ↔ EntryGone s e := by
  have hu' := underway_step hu h
  cases step_cases h with
  | request m =>
    refine ⟨fun _ => trivial, fun _ => (leavesNothing_iff hu').mpr fun n m' result hn id => ?_⟩
    rcases getElem?_of_snoc hn with hn | ⟨-, hnew⟩
    · exact (leavesNothing_iff hu).mp hs n m' result hn id
    · exact absurd hnew (by simp)
  | dispatcher he hd =>
    refine ⟨fun _ => trivial, fun _ => (leavesNothing_iff hu').mpr fun n m result hn id => ?_⟩
    intro hentry
    rcases entries_step hd hentry with hbefore | ⟨c, hc, hnot⟩
    · exact (leavesNothing_iff hu).mp hs n m result hn id hbefore
    · obtain ⟨c', hc', ht⟩ := hu.through n _ hn (by simp)
      rw [hc, Option.some.injEq] at hc'
      exact hnot (hc' ▸ ht)
  | @handOver n m id c result hn hd hid =>
    have hown := (leavesNothing_iff hu).mp hs
    -- a hand-over that fails is a return
    have hfails : ∀ frames unanswered,
        (LeavesNothing { s with
            calls := s.calls.set n ⟨m, .returned .sendFailed⟩
            frames := frames
            unanswered := unanswered } ↔
          ∀ c ∈ s.dispatcher.calls[n]?, s.dispatcher.requests c.correlationId ≠ some n) := by
      intro frames unanswered
      refine (leavesNothing_return hu hs hn
        (underway_set hu hd (through_of_returned hid) _)).trans ⟨?_, ?_⟩
      · intro h c' _
        exact h c'.correlationId
      · intro h id' hentry
        exact h _ (hu.inv.entries id' n hentry) hentry
    cases result with
    | ok =>
      refine iff_of_true ((leavesNothing_iff hu').mpr fun k m' result' hk id' => ?_) (Or.inl rfl)
      rcases getElem?_of_set hk with ⟨-, hwaits⟩ | ⟨-, hk⟩
      · exact absurd hwaits (by simp)
      · exact hown k m' result' hk id'
    | failed | failedWritten =>
      exact (hfails _ _).trans ⟨Or.inr, fun hC => hC.resolve_left (by decide)⟩
  | @refused n m id hn hd =>
    refine iff_of_true ((leavesNothing_return hu hs hn hu').mpr fun id' hentry => ?_) trivial
    have hreg := hu.inv.entries id' n hentry
    rw [hd, Option.some.injEq, Dispatcher.Call.mk.injEq] at hreg
    exact absurd hreg.2 (by simp)
  | @response n m r rs hn hsent =>
    refine iff_of_true ((leavesNothing_return hu hs hn hu').mpr fun id hentry => ?_) trivial
    rw [Dispatcher.sent_of_entry hu.inv hentry] at hsent
    exact absurd hsent (by simp)
  | @dropped n m hn hd =>
    refine iff_of_true ((leavesNothing_return hu hs hn hu').mpr fun id hentry => ?_) trivial
    have hreg := hu.inv.entries id n hentry
    obtain ⟨c, hc, hgone⟩ := hd
    rw [hreg, Option.mem_some_iff] at hc
    subst hc
    rcases hgone with hphase | ⟨-, hother⟩
    · exact absurd hphase (by simp)
    · exact hother hentry

/-! ## 3. Every run -/

/-- **Finished calls leave nothing in the map**, all along a run, exactly when every hand-over that
fails in it fails after the entry of its call has gone.  As long as no id has been drawn twice
there is then nothing at all under the id of a finished call.

The equivalence over runs comes from the one over steps by `along_iff_steps`.  The last part is
about ids: an entry under the id of a finished call might be the entry of another call with the
same id, and with fewer than `2 ^ 32` calls there is none. -/
theorem finished_leavesNothing_iff (es : List Event) (s : Requests)
    (h : run step {} es = some s) :
    (Along step LeavesNothing {} es ↔ Steps step EntryGone {} es) ∧
    (Steps step EntryGone {} es → s.calls.length ≤ 2 ^ 32 →
      ∀ (n : ℕ) (m : Method) (result : CallResult) (c : Dispatcher.Call),
        s.calls[n]? = some ⟨m, .returned result⟩ → s.dispatcher.calls[n]? = some c →
        s.dispatcher.requests c.correlationId = none) := by
  have hleaves : LeavesNothing {} := by simp [LeavesNothing]
  have hiff := along_iff_steps (fun _ _ _ hu hs => underway_step hu hs)
    (fun _ _ _ hu hG hs => leavesNothing_step hu hG hs) underway_init hleaves h
  refine ⟨hiff, fun hsteps hlen n m result c hn hc => ?_⟩
  have hu := run_invariant (fun _ _ _ hu hs => underway_step hu hs) underway_init h
  have hs := (hiff.mpr hsteps).last h n m result c hn hc
  rw [hu.length] at hlen
  cases hentry : s.dispatcher.requests c.correlationId with
  | none => rfl
  | some k =>
    -- the entry of another call, which has drawn the same id
    have hk := hu.inv.entries _ k hentry
    have hmod := Dispatcher.mod_eq_of_ids_eq hu.inv hc hk rfl
    have hn' := (List.getElem?_eq_some_iff.mp hc).1
    have hk' := (List.getElem?_eq_some_iff.mp hk).1
    obtain rfl : n = k := by omega
    exact absurd hentry hs

/-- A stream is deleted; the broker answers, and the call returns. -/
def deletedStream : List Event :=
  [.request (.deleteStream "invoices"), .dispatcher (.load 0), .dispatcher (.insert 0),
    .handOver 0 .ok, .dispatcher (.frame ⟨⟨14, 1⟩, .generic ⟨0, .ok⟩⟩), .dispatcher .remove,
    .dispatcher .send, .recv 0]

theorem finished_leavesNothing_iff_deletedStream : ∃ s, run step {} deletedStream = some s ∧
    Along step LeavesNothing {} deletedStream ∧ s.dispatcher.requests 0 = none := by
  have hrule := finished_leavesNothing_iff deletedStream _ rfl
  exact ⟨_, rfl, hrule.1.mpr (by decide +kernel),
    hrule.2 (by decide +kernel) (by decide) 0 _ _ _ rfl rfl⟩

/-- The reference of this query is too long, so the request cannot be encoded: the call returns,
and its entry is still in the map. -/
theorem longQuery_entry_stays : ∃ s,
    run step {} [.request (.queryOffset (String.ofList (List.replicate 256 'r')) "s"),
      .dispatcher (.load 0), .dispatcher (.insert 0), .handOver 0 .failed] = some s ∧
    (RabbitMqStreamCodec.encode (Request.ofCommand
      ((Method.queryOffset (String.ofList (List.replicate 256 'r')) "s").request 0)) []).1 =
        .error (.protocol (.encode (.maxSizeError 256))) ∧
    s.calls = [⟨.queryOffset (String.ofList (List.replicate 256 'r')) "s",
      .returned .sendFailed⟩] ∧
    s.dispatcher.calls = [⟨0, .registered⟩] ∧ s.dispatcher.requests 0 = some 0 ∧
    ¬ LeavesNothing s := by
  refine ⟨_, rfl, by decide +kernel, rfl, rfl, rfl, fun hleaves => ?_⟩
  exact hleaves 0 _ _ _ rfl rfl rfl

end RabbitMqStream.Client.Requests
