/-
# Closing the map of requests

`RequestsMap::insert` loads the flag and then inserts; `RequestsMap::close` stores the flag and
then clears the map.  The flag keeps out the calls that load it after the store, and the clearing
takes out those that have inserted before it.  A call that has loaded the flag before the store
and inserts after the clearing is in neither group.

The runs here are those of the dispatcher without `remove`: what closing does to the senders that
are in the map.  After `close` nobody removes one, since the reading loop has ended.

* `close_no_waiter_iff`: no waiter survives exactly when no call is between its load and its
  insertion at the moment of the clearing.
* `close_waiter_survives`: one call, for which it is.

**The argument.**  Before the clearing no sender has gone, and the flag is up from the beginning
of `close` on (`Unclosed`).  Behind the clearing, if no call is between its load and its
insertion, the map is empty and stays so: whoever comes later finds the flag up (`Shut`).  If
there is such a call, it inserts whatever happens, and nobody takes the entry out again (`Late`).
The two invariants are the two directions.
-/
import RabbitMqStream.Client.Dispatcher

namespace RabbitMqStream.Client.Dispatcher

open Lts Protocol

/-! ## 1. Before the map is cleared

Up to the clearing no sender has gone, and from the beginning of `close` on the flag is up. -/

/-- Until the map is cleared no sender has gone, and once `close` has begun the flag is up. -/
structure Unclosed (s : DispatcherState) : Prop where
  phases : s.closing = .notCalled ∨ s.closing = .stored →
    ∀ c ∈ s.calls, c.phase ≠ .taken ∧ c.phase ≠ .dropped
  flag : s.closing ≠ .notCalled → s.closed = true

/-- One call changes its phase. -/
theorem forall_calls_set {P : Call → Prop} {calls : List Call} {n : ℕ} {c : Call}
    (h : ∀ d ∈ calls, P d) (hc : P c) {d : Call} (hd : d ∈ calls.set n c) : P d :=
  (List.mem_or_eq_of_mem_set hd).elim (h d) fun heq => heq ▸ hc

/-- One call is begun. -/
theorem forall_calls_snoc {P : Call → Prop} {calls : List Call} {c : Call}
    (h : ∀ d ∈ calls, P d) (hc : P c) {d : Call} (hd : d ∈ calls ++ [c]) : P d :=
  (List.mem_append.mp hd).elim (h d) fun heq => List.mem_singleton.mp heq ▸ hc

theorem unclosed_step {s s' : DispatcherState} {e : Event} (hu : Unclosed s)
    (hremove : e ≠ .remove) (h : step s e = some s') : Unclosed s' := by
  cases step_cases h with
  | alloc =>
    exact ⟨fun hc _ hd => forall_calls_snoc (hu.phases hc) (by simp) hd, hu.flag⟩
  | load hn =>
    refine ⟨fun hc _ hd => forall_calls_set (hu.phases hc) ?_ hd, hu.flag⟩
    split <;> simp
  | insert hn =>
    exact ⟨fun hc _ hd => forall_calls_set (hu.phases hc) (by simp) hd, hu.flag⟩
  | setHandler | frame hl | eof hl | send hl | notify hl => exact { hu with }
  | remove | miss => exact absurd rfl hremove
  | store hc => exact ⟨fun _ => hu.phases (Or.inl hc), fun _ => rfl⟩
  | clear hc => exact ⟨fun h => absurd h (by simp), fun _ => hu.flag (by simp [hc])⟩
  | farewell hc => exact ⟨fun h => absurd h (by simp), fun _ => hu.flag (by simp [hc])⟩

/-! ## 2. After the map is cleared

Two invariants for two kinds of states: either no call is past the flag and not in the map, and
then nothing comes into the map any more, or there is such a call. -/

/-- The map stays empty, and no call gets past the flag. -/
structure Shut (s : DispatcherState) : Prop where
  closed : s.closed = true
  closing : s.closing = .cleared ∨ s.closing = .finished
  empty : ∀ id, s.requests id = none
  phases : ∀ c ∈ s.calls, c.phase = .allocated ∨ c.phase = .refused ∨ c.phase = .dropped

theorem shut_step {s s' : DispatcherState} {e : Event} (hs : Shut s) (hremove : e ≠ .remove)
    (h : step s e = some s') : Shut s' := by
  cases step_cases h with
  | alloc => exact { hs with phases := fun _ => forall_calls_snoc hs.phases (Or.inl rfl) }
  | load hn =>
    refine { hs with phases := fun _ => forall_calls_set hs.phases (Or.inr (Or.inl ?_)) }
    rw [if_pos hs.closed]
  | insert hn =>
    rcases hs.phases _ (List.mem_of_getElem? hn) with h | h | h <;> exact absurd h (by simp)
  | setHandler | frame hl | eof hl | send hl | notify hl => exact { hs with }
  | remove | miss => exact absurd rfl hremove
  | store hc | clear hc =>
    rcases hs.closing with h | h <;> exact absurd (hc.symm.trans h) (by simp)
  | farewell hc => exact { hs with closing := Or.inr rfl }

/-- A call that was past the flag when the map was cleared inserts, and then stays. -/
structure Late (n : ℕ) (s : DispatcherState) : Prop where
  closing : s.closing = .cleared ∨ s.closing = .finished
  phase : ∃ id, s.calls[n]? = some ⟨id, .checked⟩ ∨ s.calls[n]? = some ⟨id, .registered⟩

/-- Another call moves, or this one does and it inserts. -/
theorem late_set {n m : ℕ} {calls : List Call} {c d : Call}
    (hphase : ∃ id, calls[n]? = some ⟨id, .checked⟩ ∨ calls[n]? = some ⟨id, .registered⟩)
    (hm : calls[m]? = some c) (hd : m = n → ∃ id, d = ⟨id, .registered⟩) :
    ∃ id, (calls.set m d)[n]? = some ⟨id, .checked⟩ ∨
      (calls.set m d)[n]? = some ⟨id, .registered⟩ := by
  by_cases hmn : m = n
  · obtain ⟨id, rfl⟩ := hd hmn
    subst hmn
    exact ⟨id, Or.inr (getElem?_set_moved hm)⟩
  · rw [List.getElem?_set_ne hmn]
    exact hphase

theorem late_step {n : ℕ} {s s' : DispatcherState} {e : Event} (hl : Late n s)
    (hremove : e ≠ .remove) (h : step s e = some s') : Late n s' := by
  cases step_cases h with
  | alloc =>
    obtain ⟨id, hid⟩ := hl.phase
    exact ⟨hl.closing, id, hid.imp getElem?_snoc getElem?_snoc⟩
  | @load m id hm =>
    refine ⟨hl.closing, late_set hl.phase hm fun hmn => ?_⟩
    obtain ⟨id', hid' | hid'⟩ := hl.phase
    · rw [hmn, hid', Option.some.injEq, Call.mk.injEq] at hm
      exact absurd hm.2 (by simp)
    · rw [hmn, hid', Option.some.injEq, Call.mk.injEq] at hm
      exact absurd hm.2 (by simp)
  | @insert m id hm => exact ⟨hl.closing, late_set hl.phase hm fun _ => ⟨id, rfl⟩⟩
  | setHandler | frame hf | eof hf | send hf | notify hf => exact { hl with }
  | remove | miss => exact absurd rfl hremove
  | store hc | clear hc =>
    rcases hl.closing with h | h <;> exact absurd (hc.symm.trans h) (by simp)
  | farewell hc => exact { hl with closing := Or.inr rfl }

/-! ## 3. Every run

The run is cut at the clearing.  What the calls are doing there decides which of the two
invariants the rest of the run starts with. -/

/-- What the clearing leaves. -/
theorem drop_phase (c : Call) :
    (c.drop.phase = .dropped ∧ c.phase = .registered) ∨
      (c.drop.phase = c.phase ∧ c.phase ≠ .registered) := by
  unfold Call.drop
  split
  · rename_i hc
    exact Or.inl ⟨rfl, hc⟩
  · rename_i hc
    exact Or.inr ⟨rfl, hc⟩

theorem shut_clear {s s' : DispatcherState} (hu : Unclosed s)
    (hchecked : ∀ c ∈ s.calls, c.phase ≠ .checked) (h : step s .clear = some s') : Shut s' := by
  cases step_cases h with
  | clear hc =>
    refine ⟨hu.flag (by simp [hc]), Or.inl rfl, fun _ => rfl, fun c hmem => ?_⟩
    obtain ⟨d, hd, rfl⟩ := List.mem_map.mp hmem
    rcases drop_phase d with ⟨hphase, -⟩ | ⟨hphase, hreg⟩
    · exact Or.inr (Or.inr hphase)
    · rw [hphase]
      have hph := hu.phases (Or.inr hc) d hd
      cases hdp : d.phase with
      | allocated => exact Or.inl rfl
      | refused => exact Or.inr (Or.inl rfl)
      | checked => exact absurd hdp (hchecked d hd)
      | registered => exact absurd hdp hreg
      | taken => exact absurd hdp hph.1
      | dropped => exact absurd hdp hph.2

theorem late_clear {s s' : DispatcherState} {n : ℕ} {id : UInt32}
    (hn : s.calls[n]? = some ⟨id, .checked⟩) (h : step s .clear = some s') : Late n s' := by
  cases step_cases h with
  | clear hc =>
    refine ⟨Or.inl rfl, id, Or.inl ?_⟩
    simp only [List.getElem?_map, hn]
    rfl

/-- **When closing leaves no waiter behind.**  `pre` are the steps before the map is cleared and
`post` those after it, and in the end all calls have finished.  The map is empty, and every call
was refused or had its sender dropped, exactly when no call had seen the flag down and not yet
inserted when the map was cleared.

That all calls have finished is needed in both directions.  A call that has not inserted yet could
still do so, and one that could still be refused has not been. -/
theorem close_no_waiter_iff (pre post : List Event) (s₀ s₁ s : DispatcherState)
    (hpre : run step {} pre = some s₀) (hclear : step s₀ .clear = some s₁)
    (hpost : run step s₁ post = some s)
    (hremove : .remove ∉ pre ∧ .remove ∉ post)
    (hdone : ∀ c ∈ s.calls, c.phase ≠ .allocated ∧ c.phase ≠ .checked) :
    ((∀ id, s.requests id = none) ∧ ∀ c ∈ s.calls, c.phase = .refused ∨ c.phase = .dropped) ↔
      ∀ c ∈ s₀.calls, c.phase ≠ .checked := by
  constructor
  · rintro ⟨-, hphases⟩ ⟨id, phase⟩ hc (rfl : phase = .checked)
    obtain ⟨n, hn⟩ := List.mem_iff_getElem?.mp hc
    obtain ⟨hlate, -⟩ := run_until (P := Late n) (Q := fun _ => True)
      (fun u e u' hu he hs => ⟨late_step hu he hs, trivial⟩) (late_clear hn hclear) hremove.2 hpost
    obtain ⟨id', hid | hid⟩ := hlate.phase
    · exact (hdone _ (List.mem_of_getElem? hid)).2 rfl
    · rcases hphases _ (List.mem_of_getElem? hid) with h | h <;> exact absurd h (by simp)
  · intro hchecked
    have hinit : Unclosed {} := ⟨by simp, by simp⟩
    obtain ⟨hu, -⟩ := run_until (P := Unclosed) (Q := fun _ => True)
      (fun u e u' hu he hs => ⟨unclosed_step hu he hs, trivial⟩) hinit hremove.1 hpre
    obtain ⟨hshut, -⟩ := run_until (P := Shut) (Q := fun _ => True)
      (fun u e u' hu he hs => ⟨shut_step hu he hs, trivial⟩)
      (shut_clear hu hchecked hclear) hremove.2 hpost
    refine ⟨hshut.empty, fun c hc => ?_⟩
    exact (hshut.phases c hc).resolve_left (hdone c hc).1

/-- Two calls, one of which has inserted before the map is cleared while the other loads the flag
after it went up: none survives. -/
theorem close_no_waiter_iff_two_calls : ∃ s,
    run step {} [.alloc, .load 0, .insert 0, .store, .alloc, .clear, .load 1] = some s ∧
    (∀ id, s.requests id = none) ∧ ∀ c ∈ s.calls, c.phase = .refused ∨ c.phase = .dropped :=
  ⟨_, rfl, (close_no_waiter_iff [.alloc, .load 0, .insert 0, .store, .alloc] [.load 1] _ _ _
    rfl rfl rfl (by decide) (by decide)).mpr (by decide)⟩

/-- A call that has seen the flag down inserts after the map is cleared.  Everyone has finished,
and its sender is in the map. -/
theorem close_waiter_survives : ∃ s,
    run step {} [.alloc, .load 0, .store, .clear, .insert 0] = some s ∧
    (∀ c ∈ s.calls, c.phase ≠ .allocated ∧ c.phase ≠ .checked) ∧
    s.requests 0 = some 0 ∧ s.calls = [⟨0, .registered⟩] :=
  ⟨_, rfl, by decide, rfl, rfl⟩

end RabbitMqStream.Client.Dispatcher
