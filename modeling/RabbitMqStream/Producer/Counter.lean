/-
# The counter of the accumulator

`add` returns `val + 1 == capacity`, where `val` is what its `fetch_add` has found in the counter.
The counter is unsigned and the addition is a plain one.  A get that takes a message out of the
channel before the add that has sent it comes to its `fetch_add` subtracts what has not been added
yet, and the counter wraps; the add then finds the largest number and adds one to it.

* `addition_fits_iff`: which steps overflow or go below zero, in terms of what the calls are
  doing, and that a run without the one is a run without the other.
* `flushBetween_overflows`: one add and one get.

**The argument.**  The equation of `Accumulator` holds modulo `2 ^ 64`.  A bound makes it an
equation of numbers: the channel and the one batch that is out of it are too few to fill the
counter (`unsubtracted_lt`).  So an addition overflows exactly when what is uncounted is one more,
modulo the range, than what is unsubtracted, and a `fetch_sub` goes below zero exactly when more
is uncounted than the channel holds.  In a run without the second, the counter is the difference
itself (`messageCount_eq`), and then it is far from its largest value at every addition.
-/
import Mathlib.Data.Nat.ModEq
import RabbitMqStream.Producer.Accumulator

namespace RabbitMqStream.Producer.Accumulator

open Lts

/-! ## 1. What the counter is

The accounting of the counter is modulo `2 ^ 64`.  What makes numbers of it is a bound on what
is in the channel and in the one batch that is out of it and not subtracted. -/

/-- The call is at its `fetch_add`. -/
def Call.AtFetchAdd (c : Call) : Prop :=
  match c with
  | .counting _ => True
  | .adding _ | .added _ _ | .locking _ | .receiving _ _ | .subtracting _ _ | .got _ _
  | .panicked => False

/-- The call is at its `fetch_sub`. -/
def Call.AtFetchSub (c : Call) : Prop :=
  match c with
  | .subtracting _ _ => True
  | .adding _ | .counting _ | .added _ _ | .locking _ | .receiving _ _ | .got _ _
  | .panicked => False

instance : DecidablePred Call.AtFetchAdd
  | .counting _ => inferInstanceAs (Decidable True)
  | .adding _ | .added _ _ | .locking _ | .receiving _ _ | .subtracting _ _ | .got _ _
  | .panicked => inferInstanceAs (Decidable False)

instance : DecidablePred Call.AtFetchSub
  | .subtracting _ _ => inferInstanceAs (Decidable True)
  | .adding _ | .counting _ | .added _ _ | .locking _ | .receiving _ _ | .got _ _
  | .panicked => inferInstanceAs (Decidable False)

theorem unsubtracted_eq_zero {c : Call} (h : ¬ c.Holds) : c.unsubtracted = 0 := by
  cases c with
  | receiving | subtracting => exact absurd trivial h
  | _ => rfl

/-- While a get has the lock, only its own batch is out of the channel and not subtracted. -/
theorem unsubtracted_of_holds {s : State} (hl : Locked s) {t : ℕ} {c : Call}
    (ht : s.calls[t]? = some c) (hh : c.Holds) :
    s.unsubtracted = s.queue.length + c.batch.length := by
  have hsingle : gather Call.unsubtracted s.calls = c.unsubtracted := by
    refine gather_eq_single ht fun u d hd hne => unsubtracted_eq_zero fun hd' => hne ?_
    have htu := hl.one t c ht hh
    rw [hl.one u d hd hd', Option.some.injEq] at htu
    exact htu
  rw [State.unsubtracted, hsingle]
  cases c with
  | receiving | subtracting => rfl
  | _ => exact absurd hh (by simp [Call.Holds])

/-- The channel and a batch together are too few to fill the counter. -/
theorem unsubtracted_lt {s : State} (hc : Conserved s) : s.unsubtracted + 1 < 2 ^ 64 := by
  have hroom := hc.room.trans hc.permits
  rw [show maxPermits = 2 ^ 61 - 1 by decide] at hroom
  by_cases hsome : ∃ (t : ℕ) (c : Call), s.calls[t]? = some c ∧ c.Holds
  · obtain ⟨t, c, ht, hh⟩ := hsome
    have hsized := hc.sized c (List.mem_of_getElem? ht)
    have hbatch : c.batch.length ≤ isizeMax := by
      cases c with
      | receiving | subtracting => exact hsized.1.trans hsized.2
      | _ => exact absurd hh (by simp [Call.Holds])
    rw [unsubtracted_of_holds hc.locked ht hh]
    rw [show isizeMax = 2 ^ 63 - 1 from rfl] at hbatch
    omega
  · have hnone : gather Call.unsubtracted s.calls = 0 := by
      refine (gather_eq_zero_iff _).mpr fun c hmem => unsubtracted_eq_zero fun hh => hsome ?_
      obtain ⟨t, ht⟩ := List.mem_iff_getElem?.mp hmem
      exact ⟨t, c, ht, hh⟩
    rw [State.unsubtracted, hnone, Multiset.card_zero]
    omega

theorem ofNat_eq_ofNat_iff (m n : ℕ) : UInt64.ofNat m = UInt64.ofNat n ↔ m ≡ n [MOD 2 ^ 64] := by
  rw [UInt64.ofNat_eq_iff_mod_eq_toNat, UInt64.toNat_ofNat']
  rfl

/-- As long as no more has been sent uncounted than is unsubtracted, the counter is the
difference. -/
theorem messageCount_eq {s : State} (hc : Conserved s) (hcount : Counted s)
    (hle : s.uncounted ≤ s.unsubtracted) :
    s.messageCount.toNat = s.unsubtracted - s.uncounted := by
  have hlt := unsubtracted_lt hc
  have heq : s.messageCount = UInt64.ofNat (s.unsubtracted - s.uncounted) := by
    have hsplit : s.unsubtracted = (s.unsubtracted - s.uncounted) + s.uncounted := by omega
    unfold Counted at hcount
    rw [hsplit, UInt64.ofNat_add] at hcount
    exact (UInt64.add_left_inj _).mp hcount
  rw [heq, UInt64.toNat_ofNat']
  exact Nat.mod_eq_of_lt (by omega)

/-! ## 2. The conditions on the steps

Two things can go wrong at a step, an addition that overflows and a subtraction below zero, and
each has its condition in terms of what the calls are doing.  That the two sides say the same is
arithmetic, in any state in which the accounting holds. -/

/-- The addition in `add` does not overflow. -/
def AdditionFits (s : State) : Event → Prop
  | .move t => ∀ c ∈ s.calls[t]?, c.AtFetchAdd → s.messageCount.toNat + 1 < 2 ^ 64
  | .add _ | .get _ => True

/-- A `fetch_sub` does not go below zero. -/
def StaysAboveZero (s : State) : Event → Prop
  | .move t => ∀ c ∈ s.calls[t]?, c.AtFetchSub → c.batch.length ≤ s.messageCount.toNat
  | .add _ | .get _ => True

/-- At a `fetch_add`, the messages that have been sent and not counted are not one more, modulo
`2 ^ 64`, than those that are in the channel or with a get that has not subtracted them. -/
def NotOneShort (s : State) : Event → Prop
  | .move t => ∀ c ∈ s.calls[t]?, c.AtFetchAdd → ¬ s.uncounted ≡ s.unsubtracted + 1 [MOD 2 ^ 64]
  | .add _ | .get _ => True

/-- At a `fetch_sub`, no more messages have been sent and not counted than are in the channel. -/
def CountedFirst (s : State) : Event → Prop
  | .move t => ∀ c ∈ s.calls[t]?, c.AtFetchSub → s.uncounted ≤ s.queue.length
  | .add _ | .get _ => True

instance (s : State) : ∀ e : Event, Decidable (AdditionFits s e)
  | .move t => inferInstanceAs (Decidable (∀ c ∈ s.calls[t]?, c.AtFetchAdd → _))
  | .add _ | .get _ => inferInstanceAs (Decidable True)

instance (s : State) : ∀ e : Event, Decidable (CountedFirst s e)
  | .move t => inferInstanceAs (Decidable (∀ c ∈ s.calls[t]?, c.AtFetchSub → _))
  | .add _ | .get _ => inferInstanceAs (Decidable True)

/-- The counter has not gone below zero. -/
structure Nonneg (s : State) : Prop where
  conserved : Conserved s
  counted : Counted s
  le : s.uncounted ≤ s.unsubtracted

theorem nonneg_step {s s' : State} {e : Event} (hfirst : CountedFirst s e) (hn : Nonneg s)
    (h : step s e = some s') : Nonneg s' := by
  refine ⟨conserved_step hn.conserved h, counted_step hn.counted h, ?_⟩
  have hle := hn.le
  rcases counts_step h with ⟨-, hu, hs⟩ | ⟨-, hu, hs⟩ | ⟨-, hu, hs⟩ |
    ⟨t, batchSize, messages, rfl, ht, -, hu, hs⟩
  · omega
  · omega
  · omega
  · have hcond : s.uncounted ≤ s.queue.length := hfirst _ ht trivial
    have hbatch := unsubtracted_of_holds hn.conserved.locked ht trivial
    simp only [Call.batch] at hbatch
    omega

theorem additionFits_iff {s : State} (hcount : Counted s) (e : Event) :
    AdditionFits s e ↔ NotOneShort s e := by
  have hiff : s.messageCount.toNat + 1 < 2 ^ 64 ↔
      ¬ s.uncounted ≡ s.unsubtracted + 1 [MOD 2 ^ 64] := by
    -- the counter is the largest number when adding one to it gives zero
    have hwrap : s.messageCount.toNat + 1 < 2 ^ 64 ↔ s.messageCount + 1 ≠ 0 := by
      have hlt := s.messageCount.toNat_lt
      rw [Ne, ← UInt64.toNat_inj, UInt64.toNat_add, UInt64.toNat_one, UInt64.toNat_zero]
      omega
    have hcarry : s.messageCount + 1 = 0 ↔
        UInt64.ofNat s.uncounted = UInt64.ofNat (s.unsubtracted + 1) := by
      rw [UInt64.ofNat_add, ← hcount]
      grind
    rw [hwrap, ← ofNat_eq_ofNat_iff, ← hcarry]
  cases e with
  | move t => exact forall₂_congr fun c _ => imp_congr_right fun _ => hiff
  | add | get => rfl

theorem staysAboveZero_iff {s : State} (hn : Nonneg s) (e : Event) :
    StaysAboveZero s e ↔ CountedFirst s e := by
  cases e with
  | move t =>
    refine forall₂_congr fun c hc => imp_congr_right fun hsub => ?_
    have hh : c.Holds := by
      cases c with
      | subtracting => trivial
      | _ => exact absurd hsub (by simp [Call.AtFetchSub])
    have hbatch := unsubtracted_of_holds hn.conserved.locked hc hh
    have hle := hn.le
    rw [messageCount_eq hn.conserved hn.counted hn.le]
    omega
  | add | get => rfl

/-! ## 3. Every run

The equivalences of the steps become equivalences of runs: a run meets the one condition at all
its steps exactly when it meets the other. -/

/-- **When the counter is right**, along any run of adds and gets.

The addition overflows at the steps that `NotOneShort` excludes and no others.  No `fetch_sub` goes
below zero exactly when at each of them no more messages have been sent uncounted than are left in
the channel, and then no addition overflows either.

The first two are equivalences of conditions on one step, in states that an invariant describes
(`steps_congr`).  For the second the invariant is that the counter has not gone below zero so far,
and it is kept by the steps that meet the condition. -/
theorem addition_fits_iff (batchSize : UInt64) (s₀ : State) (es : List Event)
    (hnew : State.new batchSize = some s₀) :
    (Steps step AdditionFits s₀ es ↔ Steps step NotOneShort s₀ es) ∧
    (Steps step StaysAboveZero s₀ es ↔ Steps step CountedFirst s₀ es) ∧
    (Steps step CountedFirst s₀ es → Steps step AdditionFits s₀ es) := by
  obtain ⟨hconserved, hcounted, -⟩ := conserved_new hnew
  have hstart : Nonneg s₀ := by
    refine ⟨hconserved, hcounted, ?_⟩
    obtain ⟨acc, -, rfl⟩ := Option.map_eq_some_iff.mp hnew
    exact Nat.zero_le _
  refine ⟨?_, ?_, ?_⟩
  · exact steps_congr (P := Counted) (fun s e s' _ hc he => counted_step hc he)
      (fun s e hc => additionFits_iff hc e) hcounted
  · exact (steps_congr (P := Nonneg) (fun s e s' hC hn he => nonneg_step hC hn he)
      (fun s e hn => (staysAboveZero_iff hn e).symm) hstart).symm
  · refine Steps.mono (fun s e s' hC hn he => nonneg_step hC hn he) (fun s e hn _ => ?_) hstart
    cases e with
    | move t =>
      intro c _ _
      rw [messageCount_eq hn.conserved hn.counted hn.le]
      have hlt := unsubtracted_lt hn.conserved
      omega
    | add | get => trivial

/-- Two adds, and a get that comes when both have counted. -/
def flushAfter : List Event :=
  [.add (numbered 0), .add (numbered 1), .move 1, .move 0, .get 4, .move 0, .move 1, .move 2,
    .move 2, .move 2, .move 2, .move 2]

theorem addition_fits_iff_flushAfter : ∃ s₀, State.new 2 = some s₀ ∧
    Steps step StaysAboveZero s₀ flushAfter ∧ Steps step AdditionFits s₀ flushAfter := by
  obtain ⟨-, habove, hfits⟩ := addition_fits_iff 2 _ flushAfter rfl
  have hfirst : Steps step CountedFirst { capacity := 2 } flushAfter := by decide +kernel
  exact ⟨_, rfl, habove.mpr hfirst, hfits hfirst⟩

/-- When the get of `flushBetween` has returned, the counter is the largest number, and the
addition of the add that is still at work overflows. -/
theorem flushBetween_overflows : ∃ s₀ s, State.new 2 = some s₀ ∧
    run step s₀ (flushBetween.take 7) = some s ∧ flushBetween.drop 7 = [.move 0] ∧
    s.messageCount.toNat = 2 ^ 64 - 1 ∧ (step s (.move 0)).isSome ∧
    ¬ AdditionFits s (.move 0) ∧ ¬ Steps step AdditionFits s₀ flushBetween :=
  ⟨_, _, rfl, rfl, rfl, by decide +kernel, by decide +kernel, by decide +kernel,
    by decide +kernel⟩

end RabbitMqStream.Producer.Accumulator
