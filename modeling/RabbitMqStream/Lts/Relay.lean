/-
# A source that sends on credit

A source sends chunks, one for each unit of credit it holds.  A chunk is taken up by a worker of
its own, which passes the items of the chunk on, one after the other, and then gives the source a
new unit of credit.  Workers run at the same time and nothing orders two of them.

With one unit of credit in the whole system there are never two of them: the unit is at the
source, on its way to it, in the form of a chunk on its way from it, or with a worker.  So the
items come out in the order of the source although no step looks at the order.

Chunks and items are arbitrary types, and `f` says which items a chunk has.

* `Relay.Inv.step`: every step keeps the invariant.
* `Relay.Inv.ordered`: what has come out is a beginning of what was sent, chunk after chunk.

**The argument.**  The units of credit are counted wherever they are, and no step makes more of
them.  With one unit, a worker that holds it excludes every other one and every chunk on its way
(`Inv.alone`).  A step that passes an item on is then made by the only worker there is, behind the
items of all earlier chunks, and the invariant says exactly where in the sequence of sent chunks
the system is.
-/
import Mathlib.Algebra.Order.Group.Multiset
import Mathlib.Data.List.Basic

namespace Lts

variable {C M : Type}

/-! ## 1. The relay and its invariant -/

structure Relay (C M : Type) : Type where
  /-- What the source may still send. -/
  credit : ℕ
  /-- Credit on its way to the source. -/
  granted : ℕ
  /-- Chunks on their way from the source, the oldest first. -/
  flight : List C
  /-- For each worker that has not given its credit back: the items it has still to pass on. -/
  working : Multiset (List M)
  /-- Everything the source has sent. -/
  sent : List C
  /-- Everything that was passed on. -/
  out : List M
  /-- Nobody takes the items any more. -/
  abandoned : Bool

namespace Relay

/-- The units of credit in the system, wherever they are. -/
def tokens (R : Relay C M) : ℕ := R.credit + R.granted + R.flight.length + R.working.card

variable (f : C → List M)

structure Inv (R : Relay C M) : Prop where
  tokens : R.tokens ≤ 1
  idle : R.abandoned = false → R.working = 0 → R.out ++ R.flight.flatMap f = R.sent.flatMap f
  busy : R.abandoned = false → ∀ rest, R.working = {rest} → R.out ++ rest = R.sent.flatMap f
  ordered : R.out <+: R.sent.flatMap f

/-- What can happen.  A worker that nobody takes items from drops them. -/
inductive Step (R : Relay C M) : Relay C M → Prop where
  | arrive {k n : ℕ} (h : R.granted = k + n) :
      Step R { R with credit := R.credit + k, granted := n }
  | send (c : C) {n : ℕ} (h : R.credit = n + 1) :
      Step R { R with credit := n, flight := R.flight ++ [c], sent := R.sent ++ [c] }
  | take {c : C} {cs : List C} (h : R.flight = c :: cs) :
      Step R { R with flight := cs, working := f c ::ₘ R.working }
  | pass {m : M} {rest : List M} {others : Multiset (List M)} (ha : R.abandoned = false)
      (h : R.working = (m :: rest) ::ₘ others) :
      Step R { R with working := rest ::ₘ others, out := R.out ++ [m] }
  | drop {m : M} {rest : List M} {others : Multiset (List M)} (ha : R.abandoned = true)
      (h : R.working = (m :: rest) ::ₘ others) : Step R { R with working := rest ::ₘ others }
  | give {others : Multiset (List M)} (h : R.working = [] ::ₘ others) :
      Step R { R with granted := R.granted + 1, working := others }
  /-- The worker ends and the credit it should give does not get away. -/
  | lose {others : Multiset (List M)} (h : R.working = [] ::ₘ others) :
      Step R { R with working := others }
  | abandon : Step R { R with abandoned := true }

variable {f} {R R' : Relay C M}

/-! ## 2. One unit of credit

The count of the units is at most one.  Whoever holds it therefore knows where all the others
are, which is what the order of the items rests on. -/

/-- A worker that holds the unit is the only one, and the unit is nowhere else. -/
theorem Inv.alone (hi : Inv f R) {x : List M} {others : Multiset (List M)}
    (h : R.working = x ::ₘ others) :
    others = 0 ∧ R.flight = [] ∧ R.credit = 0 ∧ R.granted = 0 := by
  have htokens := hi.tokens
  rw [Relay.tokens, h, Multiset.card_cons] at htokens
  refine ⟨Multiset.card_eq_zero.mp (by omega), List.eq_nil_of_length_eq_zero (by omega),
    by omega, by omega⟩

/-- The same of a chunk on its way. -/
theorem Inv.alone_flight (hi : Inv f R) {c : C} {cs : List C} (h : R.flight = c :: cs) :
    cs = [] ∧ R.working = 0 ∧ R.credit = 0 ∧ R.granted = 0 := by
  have htokens := hi.tokens
  rw [Relay.tokens, h, List.length_cons] at htokens
  refine ⟨List.eq_nil_of_length_eq_zero (by omega), Multiset.card_eq_zero.mp (by omega),
    by omega, by omega⟩

theorem Inv.alone_credit (hi : Inv f R) {n : ℕ} (h : R.credit = n + 1) :
    n = 0 ∧ R.working = 0 ∧ R.flight = [] := by
  have htokens := hi.tokens
  rw [Relay.tokens, h] at htokens
  refine ⟨by omega, Multiset.card_eq_zero.mp (by omega),
    List.eq_nil_of_length_eq_zero (by omega)⟩

/-! ## 3. The steps

Each step moves the unit from one place to the next, and the place it was at determines the
equation about the items that is to be shown: chunks that have been passed on as a whole, and at
most one that is passed on in part. -/

theorem Inv.send (hi : Inv f R) (c : C) {n : ℕ} (h : R.credit = n + 1) :
    Inv f { R with credit := n, flight := R.flight ++ [c], sent := R.sent ++ [c] } := by
  obtain ⟨-, hworking, -⟩ := hi.alone_credit h
  refine ⟨?_, fun ha hw => ?_, fun ha rest hrest => ?_, ?_⟩
  · have htokens := hi.tokens
    unfold Relay.tokens at htokens ⊢
    simp only [List.length_append, List.length_singleton]
    omega
  · simp only [List.flatMap_append]
    rw [← List.append_assoc, hi.idle ha hw]
  · have hrest' : R.working = {rest} := hrest
    rw [hworking] at hrest'
    exact absurd hrest'.symm (Multiset.singleton_ne_zero rest)
  · simp only [List.flatMap_append]
    exact hi.ordered.trans (List.prefix_append _ _)

theorem Inv.take (hi : Inv f R) {c : C} {cs : List C} (h : R.flight = c :: cs) :
    Inv f { R with flight := cs, working := f c ::ₘ R.working } := by
  obtain ⟨rfl, hworking, -, -⟩ := hi.alone_flight h
  refine ⟨?_, fun ha hw => ?_, fun ha rest hrest => ?_, hi.ordered⟩
  · have htokens := hi.tokens
    unfold Relay.tokens at htokens ⊢
    rw [h] at htokens
    simp only [List.length_cons, List.length_nil, Multiset.card_cons] at htokens ⊢
    omega
  · exact absurd hw (Multiset.cons_ne_zero)
  · have hrest' : f c ::ₘ R.working = {rest} := hrest
    rw [hworking, Multiset.cons_zero, Multiset.singleton_inj] at hrest'
    have hidle := hi.idle ha hworking
    rw [h, List.flatMap_singleton] at hidle
    rw [← hrest']
    exact hidle

theorem Inv.pass (hi : Inv f R) {m : M} {rest : List M} {others : Multiset (List M)}
    (ha : R.abandoned = false) (h : R.working = (m :: rest) ::ₘ others) :
    Inv f { R with working := rest ::ₘ others, out := R.out ++ [m] } := by
  obtain ⟨rfl, -, -, -⟩ := hi.alone h
  have hbusy : R.out ++ [m] ++ rest = R.sent.flatMap f := by
    rw [List.append_assoc]
    exact hi.busy ha (m :: rest) h
  refine ⟨?_, fun _ hw => ?_, fun _ rest' hrest => ?_, ?_⟩
  · have htokens := hi.tokens
    unfold Relay.tokens at htokens ⊢
    rw [h] at htokens
    simp only [Multiset.card_cons] at htokens ⊢
    exact htokens
  · have hw' : rest ::ₘ (0 : Multiset (List M)) = 0 := hw
    exact absurd hw' (Multiset.cons_ne_zero)
  · have hrest' : rest ::ₘ 0 = {rest'} := hrest
    rw [Multiset.cons_zero, Multiset.singleton_inj] at hrest'
    rw [← hrest']
    exact hbusy
  · rw [← hbusy]
    exact List.prefix_append _ _

/-- A worker that is done ends, and what it held goes at most back to the source. -/
theorem Inv.end (hi : Inv f R) {others : Multiset (List M)} (h : R.working = [] ::ₘ others)
    {n : ℕ} (hn : n ≤ R.granted + 1) : Inv f { R with granted := n, working := others } := by
  obtain ⟨rfl, hflight, -, -⟩ := hi.alone h
  refine ⟨?_, fun ha _ => ?_, fun _ rest hrest => ?_, hi.ordered⟩
  · have htokens := hi.tokens
    unfold Relay.tokens at htokens ⊢
    rw [h] at htokens
    simp only [Multiset.card_cons] at htokens ⊢
    omega
  · have hbusy := hi.busy ha [] h
    simp only [hflight]
    exact hbusy
  · exact absurd hrest.symm (Multiset.singleton_ne_zero rest)

/-- **Every step keeps the invariant.** -/
theorem Inv.step (hi : Inv f R) (h : Step f R R') : Inv f R' := by
  cases h with
  | @arrive k n h =>
    refine { hi with tokens := ?_ }
    have htokens := hi.tokens
    unfold Relay.tokens at htokens ⊢
    simp only
    omega
  | send c h => exact hi.send c h
  | take h => exact hi.take h
  | pass ha h => exact hi.pass ha h
  | @drop m rest others ha h =>
    refine ⟨?_, fun ha' => ?_, fun ha' => ?_, hi.ordered⟩
    · have htokens := hi.tokens
      unfold Relay.tokens at htokens ⊢
      rw [h] at htokens
      simp only [Multiset.card_cons] at htokens ⊢
      exact htokens
    · exact absurd (ha.symm.trans ha') (by simp)
    · exact absurd (ha.symm.trans ha') (by simp)
  | give h => exact hi.end h (Nat.le_refl _)
  | lose h => exact hi.end h (Nat.le_add_right _ _)
  | abandon =>
    exact ⟨hi.tokens, fun ha => absurd ha (by simp), fun ha => absurd ha (by simp), hi.ordered⟩

end Relay

end Lts
