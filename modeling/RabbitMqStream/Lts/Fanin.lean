/-
# Many sources and one channel

Each of a number of sources has a carrier.  A carrier takes an item from its source, holds it until
there is room in the channel and puts it there; then it goes back for the next one.  The carriers
run at the same time and share the channel, and somebody takes the items out at the other end,
until he goes away and leaves what is in it behind.

Sources and items are arbitrary types.  Nothing is said about how the items of different sources
mix.

* `Fanin.Inv.step`: every step keeps the invariant.
* `Fanin.Inv.ordered`: the items of one source come out in the order in which they were taken, and
  none of them twice.
* `Fanin.Inv.settled`: when no carrier holds anything and the channel is empty, they all have come
  out.

**The argument.**  One equation is kept for each source: what was taken from it is what has come
out of it, then what is in the channel of it, then what its carrier holds.  A carrier holds one
item at most, and the channel is first in, first out, so that a `put` and an `emit` each move an
item across one boundary of the equation.  The steps of other sources leave all three parts as
they are.
-/
import Mathlib.Data.List.Basic
import Mathlib.Logic.Function.Basic

namespace Lts

variable {ι α : Type}

/-! ## 1. The items of one source

The channel holds the items of all sources.  To follow one source, what belongs to the others is
filtered out, and filtering goes through appending and through taking the first one off. -/

section OfSource

variable [DecidableEq ι] (i : ι)

/-- What comes from the source `i`, in its order. -/
def ofSource (items : List (ι × α)) : List α :=
  items.filterMap fun item => if item.1 = i then some item.2 else none

@[simp] theorem ofSource_nil : ofSource i ([] : List (ι × α)) = [] := rfl

@[simp] theorem ofSource_append (items items' : List (ι × α)) :
    ofSource i (items ++ items') = ofSource i items ++ ofSource i items' :=
  List.filterMap_append

theorem ofSource_cons (item : ι × α) (items : List (ι × α)) :
    ofSource i (item :: items) = ofSource i [item] ++ ofSource i items :=
  ofSource_append i [item] items

@[simp] theorem ofSource_singleton (a : α) : ofSource i [(i, a)] = [a] := by
  simp [ofSource]

variable {i} in
theorem ofSource_singleton_ne {j : ι} (h : j ≠ i) (a : α) : ofSource i [(j, a)] = [] := by
  simp [ofSource, h]

end OfSource

/-! ## 2. The carriers and the channel

`take`, `put` and `emit` each move an item one place on: the equation of the source that it
comes from is cut at the next point, and the equations of the others do not change. -/

structure Fanin (ι α : Type) : Type where
  /-- Everything that the carrier of a source has taken from it. -/
  taken : ι → List α
  /-- What it holds. -/
  hand : ι → Option α
  /-- The channel, and for each item in it where it comes from. -/
  queue : List (ι × α)
  /-- Everything that has come out. -/
  out : List (ι × α)
  /-- Nobody takes the items out any more. -/
  abandoned : Bool

namespace Fanin

variable [DecidableEq ι]

/-- No item has got lost, been doubled or overtaken another one of its source. -/
structure Inv (F : Fanin ι α) : Prop where
  kept : F.abandoned = false → ∀ i,
    ofSource i F.out ++ ofSource i F.queue ++ (F.hand i).toList = F.taken i
  ordered : ∀ i, ofSource i F.out <+: F.taken i
  left : F.abandoned = true → F.queue = []

/-- What can happen.  A carrier that nobody takes items from drops them. -/
inductive Step (F : Fanin ι α) : Fanin ι α → Prop where
  | take (i : ι) (a : α) (h : F.hand i = none) : Step F { F with
      taken := Function.update F.taken i (F.taken i ++ [a])
      hand := Function.update F.hand i (some a) }
  | put {i : ι} {a : α} (ha : F.abandoned = false) (h : F.hand i = some a) : Step F { F with
      hand := Function.update F.hand i none
      queue := F.queue ++ [(i, a)] }
  | drop {i : ι} {a : α} (ha : F.abandoned = true) (h : F.hand i = some a) :
      Step F { F with hand := Function.update F.hand i none }
  | emit {item : ι × α} {rest : List (ι × α)} (h : F.queue = item :: rest) :
      Step F { F with queue := rest, out := F.out ++ [item] }
  | abandon : Step F { F with queue := [], abandoned := true }

variable {F F' : Fanin ι α}

theorem Inv.take (hi : Inv F) {i : ι} (a : α) (h : F.hand i = none) :
    Inv { F with
      taken := Function.update F.taken i (F.taken i ++ [a])
      hand := Function.update F.hand i (some a) } where
  kept ha j := by
    have hj := hi.kept ha j
    by_cases hji : j = i
    · subst hji
      rw [h, Option.toList_none, List.append_nil] at hj
      simp [hj]
    · simpa [Function.update_of_ne hji] using hj
  ordered j := by
    by_cases hji : j = i
    · subst hji
      simpa using (hi.ordered j).trans (List.prefix_append _ _)
    · simpa [Function.update_of_ne hji] using hi.ordered j
  left := hi.left

theorem Inv.put (hi : Inv F) {i : ι} {a : α} (ha : F.abandoned = false) (h : F.hand i = some a) :
    Inv { F with hand := Function.update F.hand i none, queue := F.queue ++ [(i, a)] } where
  kept _ j := by
    have hj := hi.kept ha j
    by_cases hji : j = i
    · subst hji
      simpa [h] using hj
    · simpa [Function.update_of_ne hji, ofSource_singleton_ne (Ne.symm hji)] using hj
  ordered := hi.ordered
  left hleft := absurd (ha.symm.trans hleft) (by simp)

theorem Inv.emit (hi : Inv F) {item : ι × α} {rest : List (ι × α)} (h : F.queue = item :: rest) :
    Inv { F with queue := rest, out := F.out ++ [item] } := by
  have hopen : F.abandoned = false := by
    by_contra ha
    rw [hi.left (by simpa using ha)] at h
    cases h
  have hkept : ∀ i, ofSource i (F.out ++ [item]) ++ ofSource i rest ++ (F.hand i).toList =
      F.taken i := by
    intro i
    rw [ofSource_append, List.append_assoc (ofSource i F.out), ← ofSource_cons, ← h]
    exact hi.kept hopen i
  refine ⟨fun _ => hkept, fun i => ?_, fun hleft => absurd (hopen.symm.trans hleft) (by simp)⟩
  rw [← hkept i, List.append_assoc]
  exact List.prefix_append _ _

/-- **Every step keeps the invariant.** -/
theorem Inv.step (hi : Inv F) (h : Step F F') : Inv F' := by
  cases h with
  | take i a h => exact hi.take a h
  | put ha h => exact hi.put ha h
  | drop ha h => exact { hi with kept := fun hopen => absurd (ha.symm.trans hopen) (by simp) }
  | emit h => exact hi.emit h
  | abandon =>
    exact ⟨fun hopen => absurd hopen (by simp), hi.ordered, fun _ => rfl⟩

/-- **When all is settled**, everything that was taken from a source has come out. -/
theorem Inv.settled (hi : Inv F) (ha : F.abandoned = false) {i : ι} (hhand : F.hand i = none)
    (hqueue : F.queue = []) : ofSource i F.out = F.taken i := by
  have hkept := hi.kept ha i
  rwa [hhand, hqueue, ofSource_nil, List.append_nil, Option.toList_none, List.append_nil] at hkept

end Fanin

end Lts
