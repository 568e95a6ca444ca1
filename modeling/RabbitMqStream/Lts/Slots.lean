/-
# Waiters in slots

`Ledger` keeps its books on conditions: the ids are all different, and the counterpart answers only
what was published, once.  This module keeps the books without them.  A waiter is put into the slot
of its key, and replaces the one that was there; an answer takes out the waiter that it finds, or
finds none; the waiter is called.  Keys may come back, and the counterpart may say what it likes.

* `Slots.Inv.step`: no step loses a waiter but by replacing it, or calls one for nothing.
* `Slots.Inv.place`: a waiter is in its slot, being called, called or replaced.
* `Slots.Inv.calls_le`: a waiter is called no more often than it was registered.
* `Slots.Inv.heard`: no more calls are made than answers have come, of each answer.

**The argument.**  For each registration it is counted how often it is in a slot, being called or
called (`places`).  Putting a waiter into a slot adds one for it and takes one away for the waiter
that was there, which from then on has a later registration with the same key behind it.  All
other steps move a waiter from one place to the next, or take something away.  So a registration
with no place left was replaced, and there are never more calls than registrations.
-/
import Mathlib.Algebra.Order.Group.Multiset
import Mathlib.Data.Multiset.Count
import Mathlib.Logic.Function.Basic

namespace Lts

variable {I W A : Type}

/-! ## 1. The slots and their invariant

A registration is a key with its waiter.  All of them are kept, and one that is made twice counts
twice: `Inv.exact` is an equation about how often each is in its places. -/

structure Slots (I W A : Type) : Type where
  /-- Everything that was ever registered. -/
  registered : List (I × W)
  slot : I → Option W
  /-- Every answer so far. -/
  answered : List A
  /-- The answers that are still to be handled. -/
  todo : Multiset A
  /-- The answers whose waiter is out of its slot and about to be called. -/
  inCall : Multiset (A × W)
  /-- The calls made, with the answers they were made for. -/
  called : List (A × W)

/-- Another waiter was registered under the same key later on. -/
def Replaced (registered : List (I × W)) (x : I × W) : Prop :=
  ∃ pre post w, registered = pre ++ x :: post ∧ (x.1, w) ∈ post

theorem Replaced.append {registered : List (I × W)} {x : I × W} (h : Replaced registered x)
    (more : List (I × W)) : Replaced (registered ++ more) x := by
  obtain ⟨pre, post, w, rfl, hw⟩ := h
  exact ⟨pre, post ++ more, w, by simp, List.mem_append_left _ hw⟩

theorem replaced_snoc {registered : List (I × W)} {i : I} {v : W} (h : (i, v) ∈ registered)
    (w : W) : Replaced (registered ++ [(i, w)]) (i, v) := by
  obtain ⟨pre, post, rfl⟩ := List.append_of_mem h
  exact ⟨pre, post ++ [(i, w)], w, by simp, by simp⟩

/-- Keys that are all different replace nothing. -/
theorem not_replaced {registered : List (I × W)} (h : (registered.map Prod.fst).Nodup)
    (x : I × W) : ¬ Replaced registered x := by
  rintro ⟨pre, post, w, rfl, hw⟩
  rw [List.map_append, List.map_cons] at h
  have hnot := (List.nodup_cons.mp h.of_append_right).1
  exact hnot (List.mem_map.mpr ⟨_, hw, rfl⟩)

namespace Slots

/-- The slots before anything has happened. -/
def empty : Slots I W A := ⟨[], fun _ => none, [], 0, 0, []⟩

section Invariant

variable [DecidableEq I] [DecidableEq W] (key : A → I)

/-- The registration that a call is made for. -/
def entry (c : A × W) : I × W := (key c.1, c.2)

/-- How often the slots, the calls that are being made and the calls that were made have the
registration. -/
def places (S : Slots I W A) (x : I × W) : ℕ :=
  (if S.slot x.1 = some x.2 then 1 else 0) + (S.inCall.map (entry key)).count x +
    (S.called.map (entry key) : Multiset (I × W)).count x

structure Inv (S : Slots I W A) : Prop where
  /-- What is in none of the places was replaced. -/
  exact : ∃ replaced : Multiset (I × W), (∀ x ∈ replaced, Replaced S.registered x) ∧
    ∀ x, (S.registered : Multiset (I × W)).count x = S.places key x + replaced.count x
  heard : S.todo + S.inCall.map Prod.fst + (S.called.map Prod.fst : List A) ≤
    (S.answered : Multiset A)

/-- What can happen.  An answer that finds no waiter is lost, and others may be lost with it. -/
inductive Step (S : Slots I W A) : Slots I W A → Prop where
  | register (i : I) (w : W) : Step S { S with
      registered := S.registered ++ [(i, w)]
      slot := Function.update S.slot i (some w) }
  | answer (as : List A) : Step S { S with answered := S.answered ++ as, todo := S.todo + as }
  | take {a : A} {w : W} {rest : Multiset A} (htodo : S.todo = a ::ₘ rest)
      (hw : S.slot (key a) = some w) : Step S { S with
      slot := Function.update S.slot (key a) none
      todo := rest
      inCall := (a, w) ::ₘ S.inCall }
  | lose {left : Multiset A} (hle : left ≤ S.todo) : Step S { S with todo := left }
  | call {a : A} {w : W} {rest : Multiset (A × W)} (hcall : S.inCall = (a, w) ::ₘ rest) :
      Step S { S with inCall := rest, called := S.called ++ [(a, w)] }

end Invariant

variable [DecidableEq I] [DecidableEq W] {key : A → I} {S S' : Slots I W A}

theorem inv_empty : Inv key (empty : Slots I W A) := by
  refine ⟨⟨0, by simp, fun x => ?_⟩, ?_⟩
  · simp [empty, places]
  · simp [empty]

/-! ## 2. The steps

Only the registration of a waiter can take a place away from another one, and it leaves the
reason behind: a later registration under the same key.  The lemma `slot_update` does the
counting for it, for the waiter that comes and for the one that goes. -/

/-- How often the waiter of a slot counts. -/
theorem count_slot (o : Option W) (i j : I) (v : W) :
    (o.toList.map fun w => (i, w) : Multiset (I × W)).count (j, v) =
      if i = j ∧ o = some v then 1 else 0 := by
  cases o with
  | none => simp
  | some w => simp [Multiset.count_singleton, eq_comm]

/-- A waiter is put into a slot: it counts there, and the one that was there does not any more. -/
theorem slot_update (slot : I → Option W) (i j : I) (w v : W) :
    (if Function.update slot i (some w) j = some v then 1 else 0) +
        (if i = j ∧ slot i = some v then 1 else 0) =
      (if slot j = some v then 1 else 0) + if (i, w) = (j, v) then 1 else 0 := by
  by_cases hij : i = j
  · subst hij
    simp [add_comm]
  · simp [hij, Function.update_of_ne (Ne.symm hij)]

theorem Inv.register (hi : Inv key S) (i : I) (w : W) : Inv key { S with
    registered := S.registered ++ [(i, w)]
    slot := Function.update S.slot i (some w) } where
  exact := by
    obtain ⟨replaced, hreplaced, hcount⟩ := hi.exact
    -- the waiter that was in the slot is replaced
    refine ⟨replaced + ((S.slot i).toList.map fun v => (i, v) : List (I × W)), fun x hx => ?_,
      fun x => ?_⟩
    · rcases Multiset.mem_add.mp hx with hx | hx
      · exact (hreplaced x hx).append _
      · obtain ⟨v, hv, rfl⟩ := List.mem_map.mp (Multiset.mem_coe.mp hx)
        have hslot : S.slot i = some v := Option.mem_toList.mp hv
        have hpos := hcount (i, v)
        rw [places, if_pos hslot] at hpos
        have hmem : (i, v) ∈ (S.registered : Multiset (I × W)) := Multiset.count_pos.mp (by omega)
        exact replaced_snoc hmem w
    · obtain ⟨j, v⟩ := x
      have hx := hcount (j, v)
      have hslot := slot_update S.slot i j w v
      simp only [places, ← Multiset.coe_add, Multiset.coe_singleton, Multiset.count_add,
        Multiset.count_singleton, count_slot, eq_comm (a := (j, v))] at hx ⊢
      omega
  heard := hi.heard

theorem Inv.answer (hi : Inv key S) (as : List A) :
    Inv key { S with answered := S.answered ++ as, todo := S.todo + as } where
  exact := hi.exact
  heard := by
    have hle := add_le_add_left hi.heard (as : Multiset A)
    show S.todo + as + S.inCall.map Prod.fst + (S.called.map Prod.fst : List A) ≤
      ((S.answered ++ as : List A) : Multiset A)
    rw [← Multiset.coe_add]
    refine le_trans (le_of_eq ?_) hle
    ac_rfl

theorem Inv.take (hi : Inv key S) {a : A} {w : W} {rest : Multiset A}
    (htodo : S.todo = a ::ₘ rest) (hw : S.slot (key a) = some w) : Inv key { S with
      slot := Function.update S.slot (key a) none
      todo := rest
      inCall := (a, w) ::ₘ S.inCall } where
  exact := by
    obtain ⟨replaced, hreplaced, hcount⟩ := hi.exact
    refine ⟨replaced, hreplaced, fun x => ?_⟩
    obtain ⟨j, v⟩ := x
    have hx := hcount (j, v)
    have hslot : (if Function.update S.slot (key a) none j = some v then 1 else 0) +
        (if (j, v) = (key a, w) then 1 else 0) = if S.slot j = some v then 1 else 0 := by
      by_cases hj : j = key a
      · subst hj
        simp [hw, eq_comm]
      · simp [hj]
    simp only [places, Multiset.map_cons, Multiset.count_cons, entry] at hx ⊢
    omega
  heard := by
    have hle := hi.heard
    rw [htodo] at hle
    simpa using hle

theorem Inv.lose (hi : Inv key S) {left : Multiset A} (hle : left ≤ S.todo) :
    Inv key { S with todo := left } where
  exact := hi.exact
  heard := le_trans (add_le_add_left (add_le_add_left hle _) _) hi.heard

theorem Inv.call (hi : Inv key S) {a : A} {w : W} {rest : Multiset (A × W)}
    (hcall : S.inCall = (a, w) ::ₘ rest) :
    Inv key { S with inCall := rest, called := S.called ++ [(a, w)] } where
  exact := by
    obtain ⟨replaced, hreplaced, hcount⟩ := hi.exact
    refine ⟨replaced, hreplaced, fun x => ?_⟩
    have hx := hcount x
    rw [places, hcall, Multiset.map_cons, Multiset.count_cons] at hx
    simp only [places, List.map_append, List.map_cons, List.map_nil, ← Multiset.coe_add,
      Multiset.coe_singleton, Multiset.count_add, Multiset.count_singleton]
    omega
  heard := by
    have hle := hi.heard
    rw [hcall, Multiset.map_cons, ← Multiset.singleton_add] at hle
    show S.todo + rest.map Prod.fst + ((S.called ++ [(a, w)]).map Prod.fst : List A) ≤
      (S.answered : Multiset A)
    rw [List.map_append, List.map_cons, List.map_nil, ← Multiset.coe_add, Multiset.coe_singleton]
    refine le_trans (le_of_eq ?_) hle
    ac_rfl

/-- **No waiter is lost but by being replaced**, and none is called for nothing. -/
theorem Inv.step (hi : Inv key S) (h : Step key S S') : Inv key S' := by
  cases h with
  | register i w => exact hi.register i w
  | answer as => exact hi.answer as
  | take htodo hw => exact hi.take htodo hw
  | lose hle => exact hi.lose hle
  | call hcall => exact hi.call hcall

omit [DecidableEq W] in
/-- What was registered and what was answered stays. -/
theorem Step.grows (h : Step key S S') :
    (∃ more, S'.registered = S.registered ++ more) ∧
      ∃ more, S'.answered = S.answered ++ more := by
  cases h with
  | register i w => exact ⟨⟨_, rfl⟩, [], (List.append_nil _).symm⟩
  | answer as => exact ⟨⟨[], (List.append_nil _).symm⟩, _, rfl⟩
  | take | lose | call => exact ⟨⟨[], (List.append_nil _).symm⟩, [], (List.append_nil _).symm⟩

/-! ## 3. What the invariant gives

What is left to a waiter when the other side does as it likes: it is somewhere, or it was
replaced, and nobody hears from an answer that did not come. -/

/-- **A waiter that was registered** is in its slot, being called, called or replaced. -/
theorem Inv.place (hi : Inv key S) {i : I} {w : W} (h : (i, w) ∈ S.registered) :
    S.slot i = some w ∨ (∃ a, key a = i ∧ (a, w) ∈ S.inCall) ∨
      (∃ a, key a = i ∧ (a, w) ∈ S.called) ∨ Replaced S.registered (i, w) := by
  obtain ⟨replaced, hreplaced, hcount⟩ := hi.exact
  have hx := hcount (i, w)
  have hpos : 0 < (S.registered : Multiset (I × W)).count (i, w) := Multiset.count_pos.mpr h
  by_cases hslot : S.slot i = some w
  · exact Or.inl hslot
  rw [places, if_neg hslot] at hx
  have hsome : 0 < (S.inCall.map (entry key)).count (i, w) ∨
      0 < (S.called.map (entry key) : Multiset (I × W)).count (i, w) ∨
      0 < replaced.count (i, w) := by
    omega
  rcases hsome with hin | hcalled | hrep
  · obtain ⟨⟨a, v⟩, ha, heq⟩ := Multiset.mem_map.mp (Multiset.count_pos.mp hin)
    obtain ⟨rfl, rfl⟩ := Prod.mk.inj heq
    exact Or.inr (Or.inl ⟨a, rfl, ha⟩)
  · obtain ⟨⟨a, v⟩, ha, heq⟩ := List.mem_map.mp (Multiset.count_pos.mp hcalled)
    obtain ⟨rfl, rfl⟩ := Prod.mk.inj heq
    exact Or.inr (Or.inr (Or.inl ⟨a, rfl, ha⟩))
  · exact Or.inr (Or.inr (Or.inr (hreplaced _ (Multiset.count_pos.mp hrep))))

/-- **A waiter is called no more often than it was registered**, the call that is being made
included. -/
theorem Inv.calls_le (hi : Inv key S) :
    S.inCall.map (entry key) + (S.called.map (entry key) : List (I × W)) ≤
      (S.registered : Multiset (I × W)) := by
  obtain ⟨replaced, -, hcount⟩ := hi.exact
  refine Multiset.le_iff_count.mpr fun x => ?_
  have hx := hcount x
  rw [places] at hx
  rw [Multiset.count_add]
  omega

end Slots

end Lts
