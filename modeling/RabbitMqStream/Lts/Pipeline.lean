/-
# Pipelines: numbers drawn in order leave in order

Numbers are drawn, in increasing order, by one worker at a time.  A number is put into a queue,
or its worker keeps it; workers also take numbers out of the queue, in their own time.  What a
worker holds leaves all at once.

What comes out is in order as long as no one is overtaken: a worker lets its numbers go only
when no smaller one is waiting in the queue or in the hands of another worker.  Everything else
that is needed holds by itself (`Ordered.step`):

* what is queued and what a worker holds is in order;
* a worker that empties the queue holds smaller numbers than are left in it;
* a number that has just been drawn is larger than all others.

**The argument.**  What waits is in the queue or in a hand.  When a hand is emptied, nothing
smaller waits elsewhere, so every later number is larger than what has come out: it waits now, or
it is drawn later and is larger than everything.  `Ordered` has a part for each of the three facts
above beside the order of what has come out, and each kind of step touches few of them.
-/
import Mathlib.Data.List.Pairwise
import Mathlib.Logic.Function.Basic
import Mathlib.Order.Basic

namespace Lts

variable {α : Type}

structure Pipeline (α : Type) : Type where
  out : List α
  queue : List α
  /-- What each worker holds. -/
  hand : ℕ → List α
  /-- The number a worker has drawn and not put anywhere yet. -/
  fresh : ℕ → Option α
  /-- The worker is emptying the queue. -/
  draining : ℕ → Bool

namespace Pipeline

/-- Where a number may wait: in the queue or in a hand. -/
def Waits (P : Pipeline α) (x : α) : Prop := x ∈ P.queue ∨ ∃ t, x ∈ P.hand t

/-- What waits when the numbers of worker `t` are left aside. -/
def WaitsBeside (P : Pipeline α) (t : ℕ) (x : α) : Prop :=
  x ∈ P.queue ∨ ∃ u, u ≠ t ∧ x ∈ P.hand u

variable {P P' : Pipeline α}

theorem waits_of_hand {t : ℕ} {x : α} (h : x ∈ P.hand t) : P.Waits x := Or.inr ⟨t, h⟩

/-- After a change of one hand, a number waits that waited before or that is in this hand. -/
theorem waits_update {queue : List α} {t : ℕ} {xs : List α} {x : α}
    (h : x ∈ queue ∨ ∃ u, x ∈ Function.update P.hand t xs u) :
    x ∈ queue ∨ x ∈ xs ∨ ∃ u, u ≠ t ∧ x ∈ P.hand u := by
  rcases h with h | ⟨u, hu⟩
  · exact Or.inl h
  · by_cases hut : u = t
    · subst hut
      rw [Function.update_self] at hu
      exact Or.inr (Or.inl hu)
    · rw [Function.update_of_ne hut] at hu
      exact Or.inr (Or.inr ⟨u, hut, hu⟩)

/-- What waits when a hand is emptied. -/
theorem waits_emptied {t : ℕ} {x : α}
    (h : x ∈ P.queue ∨ ∃ u, x ∈ Function.update P.hand t [] u) : P.WaitsBeside t x := by
  rcases waits_update h with h | h | h
  · exact Or.inl h
  · exact absurd h (by simp)
  · exact Or.inr h

theorem WaitsBeside.waits {t : ℕ} {x : α} (h : P.WaitsBeside t x) : P.Waits x := by
  rcases h with h | ⟨u, -, h⟩
  · exact Or.inl h
  · exact waits_of_hand h

variable [Preorder α]

/-- What holds all along. -/
structure Ordered (P : Pipeline α) : Prop where
  out : P.out.Pairwise (· < ·)
  queue : P.queue.Pairwise (· < ·)
  hand : ∀ t, (P.hand t).Pairwise (· < ·)
  /-- Nothing that waits is smaller than what is out. -/
  behind : ∀ x ∈ P.out, ∀ y, P.Waits y ∨ (∃ t, P.fresh t = some y) → x < y
  drained : ∀ t, P.draining t = true → ∀ x ∈ P.hand t, ∀ y ∈ P.queue, x < y
  newest : ∀ t y, P.fresh t = some y → ∀ x, P.Waits x → x < y
  alone : ∀ t u x y, P.fresh t = some x → P.fresh u = some y → t = u

/-- The steps of the workers. -/
inductive Step (P : Pipeline α) : Pipeline α → Prop where
  /-- A number is drawn that is larger than all there are. -/
  | draw (t : ℕ) {x : α} (hnone : ∀ u, P.fresh u = none) (hout : ∀ y ∈ P.out, y < x)
      (hwaits : ∀ y, P.Waits y → y < x) :
      Step P { P with fresh := Function.update P.fresh t (some x) }
  /-- The worker keeps the number it has drawn. -/
  | keep {t : ℕ} {x : α} (hfresh : P.fresh t = some x) (hdrain : P.draining t = false) :
      Step P { P with
        hand := Function.update P.hand t (P.hand t ++ [x])
        fresh := Function.update P.fresh t none }
  /-- The worker queues the number it has drawn. -/
  | enqueue {t : ℕ} {x : α} (hfresh : P.fresh t = some x) :
      Step P { P with
        queue := P.queue ++ [x]
        fresh := Function.update P.fresh t none }
  | start (t : ℕ) (hempty : P.hand t = []) :
      Step P { P with draining := Function.update P.draining t true }
  | pop {t : ℕ} {x : α} {rest : List α} (hdrain : P.draining t = true)
      (hqueue : P.queue = x :: rest) :
      Step P { P with
        queue := rest
        hand := Function.update P.hand t (P.hand t ++ [x]) }
  | finish (t : ℕ) : Step P { P with draining := Function.update P.draining t false }
  /-- The worker lets go of what it holds, and no one is overtaken. -/
  | release (t : ℕ) (hturn : ∀ x ∈ P.hand t, ∀ y, P.WaitsBeside t y → x < y) :
      Step P { P with
        out := P.out ++ P.hand t
        hand := Function.update P.hand t [] }
  /-- The worker drops what it holds. -/
  | lose (t : ℕ) : Step P { P with hand := Function.update P.hand t [] }

theorem ordered_empty : Ordered (⟨[], [], fun _ => [], fun _ => none, fun _ => false⟩ :
    Pipeline α) := by
  constructor <;> simp

/-- What one worker holds, with a number more that is larger. -/
theorem pairwise_snoc {xs : List α} {x : α} (hxs : xs.Pairwise (· < ·)) (h : ∀ y ∈ xs, y < x) :
    (xs ++ [x]).Pairwise (· < ·) := by
  rw [List.pairwise_append]
  refine ⟨hxs, List.pairwise_singleton _ x, fun y hy z hz => ?_⟩
  rw [List.mem_singleton] at hz
  rw [hz]
  exact h y hy

/-- A change of one hand keeps the hands in order when the new one is. -/
theorem hand_update {t : ℕ} {xs : List α} (hP : Ordered P) (hxs : xs.Pairwise (· < ·)) (u : ℕ) :
    (Function.update P.hand t xs u).Pairwise (· < ·) := by
  by_cases hut : u = t
  · rw [hut, Function.update_self]
    exact hxs
  · rw [Function.update_of_ne hut]
    exact hP.hand u

/-- The number in a worker's hand is put away: no number is in a hand then. -/
theorem fresh_put_away {t u : ℕ} {x y : α} (hP : Ordered P) (hfresh : P.fresh t = some x)
    (h : Function.update P.fresh t none u = some y) : False := by
  by_cases hut : u = t
  · rw [hut, Function.update_self] at h
    exact absurd h (by simp)
  · rw [Function.update_of_ne hut] at h
    exact hut (hP.alone t u x y hfresh h).symm

theorem Ordered.draw (hP : Ordered P) (t : ℕ) {x : α} (hnone : ∀ u, P.fresh u = none)
    (hout : ∀ y ∈ P.out, y < x) (hwaits : ∀ y, P.Waits y → y < x) :
    Ordered { P with fresh := Function.update P.fresh t (some x) } := by
  have honly : ∀ u y, Function.update P.fresh t (some x) u = some y → u = t ∧ y = x := by
    intro u y h
    by_cases hut : u = t
    · rw [hut, Function.update_self, Option.some.injEq] at h
      exact ⟨hut, h.symm⟩
    · rw [Function.update_of_ne hut, hnone u] at h
      exact absurd h (by simp)
  refine { hP with behind := ?_, newest := ?_, alone := ?_ }
  · rintro z hz y (hy | ⟨u, hu⟩)
    · exact hP.behind z hz y (Or.inl hy)
    · rw [(honly u y hu).2]
      exact hout z hz
  · intro u y hu z hz
    rw [(honly u y hu).2]
    exact hwaits z hz
  · intro u v y z hu hv
    rw [(honly u y hu).1, (honly v z hv).1]

/-- The number that is put into the hand is larger than all that wait, so the hand stays in order,
and the worker is not one that empties the queue. -/
theorem Ordered.keep (hP : Ordered P) {t : ℕ} {x : α} (hfresh : P.fresh t = some x)
    (hdrain : P.draining t = false) :
    Ordered { P with
      hand := Function.update P.hand t (P.hand t ++ [x])
      fresh := Function.update P.fresh t none } where
  out := hP.out
  queue := hP.queue
  hand := hand_update hP (pairwise_snoc (hP.hand t)
    fun y hy => hP.newest t x hfresh y (waits_of_hand hy))
  behind := by
    rintro z hz y (hy | ⟨u, hu⟩)
    · rcases waits_update hy with hy | hy | ⟨u, -, hy⟩
      · exact hP.behind z hz y (Or.inl (Or.inl hy))
      · rcases List.mem_append.mp hy with hy | hy
        · exact hP.behind z hz y (Or.inl (waits_of_hand hy))
        · rw [List.mem_singleton.mp hy]
          exact hP.behind z hz x (Or.inr ⟨t, hfresh⟩)
      · exact hP.behind z hz y (Or.inl (waits_of_hand hy))
    · exact absurd (fresh_put_away hP hfresh hu) id
  drained := by
    intro u hu y hy z hz
    have hut : u ≠ t := by
      rintro rfl
      rw [hdrain] at hu
      exact absurd hu (by simp)
    simp only [Function.update_of_ne hut] at hy
    exact hP.drained u hu y hy z hz
  newest := fun u y hu => absurd (fresh_put_away hP hfresh hu) id
  alone := fun u v y z hu => absurd (fresh_put_away hP hfresh hu) id

theorem Ordered.enqueue (hP : Ordered P) {t : ℕ} {x : α} (hfresh : P.fresh t = some x) :
    Ordered { P with queue := P.queue ++ [x], fresh := Function.update P.fresh t none } where
  out := hP.out
  queue := pairwise_snoc hP.queue fun y hy => hP.newest t x hfresh y (Or.inl hy)
  hand := hP.hand
  behind := by
    rintro z hz y ((hy | hy) | ⟨u, hu⟩)
    · rcases List.mem_append.mp hy with hy | hy
      · exact hP.behind z hz y (Or.inl (Or.inl hy))
      · rw [List.mem_singleton.mp hy]
        exact hP.behind z hz x (Or.inr ⟨t, hfresh⟩)
    · exact hP.behind z hz y (Or.inl (Or.inr hy))
    · exact absurd (fresh_put_away hP hfresh hu) id
  drained := by
    intro u hu y hy z hz
    rcases List.mem_append.mp hz with hz | hz
    · exact hP.drained u hu y hy z hz
    · rw [List.mem_singleton.mp hz]
      exact hP.newest t x hfresh y (waits_of_hand hy)
  newest := fun u y hu => absurd (fresh_put_away hP hfresh hu) id
  alone := fun u v y z hu => absurd (fresh_put_away hP hfresh hu) id

theorem Ordered.start (hP : Ordered P) {t : ℕ} (hempty : P.hand t = []) :
    Ordered { P with draining := Function.update P.draining t true } := by
  refine { hP with drained := fun u hu y hy z hz => ?_ }
  by_cases hut : u = t
  · subst hut
    rw [hempty] at hy
    exact absurd hy (by simp)
  · simp only [Function.update_of_ne hut] at hu
    exact hP.drained u hu y hy z hz

/-- The number at the front of the queue is smaller than what is left there and larger than what the
worker holds, since that has come out of the queue before it. -/
theorem Ordered.pop (hP : Ordered P) {t : ℕ} {x : α} {rest : List α}
    (hdrain : P.draining t = true) (hqueue : P.queue = x :: rest) :
    Ordered { P with
      queue := rest
      hand := Function.update P.hand t (P.hand t ++ [x]) } := by
  have hsorted := hP.queue
  rw [hqueue, List.pairwise_cons] at hsorted
  have hmem : ∀ y, y = x ∨ y ∈ rest → y ∈ P.queue := by
    intro y hy
    rw [hqueue]
    exact List.mem_cons.mpr hy
  -- what waits now has waited before
  have hwaits : ∀ y, Waits { P with
      queue := rest
      hand := Function.update P.hand t (P.hand t ++ [x]) } y → P.Waits y := by
    intro y hy
    rcases waits_update hy with hy | hy | ⟨u, -, hy⟩
    · exact Or.inl (hmem y (Or.inr hy))
    · rcases List.mem_append.mp hy with hy | hy
      · exact waits_of_hand hy
      · exact Or.inl (hmem y (Or.inl (List.mem_singleton.mp hy)))
    · exact waits_of_hand hy
  refine ⟨hP.out, hsorted.2, hand_update hP (pairwise_snoc (hP.hand t) fun y hy =>
    hP.drained t hdrain y hy x (hmem x (Or.inl rfl))), ?_, ?_, ?_, hP.alone⟩
  · intro z hz y hy
    exact hP.behind z hz y (hy.imp_left (hwaits y))
  · intro u hu y hy z hz
    by_cases hut : u = t
    · subst hut
      simp only [Function.update_self] at hy
      rcases List.mem_append.mp hy with hy | hy
      · exact hP.drained u hu y hy z (hmem z (Or.inr hz))
      · rw [List.mem_singleton.mp hy]
        exact hsorted.1 z hz
    · simp only [Function.update_of_ne hut] at hy
      exact hP.drained u hu y hy z (hmem z (Or.inr hz))
  · intro u y hu z hz
    exact hP.newest u y hu z (hwaits z hz)

theorem Ordered.finish (hP : Ordered P) (t : ℕ) :
    Ordered { P with draining := Function.update P.draining t false } := by
  refine { hP with drained := fun u hu y hy z hz => ?_ }
  by_cases hut : u = t
  · subst hut
    simp at hu
  · simp only [Function.update_of_ne hut] at hu
    exact hP.drained u hu y hy z hz

theorem Ordered.lose (hP : Ordered P) (t : ℕ) :
    Ordered { P with hand := Function.update P.hand t [] } where
  out := hP.out
  queue := hP.queue
  hand := hand_update hP List.Pairwise.nil
  behind := fun z hz y hy => hP.behind z hz y (hy.imp_left fun h => (waits_emptied h).waits)
  drained := by
    intro u hu y hy z hz
    by_cases hut : u = t
    · subst hut
      simp at hy
    · simp only [Function.update_of_ne hut] at hy
      exact hP.drained u hu y hy z hz
  newest := fun u y hu z hz => hP.newest u y hu z (waits_emptied (P := P) hz).waits
  alone := hP.alone

theorem Ordered.release (hP : Ordered P) (t : ℕ)
    (hturn : ∀ x ∈ P.hand t, ∀ y, P.WaitsBeside t y → x < y) :
    Ordered { P with out := P.out ++ P.hand t, hand := Function.update P.hand t [] } :=
  { hP.lose t with
    out := by
      rw [List.pairwise_append]
      exact ⟨hP.out, hP.hand t, fun x hx y hy => hP.behind x hx y (Or.inl (waits_of_hand hy))⟩
    behind := by
      rintro z hz y (hy | ⟨u, hu⟩)
      · rcases List.mem_append.mp hz with hz | hz
        · exact hP.behind z hz y (Or.inl (waits_emptied (P := P) hy).waits)
        · exact hturn z hz y (waits_emptied (P := P) hy)
      · rcases List.mem_append.mp hz with hz | hz
        · exact hP.behind z hz y (Or.inr ⟨u, hu⟩)
        · exact hP.newest u y hu z (waits_of_hand hz) }

/-- **Every step keeps the order.** -/
theorem Ordered.step (hP : Ordered P) (h : Step P P') : Ordered P' := by
  cases h with
  | draw t hnone hout hwaits => exact hP.draw t hnone hout hwaits
  | keep hfresh hdrain => exact hP.keep hfresh hdrain
  | enqueue hfresh => exact hP.enqueue hfresh
  | start t hempty => exact hP.start hempty
  | pop hdrain hqueue => exact hP.pop hdrain hqueue
  | finish t => exact hP.finish t
  | release t hturn => exact hP.release t hturn
  | lose t => exact hP.lose t

end Pipeline

end Lts
