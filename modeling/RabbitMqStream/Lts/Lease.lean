/-
# Leases

What is taken from others has to be given back: a connection, a file, a lock.  Each is a lease with
a number that is given out once.  A ledger says which leases a task holds, how many it has held at
one time, and which it has used when it did not hold them.  The ledger watches: it forbids nothing,
so that a use behind the return is a fact to be disproved.

* `Leases`: the ledger.  No lease is in it twice, and none that is still to be given out.
* `Leases.Keeps base room kept w`: what a task has done since the ledger was `base`.  It holds
  `kept` beside what was held then, has held at most `room` of its own at one time, and has used
  nothing else.
* `Keeps.take`, `Keeps.use`, `Keeps.release`: the steps, and `Keeps.trans`: one task behind another.
* `Leases.Holds`: the same, whatever the order is in which the leases were taken.

**How it is used.**  A function of the code is proved against `Keeps` from whatever ledger it
starts in.  As `Keeps` is relative to that ledger, two functions called one behind the other
compose (`Keeps.trans`), and the room that the second needs is counted on top of what the first
has kept.
-/
import Mathlib.Data.List.Nodup
import Mathlib.Order.MinMax
import Mathlib.Order.Nat

namespace Lts

/-- What an event does with a lease. -/
inductive Leasing : Type where
  | take (n : ℕ)
  | release (n : ℕ)
  | use (n : ℕ)
  | idle

/-- The leases of a task. -/
structure Leases : Type where
  /-- The next one that is given out has this number or a higher one. -/
  next : ℕ
  held : List ℕ
  /-- How many have been held at one time. -/
  most : ℕ
  /-- What has been used or given back and was not held then. -/
  misused : List ℕ
  below : ∀ n ∈ held, n < next
  distinct : held.Nodup

namespace Leases

/-- Nothing is held, and nothing has been. -/
def empty : Leases := ⟨0, [], 0, [], by simp, by simp⟩

def take (w : Leases) (n : ℕ) (h : w.next ≤ n) : Leases where
  next := n + 1
  held := n :: w.held
  most := max w.most (w.held.length + 1)
  misused := w.misused
  below := by
    intro m hm
    rcases List.mem_cons.mp hm with rfl | hm
    · exact Nat.lt_succ_self _
    · exact ((w.below m hm).trans_le h).trans (Nat.lt_succ_self n)
  distinct := List.nodup_cons.mpr ⟨fun hn => absurd (w.below n hn) (Nat.not_lt.mpr h), w.distinct⟩

def use (w : Leases) (n : ℕ) : Leases :=
  { w with misused := if n ∈ w.held then w.misused else n :: w.misused }

def release (w : Leases) (n : ℕ) : Leases :=
  { w.use n with
    held := w.held.erase n
    below := fun m hm => w.below m (List.mem_of_mem_erase hm)
    distinct := w.distinct.erase n }

/-- One event.  Leases that other tasks take have numbers too, so a number may be left out. -/
def Step (w : Leases) : Leasing → Leases → Prop
  | .take n, w' => ∃ h : w.next ≤ n, w' = w.take n h
  | .release n, w' => w' = w.release n
  | .use n, w' => w' = w.use n
  | .idle, w' => w' = w

/-- What a task has done since the ledger was `base`: it holds `kept` of its own now, and has held
at most `room` of its own. -/
structure Keeps (base : Leases) (room : ℕ) (kept : List ℕ) (w : Leases) : Prop where
  held : w.held = kept ++ base.held
  within : kept.length ≤ room
  most : w.most ≤ max base.most (base.held.length + room)
  misused : w.misused = base.misused
  fresh : ∀ n ∈ kept, base.next ≤ n
  next : base.next ≤ w.next

variable {base w : Leases} {room : ℕ} {kept : List ℕ}

theorem Keeps.refl (base : Leases) (room : ℕ) : Keeps base room [] base :=
  ⟨rfl, Nat.zero_le _, le_max_left _ _, rfl, by simp, le_refl _⟩

theorem Keeps.mem (h : Keeps base room kept w) {n : ℕ} (hn : n ∈ kept) : n ∈ w.held :=
  h.held ▸ List.mem_append_left _ hn

/-- The leases of its own are distinct. -/
theorem Keeps.nodup (h : Keeps base room kept w) : kept.Nodup :=
  (List.nodup_append.mp (h.held ▸ w.distinct)).1

theorem Keeps.take (h : Keeps base room kept w) (hroom : kept.length < room) {n : ℕ}
    (hn : w.next ≤ n) : Keeps base room (n :: kept) (w.take n hn) where
  held := congrArg (List.cons n) h.held
  within := hroom
  most := by
    have hlen : w.held.length = kept.length + base.held.length := by
      rw [h.held, List.length_append]
    have hmost := h.most
    simp only [Leases.take]
    omega
  misused := h.misused
  fresh := by
    intro m hm
    rcases List.mem_cons.mp hm with rfl | hm
    · exact h.next.trans hn
    · exact h.fresh m hm
  next := (h.next.trans hn).trans (Nat.le_succ n)

/-- A lease that is held may be used. -/
theorem Keeps.use (h : Keeps base room kept w) {n : ℕ} (hn : n ∈ kept) :
    Keeps base room kept (w.use n) where
  held := h.held
  within := h.within
  most := h.most
  misused := by rw [Leases.use, if_pos (h.mem hn), h.misused]
  fresh := h.fresh
  next := h.next

/-- A lease that is held may be given back, and is not held then. -/
theorem Keeps.release (h : Keeps base room kept w) {n : ℕ} (hn : n ∈ kept) :
    Keeps base room (kept.erase n) (w.release n) where
  held := by
    change w.held.erase n = _
    rw [h.held, List.erase_append_left _ hn]
  within := (List.length_erase_le ..).trans h.within
  most := h.most
  misused := (h.use hn).misused
  fresh := fun m hm => h.fresh m (List.mem_of_mem_erase hm)
  next := h.next

/-- What is left when the lease in front of the last one is given back. -/
theorem Keeps.erase_second {m n : ℕ} (h : Keeps base room (m :: n :: kept) w) :
    (m :: n :: kept).erase n = m :: kept := by
  have hne : m ≠ n := fun heq => (List.nodup_cons.mp h.nodup).1 (heq ▸ List.mem_cons_self)
  rw [List.erase_cons_tail (by simpa using hne), List.erase_cons_head]

/-- A task that keeps to less room. -/
theorem Keeps.mono (h : Keeps base room kept w) {room' : ℕ} (hle : room ≤ room') :
    Keeps base room' kept w :=
  ⟨h.held, h.within.trans hle,
    h.most.trans (max_le_max (le_refl _) (Nat.add_le_add_left hle _)), h.misused, h.fresh, h.next⟩

/-- **One task behind another.** -/
theorem Keeps.trans {w' : Leases} {room' : ℕ} {kept' : List ℕ} (h : Keeps base room kept w)
    (h' : Keeps w room' kept' w') :
    Keeps base (max room (kept.length + room')) (kept' ++ kept) w' where
  held := by rw [h'.held, h.held, List.append_assoc]
  within := by
    have hwithin := h'.within
    rw [List.length_append]
    omega
  most := by
    have hlen : w.held.length = kept.length + base.held.length := by
      rw [h.held, List.length_append]
    have hmost := h.most
    have hmost' := h'.most
    omega
  misused := h'.misused.trans h.misused
  fresh := by
    intro n hn
    rcases List.mem_append.mp hn with hn | hn
    · exact h.next.trans (h'.fresh n hn)
    · exact h.fresh n hn
  next := h.next.trans h'.next

/-- The same, where there is room enough. -/
theorem Keeps.append {w' : Leases} {room' : ℕ} {kept' : List ℕ} (h : Keeps base room kept w)
    (h' : Keeps w room' kept' w') (hroom : kept.length + room' ≤ room) :
    Keeps base room (kept' ++ kept) w' := (h.trans h').mono (max_le (le_refl _) hroom)

/-- The task holds what it owns, in some order. -/
def Holds (base : Leases) (room : ℕ) (owned : List ℕ) (w : Leases) : Prop :=
  ∃ kept, kept.Perm owned ∧ Keeps base room kept w

variable {owned owned' : List ℕ} {n : ℕ}

theorem Keeps.holds (h : Keeps base room kept w) : Holds base room kept w := ⟨kept, .refl _, h⟩

theorem Holds.perm (h : Holds base room owned w) (hperm : owned.Perm owned') :
    Holds base room owned' w := by
  obtain ⟨kept, hkept, hkeeps⟩ := h
  exact ⟨kept, hkept.trans hperm, hkeeps⟩

theorem Holds.use (h : Holds base room owned w) (hn : n ∈ owned) :
    Holds base room owned (w.use n) := by
  obtain ⟨kept, hkept, hkeeps⟩ := h
  exact ⟨kept, hkept, hkeeps.use (hkept.mem_iff.mpr hn)⟩

/-- What is given back is not owned then. -/
theorem Holds.release (h : Holds base room (n :: owned) w) :
    Holds base room owned (w.release n) := by
  obtain ⟨kept, hkept, hkeeps⟩ := h
  refine ⟨kept.erase n, ?_, hkeeps.release (hkept.mem_iff.mpr List.mem_cons_self)⟩
  have herase := hkept.erase n
  rwa [List.erase_cons_head] at herase

end Leases

end Lts
