/-
# Programs that ask their surroundings

An asynchronous function between two of its awaits computes; at an await, and at an atomic
operation on memory it shares, something else decides how it goes on.  A `Program` is such a
function: a tree of the operations it asks for, with a branch for every answer, whose leaves are
results and panics.  It is written in do-notation, line by line as the function is.

What the surroundings may do is a relation: in which worlds an operation may be answered how, and
which world it leaves.  Interference of other tasks is a part of it.

* `Runs`: a run of a program, with the operations it has made and their answers.
* `wp`, `wp_iff`: what holds of all runs, computed along the program.  `wp_bind`, `wp_ask` and
  `wp_pure` are its rules, and `wp_mono` is the rule of consequence.
* `runs_exists`: a program whose operations are always answered always ends.
* `runs_le`: worlds that only ever grow.
* `wp_unwrapAll`: the rule of a loop that unwraps what its body returns.
-/
import Mathlib.Order.Basic

namespace Lts

/-! ## 1. Programs

A tree over the operations, whose leaves are what the function returns.  `bind` grafts a tree on
the leaves that return and leaves the panics alone, so the do-notation of a program is that of
the function. -/

/-- How a run ends. -/
inductive Outcome (α : Type) : Type where
  | returned (x : α)
  | panicked

/-- A program over the operations `Op`, where `Ans op` are the answers to `op`. -/
inductive Program (Op : Type) (Ans : Op → Type) (α : Type) : Type where
  | ret (x : α)
  | panic
  | call (op : Op) (k : Ans op → Program Op Ans α)

namespace Program

variable {Op : Type} {Ans : Op → Type} {α β γ : Type}

def bind : Program Op Ans α → (α → Program Op Ans β) → Program Op Ans β
  | .ret x, f => f x
  | .panic, _ => .panic
  | .call op k, f => .call op fun a => bind (k a) f

instance : Monad (Program Op Ans) where
  pure := .ret
  bind := bind

/-- Make one operation. -/
def ask (op : Op) : Program Op Ans (Ans op) := .call op .ret

/-- `Result::unwrap`. -/
def unwrap {ε : Type} : Except ε α → Program Op Ans α
  | .ok x => .ret x
  | .error _ => .panic

/-! ## 2. Runs

A run is a path through the tree, from the root to a leaf, with a world at each operation.  The
trace has the operations with their answers, in the order in which they were made. -/

/-- An operation that was made, and its answer. -/
structure Event (Ans : Op → Type) : Type where
  op : Op
  answer : Ans op

variable {W : Type}

/-- `env op w a w'`: in the world `w` the operation may be answered with `a`, which leaves `w'`. -/
abbrev Surroundings (W : Type) (Ans : Op → Type) : Type := (op : Op) → W → Ans op → W → Prop

/-- A run from one world to another, with what was asked and answered on the way. -/
inductive Runs (env : Surroundings W Ans) :
    Program Op Ans α → W → List (Event Ans) → Outcome α → W → Prop where
  | ret {x : α} {w : W} : Runs env (.ret x) w [] (.returned x) w
  | panic {w : W} : Runs env .panic w [] .panicked w
  | call {op : Op} {k : Ans op → Program Op Ans α} {a : Ans op} {w w' w'' : W}
      {trace : List (Event Ans)} {out : Outcome α} :
      env op w a w' → Runs env (k a) w' trace out w'' →
        Runs env (.call op k) w (⟨op, a⟩ :: trace) out w''

variable {env : Surroundings W Ans}

/-- **A program ends** when each of its operations is answered. -/
theorem runs_exists (h : ∀ op w, ∃ a w', env op w a w') (p : Program Op Ans α) (w : W) :
    ∃ trace out w', Runs env p w trace out w' := by
  induction p generalizing w with
  | ret x => exact ⟨[], _, w, .ret⟩
  | panic => exact ⟨[], _, w, .panic⟩
  | call op k ih =>
    obtain ⟨a, w', ha⟩ := h op w
    obtain ⟨trace, out, w'', hruns⟩ := ih a w'
    exact ⟨_, out, w'', .call ha hruns⟩

/-- A run of a program that returns, and a run of what follows it. -/
theorem runs_bind {p : Program Op Ans α} {f : α → Program Op Ans β} {w w' w'' : W}
    {trace trace' : List (Event Ans)} {x : α} {out : Outcome β}
    (hp : Runs env p w trace (.returned x) w') (hf : Runs env (f x) w' trace' out w'') :
    Runs env (p >>= f) w (trace ++ trace') out w'' := by
  change Runs env (p.bind f) w _ out w''
  generalize hx : Outcome.returned x = out' at hp
  induction hp with
  | ret =>
    obtain rfl := Outcome.returned.inj hx
    exact hf
  | panic => cases hx
  | call hop _ ih => exact .call hop (ih hf hx)

/-- A run of a program and what follows it is a run of the program, and of what follows its result;
or the program panics.  By induction on the program, which is an induction on the operations of the
first part. -/
theorem runs_bind_iff {p : Program Op Ans α} {f : α → Program Op Ans β} {w w' : W}
    {trace : List (Event Ans)} {out : Outcome β} :
    Runs env (p >>= f) w trace out w' ↔
      (∃ x w₁ front back, trace = front ++ back ∧ Runs env p w front (.returned x) w₁ ∧
        Runs env (f x) w₁ back out w') ∨
      out = .panicked ∧ Runs env p w trace .panicked w' := by
  constructor
  · intro hruns
    change Runs env (p.bind f) w trace out w' at hruns
    induction p generalizing w trace with
    | ret x => exact Or.inl ⟨x, w, [], trace, rfl, .ret, hruns⟩
    | panic =>
      cases hruns
      exact Or.inr ⟨rfl, .panic⟩
    | call op k ih =>
      cases hruns with
      | call hop hrest =>
        rcases ih _ hrest with ⟨x, w₁, front, back, rfl, hp, hf⟩ | ⟨rfl, hp⟩
        · exact Or.inl ⟨x, w₁, _, back, rfl, .call hop hp, hf⟩
        · exact Or.inr ⟨rfl, .call hop hp⟩
  · rintro (⟨x, w₁, front, back, rfl, hp, hf⟩ | ⟨rfl, hp⟩)
    · exact runs_bind hp hf
    · change Runs env (p.bind f) w trace .panicked w'
      generalize hout : Outcome.panicked = out at hp
      induction hp with
      | ret => cases hout
      | panic => exact .panic
      | call hop _ ih => exact .call hop (ih hout)

/-- **What every operation leaves above, a run leaves above.** -/
theorem runs_le [Preorder W] (h : ∀ op w a w', env op w a w' → w ≤ w') {p : Program Op Ans α}
    {w w' : W} {trace : List (Event Ans)} {out : Outcome α} (hruns : Runs env p w trace out w') :
    w ≤ w' := by
  induction hruns with
  | ret | panic => exact le_refl _
  | call hop _ ih => exact le_trans (h _ _ _ _ hop) ih

/-! ## 3. What holds of all runs

`wp` follows the tree instead of the runs, and `wp_iff` says that this is the same.  A statement
about all runs of a function is then proved line by line, and the answers that the surroundings
may give come in at the operations only. -/

/-- The condition on a world under which every run of the program from it satisfies `Q`. -/
def wp (env : Surroundings W Ans) : Program Op Ans α → W →
    (List (Event Ans) → Outcome α → W → Prop) → Prop
  | .ret x, w, Q => Q [] (.returned x) w
  | .panic, w, Q => Q [] .panicked w
  | .call op k, w, Q => ∀ a w', env op w a w' → wp env (k a) w' fun trace => Q (⟨op, a⟩ :: trace)

theorem wp_iff {p : Program Op Ans α} {w : W} {Q : List (Event Ans) → Outcome α → W → Prop} :
    wp env p w Q ↔ ∀ trace out w', Runs env p w trace out w' → Q trace out w' := by
  induction p generalizing w Q with
  | ret x =>
    constructor
    · intro hQ _ _ _ hruns
      cases hruns
      exact hQ
    · intro h
      exact h _ _ _ .ret
  | panic =>
    constructor
    · intro hQ _ _ _ hruns
      cases hruns
      exact hQ
    · intro h
      exact h _ _ _ .panic
  | call op k ih =>
    constructor
    · intro hQ _ _ _ hruns
      cases hruns with
      | call hop hrest => exact (ih _).mp (hQ _ _ hop) _ _ _ hrest
    · intro h a w' hop
      exact (ih a).mpr fun trace out w'' hrest => h _ _ _ (.call hop hrest)

/-- What is to hold behind `f`, of a program that `f` goes on from. -/
def behind (env : Surroundings W Ans) (f : α → Program Op Ans β)
    (Q : List (Event Ans) → Outcome β → W → Prop) : List (Event Ans) → Outcome α → W → Prop
  | trace, .returned x, w => wp env (f x) w fun trace' => Q (trace ++ trace')
  | trace, .panicked, w => Q trace .panicked w

section Rules

variable {w : W}

@[simp] theorem wp_pure {x : α} {Q : List (Event Ans) → Outcome α → W → Prop} :
    wp env (pure x : Program Op Ans α) w Q ↔ Q [] (.returned x) w := Iff.rfl

@[simp] theorem wp_ret {x : α} {Q : List (Event Ans) → Outcome α → W → Prop} :
    wp env (.ret x : Program Op Ans α) w Q ↔ Q [] (.returned x) w := Iff.rfl

@[simp] theorem wp_panic {Q : List (Event Ans) → Outcome α → W → Prop} :
    wp env (.panic : Program Op Ans α) w Q ↔ Q [] .panicked w := Iff.rfl

/-- One operation and what follows it. -/
@[simp] theorem wp_ask {op : Op} {f : Ans op → Program Op Ans β}
    {Q : List (Event Ans) → Outcome β → W → Prop} :
    wp env (ask op >>= f) w Q ↔
      ∀ a w', env op w a w' → wp env (f a) w' fun trace => Q (⟨op, a⟩ :: trace) := Iff.rfl

theorem wp_bind {p : Program Op Ans α} {f : α → Program Op Ans β}
    {Q : List (Event Ans) → Outcome β → W → Prop} :
    wp env (p >>= f) w Q ↔ wp env p w (behind env f Q) := by
  change wp env (p.bind f) w Q ↔ _
  induction p generalizing w Q with
  | ret x => rfl
  | panic => rfl
  | call op k ih =>
    refine forall_congr' fun a => forall_congr' fun w' => forall_congr' fun _ => ?_
    refine (ih a).trans (iff_of_eq ?_)
    congr 1
    funext trace out w''
    cases out <;> rfl

/-- **The rule of consequence.** -/
theorem wp_mono {p : Program Op Ans α} {Q R : List (Event Ans) → Outcome α → W → Prop}
    (h : ∀ trace out w', Q trace out w' → R trace out w') (hp : wp env p w Q) : wp env p w R :=
  wp_iff.mpr fun trace out w' hruns => h _ _ _ (wp_iff.mp hp trace out w' hruns)

/-- What two conditions say of the runs they say together. -/
theorem wp_and {p : Program Op Ans α} {Q R : List (Event Ans) → Outcome α → W → Prop}
    (hQ : wp env p w Q) (hR : wp env p w R) :
    wp env p w fun trace out w' => Q trace out w' ∧ R trace out w' :=
  wp_iff.mpr fun trace out w' hruns =>
    ⟨wp_iff.mp hQ trace out w' hruns, wp_iff.mp hR trace out w' hruns⟩

theorem wp_le [Preorder W] (h : ∀ op w a w', env op w a w' → w ≤ w') (p : Program Op Ans α) :
    wp env p w fun _ _ w' => w ≤ w' :=
  wp_iff.mpr fun _ _ _ hruns => runs_le h hruns

end Rules

/-! ## 4. A loop that unwraps

The one loop that panics at an error where others return it.  What was done is the work of the
members before, and what is left is not begun: the statement has the members on both sides. -/

/-- Run a program for each member of a list, and `unwrap` what it returns before the next. -/
def unwrapAll {ε : Type} (f : α → Program Op Ans (Except ε β)) : List α → Program Op Ans (List β)
  | [] => pure []
  | x :: xs => do
    let result ← f x
    let y ← unwrap result
    let ys ← unwrapAll f xs
    pure (y :: ys)

/-- **The loop** goes through the whole list, or panics at the first error.  `good` says of an event
that the body returns no error for it, `did` what the body does for a member of the list, and `I` is
an invariant of the worlds. -/
theorem wp_unwrapAll {ε : Type} {f : α → Program Op Ans (Except ε β)} {I : W → Prop}
    {good : Event Ans → Prop} {did : α → Event Ans → Prop}
    (h : ∀ x w, I w → wp env (f x) w fun trace out w' => I w' ∧ ∃ result, out = .returned result ∧
      (result.isOk = true ↔ ∀ ev ∈ trace, good ev) ∧ ∃ ev ∈ trace, did x ev)
    (xs : List α) {w : W} (hw : I w) :
    wp env (unwrapAll f xs) w fun trace out w' =>
      (∃ ys, out = .returned ys ∧ I w' ∧ (∀ ev ∈ trace, good ev) ∧
          ∀ x ∈ xs, ∃ ev ∈ trace, did x ev) ∨
        out = .panicked ∧ ∃ ev ∈ trace, ¬ good ev := by
  induction xs generalizing w with
  | nil =>
    rw [unwrapAll, wp_pure]
    exact Or.inl ⟨[], rfl, hw, by simp, by simp⟩
  | cons x xs ih =>
    rw [unwrapAll, wp_bind]
    refine wp_mono ?_ (h x w hw)
    rintro trace out w' ⟨hw', result, rfl, hgood, hdid⟩
    cases result with
    | error e =>
      have hbad : ¬ ∀ ev ∈ trace, good ev := fun hall => Bool.false_ne_true (hgood.mpr hall)
      simp only [not_forall] at hbad
      obtain ⟨ev, hev, hbad⟩ := hbad
      exact Or.inr ⟨rfl, ev, List.mem_append_left _ hev, hbad⟩
    | ok y =>
      change wp env (unwrapAll f xs >>= fun ys => pure (y :: ys)) w' _
      rw [wp_bind]
      refine wp_mono ?_ (ih hw')
      rintro trace' out' w'' (⟨ys, rfl, hw'', hgood', hdid'⟩ | ⟨rfl, ev, hev, hbad⟩)
      · refine Or.inl ⟨y :: ys, rfl, hw'', ?_, ?_⟩
        · intro ev hev
          rcases List.mem_append.mp hev with hev | hev
          · exact hgood.mp rfl ev hev
          · exact hgood' ev (by simpa using hev)
        · refine List.forall_mem_cons.mpr ⟨?_, fun x' hx' => ?_⟩
          · obtain ⟨ev, hev, hx⟩ := hdid
            exact ⟨ev, List.mem_append_left _ hev, hx⟩
          · obtain ⟨ev, hev, hx⟩ := hdid' x' hx'
            exact ⟨ev, List.mem_append_right _ (by simpa using hev), hx⟩
      · exact Or.inr ⟨rfl, ev, List.mem_append_right _ hev, hbad⟩

end Program

end Lts
