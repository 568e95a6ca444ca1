/-
# Programs that return early

A function whose steps can fail returns at the first error, with `?`.  Here that is the exception
monad over a `Program`, so a function is written line by line, and `ends` says of all its runs at
once what holds when it returns a value, when it returns an error and when it panics.

* `ends_iff`: the three conditions, of every run.
* `ends_bind`, `ends_attempt`, `ends_pure`, `ends_throw`, `ends_mono`: the rules.
* `ends_repeatUntil`: a loop that goes round until its body breaks, by an invariant.
* `Extends`: a program that stops short, and one that goes on where it does.  With more rounds, a
  loop extends itself (`Extends.repeatUntil`), and so does what is built around it.

**How it is used.**  A specification of a function is an `ends` with three conditions.  Its proof
goes down the lines of the function: `ends_bind` for a line, the specification of what the line
calls with `ends_mono`, and `ends_attempt` for an operation.  The trace is accumulated along the
way, so that a condition can say what was asked and answered.
-/
import RabbitMqStream.Lts.Program

namespace Lts.Program

variable {Op : Type} {Ans : Op → Type} {α β ε δ W : Type}

/-- A program that may return early with an error. -/
abbrev Fallible (Op : Type) (Ans : Op → Type) (ε α : Type) : Type := ExceptT ε (Program Op Ans) α

/-- An operation whose answer is read as a result, and `?`. -/
def attempt (op : Op) (result : Ans op → Except ε α) : Fallible Op Ans ε α :=
  ExceptT.mk (ask op >>= fun answer => pure (result answer))

/-- `map_err`, or the conversion that `?` makes. -/
def mapErr (f : ε → δ) (x : Fallible Op Ans ε α) : Fallible Op Ans δ α :=
  ExceptT.mk (x.run >>= fun
    | .ok a => pure (.ok a)
    | .error e => pure (.error (f e)))

/-- Go round until the body breaks with a value, for at most so many rounds.  `none` says that the
loop is still going on. -/
def repeatUntil (body : Fallible Op Ans ε (Option α)) : ℕ → Fallible Op Ans ε (Option α)
  | 0 => pure none
  | rounds + 1 => do
    match ← body with
    | some x => pure (some x)
    | none => repeatUntil body rounds

/-! ## 1. What holds when a program ends

Three conditions, since an early return is not the end that the next line goes on from: an error
and a panic leave the function at once and keep what has been shown of them up to there. -/

/-- A condition on values, one on errors and one on panics, as a condition on outcomes. -/
def either (Ok : List (Event Ans) → α → W → Prop) (Err : List (Event Ans) → ε → W → Prop)
    (Panics : List (Event Ans) → W → Prop) :
    List (Event Ans) → Outcome (Except ε α) → W → Prop
  | trace, .returned (.ok x), w => Ok trace x w
  | trace, .returned (.error e), w => Err trace e w
  | trace, .panicked, w => Panics trace w

/-- Every run returns a value that satisfies `Ok`, or an error that satisfies `Err`, or it panics
and satisfies `Panics`. -/
def ends (env : Surroundings W Ans) (x : Fallible Op Ans ε α) (w : W)
    (Ok : List (Event Ans) → α → W → Prop) (Err : List (Event Ans) → ε → W → Prop)
    (Panics : List (Event Ans) → W → Prop) : Prop :=
  wp env x.run w (either Ok Err Panics)

section Rules

variable {env : Surroundings W Ans} {w : W} {Ok Ok' : List (Event Ans) → α → W → Prop}
  {Err Err' : List (Event Ans) → ε → W → Prop} {Panics Panics' : List (Event Ans) → W → Prop}

theorem ends_iff {x : Fallible Op Ans ε α} :
    ends env x w Ok Err Panics ↔ ∀ trace out w', Runs env x.run w trace out w' →
      (∃ a, out = .returned (.ok a) ∧ Ok trace a w') ∨
        (∃ e, out = .returned (.error e) ∧ Err trace e w') ∨
          out = .panicked ∧ Panics trace w' := by
  rw [ends, wp_iff]
  refine forall_congr' fun trace => forall_congr' fun out => forall_congr' fun w' =>
    forall_congr' fun _ => ?_
  rcases out with (e | a) | _ <;> simp [either]

@[simp] theorem ends_pure {a : α} :
    ends env (pure a : Fallible Op Ans ε α) w Ok Err Panics ↔ Ok [] a w := Iff.rfl

@[simp] theorem ends_throw {e : ε} :
    ends env (throw e : Fallible Op Ans ε α) w Ok Err Panics ↔ Err [] e w := Iff.rfl

/-- **The rule of consequence.** -/
theorem ends_mono {x : Fallible Op Ans ε α} (hOk : ∀ trace a w', Ok trace a w' → Ok' trace a w')
    (hErr : ∀ trace e w', Err trace e w' → Err' trace e w')
    (hPanics : ∀ trace w', Panics trace w' → Panics' trace w') (h : ends env x w Ok Err Panics) :
    ends env x w Ok' Err' Panics' := by
  refine wp_mono ?_ h
  rintro trace ((e | a) | _) w' hout
  · exact hErr trace e w' hout
  · exact hOk trace a w' hout
  · exact hPanics trace w' hout

/-- **A step and what follows it**: its error is the error of the whole. -/
theorem ends_bind {x : Fallible Op Ans ε α} {f : α → Fallible Op Ans ε β}
    {Ok : List (Event Ans) → β → W → Prop} :
    ends env (x >>= f) w Ok Err Panics ↔ ends env x w
      (fun trace a w' => ends env (f a) w' (fun trace' => Ok (trace ++ trace'))
        (fun trace' => Err (trace ++ trace')) fun trace' => Panics (trace ++ trace'))
      Err Panics := by
  change wp env (x.run >>= fun r => ExceptT.bindCont f r) w _ ↔ _
  rw [wp_bind, ends]
  refine iff_of_eq (congrArg _ ?_)
  funext trace out w'
  rcases out with (e | a) | _
  · change (either Ok Err Panics) (trace ++ []) (.returned (.error e)) w' = _
    rw [List.append_nil]
    rfl
  · change wp env (f a).run w' _ = wp env (f a).run w' _
    refine congrArg _ ?_
    funext trace' out w''
    rcases out with (e | b) | _ <;> rfl
  · rfl

/-- A step that is one operation. -/
theorem ends_attempt {op : Op} {result : Ans op → Except ε α} :
    ends env (attempt op result) w Ok Err Panics ↔
      ∀ answer w', env op w answer w' →
        either Ok Err Panics [⟨op, answer⟩] (.returned (result answer)) w' := by
  refine forall_congr' fun answer => forall_congr' fun w' => forall_congr' fun _ => ?_
  exact Iff.rfl

/-- A step that cannot fail. -/
theorem ends_lift {p : Program Op Ans α} :
    ends env (ExceptT.lift p : Fallible Op Ans ε α) w Ok Err Panics ↔
      wp env p w fun trace out w' =>
        (∃ a, out = .returned a ∧ Ok trace a w') ∨ out = .panicked ∧ Panics trace w' := by
  change wp env (p >>= fun a => pure (Except.ok a)) w _ ↔ _
  rw [wp_bind]
  refine iff_of_eq (congrArg _ ?_)
  funext trace out w'
  cases out with
  | returned a =>
    change Ok (trace ++ []) a w' = _
    simp
  | panicked => simp [behind, either]

theorem ends_mapErr {x : Fallible Op Ans ε α} {f : ε → δ}
    {Err : List (Event Ans) → δ → W → Prop} :
    ends env (mapErr f x) w Ok Err Panics ↔
      ends env x w Ok (fun trace e => Err trace (f e)) Panics := by
  change wp env (x.run >>= _) w _ ↔ _
  rw [wp_bind, ends]
  refine iff_of_eq (congrArg _ ?_)
  funext trace out w'
  rcases out with (e | a) | _
  · change Err (trace ++ []) (f e) w' = _
    rw [List.append_nil]
    rfl
  · change Ok (trace ++ []) a w' = _
    rw [List.append_nil]
    rfl
  · rfl

end Rules

/-! ## 2. Loops

The invariant of a loop speaks of the events so far and of the number of rounds.  A round that
breaks or fails ends the loop, and a loop that is given no more rounds says so. -/

section Loops

variable {env : Surroundings W Ans} {body : Fallible Op Ans ε (Option α)}

/-- **The loop.**  `I k` holds of the events and the world behind `k` rounds that do not break;
`Ok`, `Err` and `Panics` say what a round that breaks, fails or panics does behind such rounds. -/
theorem ends_repeatUntil {I : ℕ → List (Event Ans) → W → Prop}
    {Ok : List (Event Ans) → α → W → Prop} {Err : List (Event Ans) → ε → W → Prop}
    {Panics : List (Event Ans) → W → Prop}
    (h : ∀ k before w, I k before w → ends env body w
      (fun trace r w' => r.elim (I (k + 1) (before ++ trace) w') fun a => Ok (before ++ trace) a w')
      (fun trace e w' => Err (before ++ trace) e w') fun trace w' => Panics (before ++ trace) w')
    (rounds : ℕ) : ∀ k before w, I k before w → ends env (repeatUntil body rounds) w
      (fun trace r w' =>
        r.elim (I (k + rounds) (before ++ trace) w') fun a => Ok (before ++ trace) a w')
      (fun trace e w' => Err (before ++ trace) e w')
      fun trace w' => Panics (before ++ trace) w' := by
  induction rounds with
  | zero =>
    intro k before w hw
    rw [repeatUntil, ends_pure]
    simpa using hw
  | succ rounds ih =>
    intro k before w hw
    rw [repeatUntil, ends_bind]
    refine ends_mono ?_ (fun trace e w' he => he) (fun trace w' hp => hp) (h k before w hw)
    intro trace r w' hr
    cases r with
    | none =>
      have hrest := ih (k + 1) (before ++ trace) w' hr
      simpa only [List.append_assoc, Nat.add_right_comm, ← Nat.add_assoc] using hrest
    | some a => simpa using hr

end Loops

/-! ## 3. Programs that may stop short

A loop is given a number of rounds, which the code does not have.  That the number does not
matter is a statement about two programs: the one with more rounds ends as the one with fewer,
wherever that one has ended at all. -/

section Extends

variable {x y : Fallible Op Ans ε (Option α)}

/-- What `x` ends with, `y` ends with too, with the same events.  Where `x` stops short with `none`,
`y` may go on. -/
def Extends (x y : Fallible Op Ans ε (Option α)) : Prop :=
  ∀ ⦃W : Type⦄ ⦃env : Surroundings W Ans⦄ ⦃w w' : W⦄ ⦃trace : List (Event Ans)⦄
    ⦃out : Outcome (Except ε (Option α))⦄, out ≠ .returned (.ok none) →
    Runs env x.run w trace out w' → Runs env y.run w trace out w'

theorem Extends.refl (x : Fallible Op Ans ε (Option α)) : Extends x x :=
  fun _ _ _ _ _ _ _ h => h

/-- The same beginning, and ends of which the one extends the other. -/
theorem Extends.bind {x : Fallible Op Ans ε β} {f g : β → Fallible Op Ans ε (Option α)}
    (h : ∀ b, Extends (f b) (g b)) : Extends (x >>= f) (x >>= g) := by
  intro W env w w' trace out hout hruns
  change Runs env (x.run >>= ExceptT.bindCont g) w trace out w'
  rcases runs_bind_iff.mp hruns with ⟨r, w₁, front, back, rfl, hx, hf⟩ | ⟨rfl, hx⟩
  · cases r with
    | error e => exact runs_bind hx hf
    | ok b => exact runs_bind hx (h b hout hf)
  · exact runs_bind_iff.mpr (Or.inr ⟨rfl, hx⟩)

theorem Extends.mapErr {f : ε → δ} (h : Extends x y) : Extends (mapErr f x) (mapErr f y) := by
  intro W env w w' trace out hout hruns
  refine runs_bind_iff.mpr ?_
  rcases runs_bind_iff.mp hruns with ⟨r, w₁, front, back, rfl, hx, hf⟩ | ⟨rfl, hx⟩
  · refine Or.inl ⟨r, w₁, front, back, rfl, h ?_ hx, hf⟩
    rintro hnone
    obtain rfl := Outcome.returned.inj hnone
    cases hf
    exact hout rfl
  · exact Or.inr ⟨rfl, h (by simp) hx⟩

/-- **The rounds a loop is given** beyond the ones it needs are not looked at. -/
theorem Extends.repeatUntil (body : Fallible Op Ans ε (Option α)) {rounds more : ℕ}
    (hle : rounds ≤ more) : Extends (repeatUntil body rounds) (repeatUntil body more) := by
  induction rounds generalizing more with
  | zero =>
    intro W env w w' trace out hout hruns
    cases hruns
    exact absurd rfl hout
  | succ rounds ih =>
    obtain ⟨more, rfl⟩ : ∃ m, more = m + 1 := ⟨more - 1, by omega⟩
    refine Extends.bind fun r => ?_
    cases r with
    | none => exact ih (by omega)
    | some a => exact Extends.refl _

end Extends

end Lts.Program
