/-
# Termination of readers, said without fuel

`Reader.fix` and `Reader.untilEmpty` are defined by fuel.  This module says what they compute in
terms in which there is none, so that their termination is a statement about the recursion and the
loop themselves.

* **Recursion.**  The body of a recursive reader, nested `n` times around an arbitrary reader, is
  the recursion with everything below its first `n` calls replaced.  When the result does not
  depend on what is put there, the recursion is over before it gets that deep
  (`nested_eq_fix`).
* **Loops.**  `Loops` is a loop with a condition as a relation, with the number of rounds it makes.
  A loop whose rounds all use a symbol ends (`loops_exists`), in one way (`Loops.unique`), and makes
  no more rounds than there are symbols, and one more if it starts a round at the end of the
  input (`Loops.le`).

**The argument.**  Two readers that agree on all shorter inputs are told apart by no guarded body,
so one call more makes agreement reach one symbol further.  Below as many calls as the input has
symbols, and one, nothing is left that could be told apart.  A loop is paid for in the same coin,
a symbol for each round.
-/
import RabbitMqStream.Wire.Reader

namespace Wire

variable {σ ε α β : Type}

namespace Reader

/-! ## 1. Strict suffixes

The form of progress that a recursion needs: what is left is a part of the input and not all of
it, which is a well-founded order on inputs. -/

/-- Every success leaves a strict suffix of the input. -/
def LeavesLess (r : Reader σ ε α) : Prop :=
  ∀ b x rest, r b = .ok (x, rest) → rest <:+ b ∧ rest ≠ b

theorem Consumes.leavesLess {r : Reader σ ε α} (h : r.Consumes 1) : r.LeavesLess := by
  intro b x rest hr
  obtain ⟨hsuffix, hlen⟩ := h b x rest hr
  refine ⟨hsuffix, ?_⟩
  rintro rfl
  omega

/-! ## 2. Recursion

The calls of a recursive reader that are open at one time are nested, and each of them stands on
a strict suffix of the input of the one around it.  The nesting is therefore no deeper than the
input is long, and a reader in the place of the next call is never asked. -/

/-- `n` calls of a recursive reader, one inside the other, around the reader `deeper`. -/
def nested (step : Reader σ ε α → Reader σ ε α) (deeper : Reader σ ε α) : ℕ → Reader σ ε α
  | 0 => deeper
  | n + 1 => step (nested step deeper n)

/-- On inputs shorter than `n` the recursion makes no more than `n` calls inside each other. -/
theorem agreeBelow_nested {step : Reader σ ε α → Reader σ ε α} {e : ε} (h : Guarded step)
    (deeper : Reader σ ε α) : ∀ n, AgreeBelow n (fix step e) (nested step deeper n) := by
  intro n
  induction n with
  | zero =>
    intro b hb
    exact absurd hb (Nat.not_lt_zero _)
  | succ n ih =>
    rw [fix_eq h, nested]
    exact h.agree n _ _ (fix_consumes h) ih

/-- **The depth of a recursion**: whatever stands below one call more than the input has symbols,
the result is the same. -/
theorem nested_eq_fix {step : Reader σ ε α → Reader σ ε α} {e : ε} (h : Guarded step)
    (deeper : Reader σ ε α) (b : List σ) : nested step deeper (b.length + 1) b = fix step e b :=
  (agreeBelow_nested h deeper (b.length + 1) b (Nat.lt_succ_self _)).symm

/-! ## 3. Loops

The loop is a relation, so that nothing about its definition bounds the rounds: a loop that does
not end has no result.  `loops_exists` finds a result by induction on the length of the input,
and `Loops.le` counts the rounds that were made. -/

/-- `while cond { acc = body(acc)? }` makes `n` rounds and ends with `result`. -/
inductive Loops (cond : β → List σ → Prop) (body : β → Reader σ ε β) :
    ℕ → β → List σ → Except ε (β × List σ) → Prop where
  /-- The condition does not hold. -/
  | stop {acc : β} {b : List σ} : ¬ cond acc b → Loops cond body 0 acc b (.ok (acc, b))
  /-- The last round fails. -/
  | fail {acc : β} {b : List σ} {e : ε} :
      cond acc b → body acc b = .error e → Loops cond body 1 acc b (.error e)
  /-- One round, and the others. -/
  | next {acc acc' : β} {b b' : List σ} {n : ℕ} {result : Except ε (β × List σ)} :
      cond acc b → body acc b = .ok (acc', b') → Loops cond body n acc' b' result →
        Loops cond body (n + 1) acc b result

variable {cond : β → List σ → Prop} {body : β → Reader σ ε β}

/-- A loop ends in one way. -/
theorem Loops.unique {n m : ℕ} {acc : β} {b : List σ} {result result' : Except ε (β × List σ)}
    (h : Loops cond body n acc b result) (h' : Loops cond body m acc b result') :
    n = m ∧ result = result' := by
  induction h generalizing m result' with
  | stop hc =>
    cases h' with
    | stop _ => exact ⟨rfl, rfl⟩
    | fail hc' _ => exact absurd hc' hc
    | next hc' _ _ => exact absurd hc' hc
  | fail hc hbody =>
    cases h' with
    | stop hc' => exact absurd hc hc'
    | fail _ hbody' =>
      obtain rfl := Except.error.inj (hbody.symm.trans hbody')
      exact ⟨rfl, rfl⟩
    | next _ hbody' _ => exact absurd (hbody.symm.trans hbody') (by simp)
  | next hc hbody hloops ih =>
    cases h' with
    | stop hc' => exact absurd hc hc'
    | fail _ hbody' => exact absurd (hbody.symm.trans hbody') (by simp)
    | next _ hbody' hloops' =>
      have hsame := Except.ok.inj (hbody.symm.trans hbody')
      rw [Prod.mk.injEq] at hsame
      obtain ⟨rfl, rfl⟩ := hsame
      obtain ⟨rfl, rfl⟩ := ih hloops'
      exact ⟨rfl, rfl⟩

/-- **The number of rounds** of a loop whose rounds use a symbol each: only a round that starts at
the end of the input is not paid for by a symbol. -/
theorem Loops.le (h : ∀ acc, (body acc).Consumes 1) {n : ℕ} {acc : β} {b : List σ}
    {result : Except ε (β × List σ)} (hloops : Loops cond body n acc b result) :
    n ≤ b.length + 1 ∧ ((∀ acc, ¬ cond acc []) → n ≤ b.length) := by
  induction hloops with
  | stop _ => exact ⟨by omega, fun _ => by omega⟩
  | @fail acc b e hc _ =>
    refine ⟨by omega, fun hend => ?_⟩
    cases b with
    | nil => exact absurd hc (hend acc)
    | cons x b => simp
  | @next acc acc' b b' n result _ hbody _ ih =>
    have hlen := (h acc b acc' b' hbody).2
    exact ⟨by omega, fun hend => by have := ih.2 hend; omega⟩

/-- **A loop ends** when its rounds use a symbol each. -/
theorem loops_exists (h : ∀ acc, (body acc).Consumes 1) (acc : β) (b : List σ) :
    ∃ n result, Loops cond body n acc b result := by
  induction hn : b.length using Nat.strongRecOn generalizing acc b with
  | ind len ih =>
    by_cases hc : cond acc b
    · cases hbody : body acc b with
      | error e => exact ⟨1, _, .fail hc hbody⟩
      | ok p =>
        have hlen := (h acc b p.1 p.2 hbody).2
        obtain ⟨n, result, hloops⟩ := ih p.2.length (by omega) p.1 p.2 rfl
        exact ⟨n + 1, result, .next hc hbody hloops⟩
    · exact ⟨0, _, .stop hc⟩

/-- What `untilEmpty` returns is what its loop ends with. -/
theorem untilEmpty_loops {e : ε} (h : ∀ acc, (body acc).Consumes 1) (acc : β) (b : List σ) :
    ∃ n, Loops (fun _ b => b ≠ []) body n acc b (untilEmpty body e acc b) := by
  obtain ⟨n, result, hloops⟩ : ∃ n result, Loops (fun _ b => b ≠ []) body n acc b result :=
    loops_exists h acc b
  refine ⟨n, ?_⟩
  suffices heq : untilEmpty body e acc b = result from heq ▸ hloops
  induction hloops with
  | stop hc =>
    obtain rfl : _ = [] := not_not.mp hc
    rw [untilEmpty_eq h]
    rfl
  | fail hc hbody => rw [untilEmpty_eq h, if_neg (by simpa using hc), bind_apply, hbody]
  | next hc hbody _ ih => rw [untilEmpty_eq h, if_neg (by simpa using hc), bind_of_ok hbody, ih]

/-- A loop to the end of the input that succeeds is at the end of the input. -/
theorem Loops.rest_eq_nil {n : ℕ} {acc out : β} {b rest : List σ}
    (h : Loops (fun _ b => b ≠ []) body n acc b (.ok (out, rest))) : rest = [] := by
  generalize hres : (Except.ok (out, rest) : Except ε (β × List σ)) = result at h
  induction h with
  | stop hc =>
    simp only [Except.ok.injEq, Prod.mk.injEq] at hres
    rw [hres.2]
    exact not_not.mp hc
  | fail _ _ => exact absurd hres (by simp)
  | next _ _ _ ih => exact ih hres

end Reader

end Wire
