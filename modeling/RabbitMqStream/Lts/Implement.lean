/-
# Operations that are programs

What a function takes as given, another function does: the operations of one level are programs of
the next.  `implement` puts these programs in the place of the operations, so a function that was
written over operations runs over the operations below.  An operation may go on for longer than one
cares to wait, as a loop does; then it says `none`, and so does the whole.

* `implement_bind`: a program is implemented line by line.
* `comes_bind`, `comes_ask`: what holds of all runs of an implemented program, from what holds of
  the program of each operation.  `yields` is about the runs that come to a value.
* `runs_implement`: a run below is a run above, in the surroundings that the implementation makes.

**The argument.**  Everything is an induction on the program above.  An operation is answered by a
run of its own program, and what is asked below in the course of it is kept in one trace.  The
surroundings that an implementation makes (`made`) relate two worlds when some run of the
operation's program leads from one to the other with that answer; with them, a run below is cut at
the ends of the operations into a run above.
-/
import RabbitMqStream.Lts.Program

namespace Lts.Program

variable {Op Op' : Type} {Ans : Op → Type} {Ans' : Op' → Type} {σ α β γ W V : Type}

theorem bind_assoc (p : Program Op Ans α) (f : α → Program Op Ans β) (g : β → Program Op Ans γ) :
    p >>= f >>= g = p >>= fun x => f x >>= g := by
  change (p.bind f).bind g = p.bind fun x => (f x).bind g
  induction p with
  | ret x => rfl
  | panic => rfl
  | call op k ih => exact congrArg (Program.call op) (funext fun a => ih a)

/-! ## 1. Implementations

The operations share a state, as the methods of one object do.  An operation that is still going
on makes the whole go on, whatever was to follow it. -/

/-- A program for each operation, with a state that the operations share.  `none` says that the
operation is still going on. -/
abbrev Implementation (Ans : Op → Type) (Ans' : Op' → Type) (σ : Type) : Type :=
  (op : Op) → σ → Program Op' Ans' (Option (Ans op × σ))

/-- Go on, unless the step is still going on. -/
def onward (f : α → σ → Program Op' Ans' (Option β)) : Option (α × σ) → Program Op' Ans' (Option β)
  | some (x, s) => f x s
  | none => pure none

/-- The program, with programs in the place of its operations. -/
def implement (impl : Implementation Ans Ans' σ) :
    Program Op Ans α → σ → Program Op' Ans' (Option (α × σ))
  | .ret x, s => pure (some (x, s))
  | .panic, _ => .panic
  | .call op k, s => impl op s >>= onward fun a s' => implement impl (k a) s'

variable {impl : Implementation Ans Ans' σ}

/-- **A program is implemented line by line.** -/
theorem implement_bind (p : Program Op Ans α) (f : α → Program Op Ans β) (s : σ) :
    implement impl (p >>= f) s =
      implement impl p s >>= onward fun x s' => implement impl (f x) s' := by
  change implement impl (p.bind f) s = _
  induction p generalizing s with
  | ret x => rfl
  | panic => rfl
  | call op k ih =>
    change impl op s >>= onward (fun a s' => implement impl ((k a).bind f) s') =
      (impl op s >>= onward fun a s' => implement impl (k a) s') >>= _
    rw [bind_assoc]
    congr 1
    funext r
    rcases r with _ | ⟨a, s'⟩
    · rfl
    · exact ih a s'

/-! ## 2. What holds of all runs

The same three conditions as for programs that return early, with `Still` in the place of an
error.  A specification of each operation, by itself, is enough for the program that uses them. -/

/-- A condition on values, one on going on and one on panics, as a condition on outcomes. -/
def outcome (Ok : List (Event Ans') → α → σ → W → Prop)
    (Still Panics : List (Event Ans') → W → Prop) :
    List (Event Ans') → Outcome (Option (α × σ)) → W → Prop
  | trace, .returned (some x), w => Ok trace x.1 x.2 w
  | trace, .returned none, w => Still trace w
  | trace, .panicked, w => Panics trace w

/-- Every run comes to a value that satisfies `Ok`, or goes on and satisfies `Still`, or panics and
satisfies `Panics`. -/
def comes (env : Surroundings W Ans') (x : Program Op' Ans' (Option (α × σ))) (w : W)
    (Ok : List (Event Ans') → α → σ → W → Prop) (Still Panics : List (Event Ans') → W → Prop) :
    Prop := wp env x w (outcome Ok Still Panics)

section Rules

variable {env : Surroundings W Ans'} {w : W} {Ok Ok' : List (Event Ans') → α → σ → W → Prop}
  {Still Still' Panics Panics' : List (Event Ans') → W → Prop}

theorem comes_iff {x : Program Op' Ans' (Option (α × σ))} :
    comes env x w Ok Still Panics ↔ ∀ trace out w', Runs env x w trace out w' →
      (∃ a s, out = .returned (some (a, s)) ∧ Ok trace a s w') ∨
        (out = .returned none ∧ Still trace w') ∨ out = .panicked ∧ Panics trace w' := by
  rw [comes, wp_iff]
  refine forall_congr' fun trace => forall_congr' fun out => forall_congr' fun w' =>
    forall_congr' fun _ => ?_
  rcases out with (_ | ⟨a, s⟩) | _
  · simp [outcome]
  · simp [outcome, and_assoc]
  · simp [outcome]

@[simp] theorem comes_pure {a : α} {s : σ} :
    comes env (implement impl (pure a) s) w Ok Still Panics ↔ Ok [] a s w := Iff.rfl

/-- **The rule of consequence.** -/
theorem comes_mono {x : Program Op' Ans' (Option (α × σ))}
    (hOk : ∀ trace a s w', Ok trace a s w' → Ok' trace a s w')
    (hStill : ∀ trace w', Still trace w' → Still' trace w')
    (hPanics : ∀ trace w', Panics trace w' → Panics' trace w')
    (h : comes env x w Ok Still Panics) : comes env x w Ok' Still' Panics' := by
  refine wp_mono ?_ h
  rintro trace ((_ | ⟨a, s⟩) | _) w' hout
  · exact hStill trace w' hout
  · exact hOk trace a s w' hout
  · exact hPanics trace w' hout

/-- A program that comes to no panic. -/
theorem not_panicked {x : Program Op' Ans' (Option (α × σ))} {trace : List (Event Ans')} {w' : W}
    (h : comes env x w Ok Still fun _ _ => False) : ¬ Runs env x w trace .panicked w' := by
  intro hruns
  rcases comes_iff.mp h _ _ _ hruns with ⟨a, s, hout, -⟩ | ⟨hout, -⟩ | ⟨-, hfalse⟩
  · cases hout
  · cases hout
  · exact hfalse

theorem comes_onward {x : Program Op' Ans' (Option (α × σ))}
    {f : α → σ → Program Op' Ans' (Option (β × σ))} {Ok : List (Event Ans') → β → σ → W → Prop} :
    comes env (x >>= onward f) w Ok Still Panics ↔ comes env x w
      (fun trace a s w' => comes env (f a s) w' (fun trace' => Ok (trace ++ trace'))
        (fun trace' => Still (trace ++ trace')) fun trace' => Panics (trace ++ trace'))
      Still Panics := by
  rw [comes, wp_bind, comes]
  refine iff_of_eq (congrArg _ ?_)
  funext trace out w'
  rcases out with (_ | ⟨a, s⟩) | _
  · change outcome Ok Still Panics (trace ++ []) (.returned none) w' = _
    rw [List.append_nil]
    rfl
  · change wp env (f a s) w' _ = wp env (f a s) w' _
    refine congrArg _ ?_
    funext trace' out w''
    rcases out with (_ | ⟨b, s'⟩) | _ <;> rfl
  · rfl

/-- **A line and what follows it.** -/
theorem comes_bind {p : Program Op Ans α} {f : α → Program Op Ans β} {s : σ}
    {Ok : List (Event Ans') → β → σ → W → Prop} :
    comes env (implement impl (p >>= f) s) w Ok Still Panics ↔ comes env (implement impl p s) w
      (fun trace a s' w' => comes env (implement impl (f a) s') w'
        (fun trace' => Ok (trace ++ trace')) (fun trace' => Still (trace ++ trace'))
        fun trace' => Panics (trace ++ trace'))
      Still Panics := by
  rw [implement_bind, comes_onward]

/-- **An operation and what follows it.** -/
theorem comes_ask {op : Op} {f : Ans op → Program Op Ans β} {s : σ}
    {Ok : List (Event Ans') → β → σ → W → Prop} :
    comes env (implement impl (ask op >>= f) s) w Ok Still Panics ↔ comes env (impl op s) w
      (fun trace a s' w' => comes env (implement impl (f a) s') w'
        (fun trace' => Ok (trace ++ trace')) (fun trace' => Still (trace ++ trace'))
        fun trace' => Panics (trace ++ trace'))
      Still Panics := comes_onward

/-- What holds of every run that comes to a value. -/
def yields (env : Surroundings W Ans') (x : Program Op' Ans' (Option (α × σ))) (w : W)
    (Ok : List (Event Ans') → α → σ → W → Prop) : Prop :=
  comes env x w Ok (fun _ _ => True) fun _ _ => True

theorem yields_iff {x : Program Op' Ans' (Option (α × σ))} :
    yields env x w Ok ↔ ∀ trace a s w', Runs env x w trace (.returned (some (a, s))) w' →
      Ok trace a s w' := by
  rw [yields, comes_iff]
  constructor
  · intro h trace a s w' hruns
    rcases h trace _ w' hruns with ⟨a', s', hout, hok⟩ | ⟨hout, -⟩ | ⟨hout, -⟩
    · obtain ⟨rfl, rfl⟩ := Prod.mk.inj (Option.some.inj (Outcome.returned.inj hout))
      exact hok
    · cases hout
    · cases hout
  · rintro h trace ((_ | ⟨a, s⟩) | _) w' hruns
    · exact Or.inr (Or.inl ⟨rfl, trivial⟩)
    · exact Or.inl ⟨a, s, rfl, h trace a s w' hruns⟩
    · exact Or.inr (Or.inr ⟨rfl, trivial⟩)

/-- The value that a program comes to, whatever else it may come to. -/
theorem yields_of_comes {x : Program Op' Ans' (Option (α × σ))}
    (hOk : ∀ trace a s w', Ok trace a s w' → Ok' trace a s w')
    (h : comes env x w Ok Still Panics) : yields env x w Ok' :=
  comes_mono hOk (fun _ _ _ => trivial) (fun _ _ _ => trivial) h

theorem yields_bind {p : Program Op Ans α} {f : α → Program Op Ans β} {s : σ}
    {Ok : List (Event Ans') → β → σ → W → Prop} :
    yields env (implement impl (p >>= f) s) w Ok ↔ yields env (implement impl p s) w
      fun trace a s' w' =>
        yields env (implement impl (f a) s') w' fun trace' => Ok (trace ++ trace') := comes_bind

theorem yields_ask {op : Op} {f : Ans op → Program Op Ans β} {s : σ}
    {Ok : List (Event Ans') → β → σ → W → Prop} :
    yields env (implement impl (ask op >>= f) s) w Ok ↔ yields env (impl op s) w
      fun trace a s' w' =>
        yields env (implement impl (f a) s') w' fun trace' => Ok (trace ++ trace') := comes_ask

end Rules

/-! ## 3. Runs above

The other direction: nothing happens below that could not happen above.  It is what carries a
theorem about a function over operations down to the function over what implements them. -/

/-- The surroundings that the implementation makes for the operations above: it gives an answer when
its program does. -/
def made (env : Surroundings W Ans') (impl : Implementation Ans Ans' σ) :
    Surroundings (σ × W) Ans := fun op w a w' =>
  ∃ trace, Runs env (impl op w.1) w.2 trace (.returned (some (a, w'.1))) w'.2

/-- **What runs below runs above**, when no operation panics: it comes to a value exactly as above,
it panics only where the program above does, or one of the operations is still going on. -/
theorem runs_implement {env : Surroundings W Ans'} {p : Program Op Ans α} {s : σ} {w w' : W}
    {trace : List (Event Ans')} {out : Outcome (Option (α × σ))}
    (hnever : ∀ op s w trace w', ¬ Runs env (impl op s) w trace .panicked w')
    (h : Runs env (implement impl p s) w trace out w') :
    out = .returned none ∨
      (∃ x s' above, out = .returned (some (x, s')) ∧
        Runs (made env impl) p (s, w) above (.returned x) (s', w')) ∨
      out = .panicked ∧ ∃ s' above, Runs (made env impl) p (s, w) above .panicked (s', w') := by
  induction p generalizing s w trace with
  | ret x =>
    cases h
    exact Or.inr (Or.inl ⟨x, s, [], rfl, .ret⟩)
  | panic =>
    cases h
    exact Or.inr (Or.inr ⟨rfl, s, [], .panic⟩)
  | call op k ih =>
    rcases runs_bind_iff.mp h with ⟨r, w₁, front, back, rfl, hop, hrest⟩ | ⟨rfl, hop⟩
    · rcases r with _ | ⟨a, s₁⟩
      · cases hrest
        exact Or.inl rfl
      · have hmade : made env impl op (s, w) a (s₁, w₁) := ⟨front, hop⟩
        rcases ih a hrest with hnone | ⟨x, s', above, rfl, hruns⟩ | ⟨rfl, s', above, hruns⟩
        · exact Or.inl hnone
        · exact Or.inr (Or.inl ⟨x, s', _, rfl, .call hmade hruns⟩)
        · exact Or.inr (Or.inr ⟨rfl, s', _, .call hmade hruns⟩)
    · exact absurd hop (hnever op s w trace w')

/-- What the events of a run leave as it is. -/
theorem runs_invariant {env : Surroundings W Ans} {J : W → Prop} {Q : Event Ans → Prop}
    (h : ∀ op w a w', env op w a w' → Q ⟨op, a⟩ → J w → J w') {p : Program Op Ans α} {w w' : W}
    {trace : List (Event Ans)} {out : Outcome α} (hruns : Runs env p w trace out w')
    (hQ : ∀ ev ∈ trace, Q ev) (hJ : J w) : J w' := by
  induction hruns with
  | ret => exact hJ
  | panic => exact hJ
  | call hop _ ih =>
    obtain ⟨hev, hrest⟩ := List.forall_mem_cons.mp hQ
    exact ih hrest (h _ _ _ _ hop hev hJ)

/-- Runs in surroundings that allow more, seen through `f`. -/
theorem Runs.map {env : Surroundings W Ans} {env' : Surroundings V Ans} {f : W → V}
    (h : ∀ op w a w', env op w a w' → env' op (f w) a (f w')) {p : Program Op Ans α} {w w' : W}
    {trace : List (Event Ans)} {out : Outcome α} (hruns : Runs env p w trace out w') :
    Runs env' p (f w) trace out (f w') := by
  induction hruns with
  | ret => exact .ret
  | panic => exact .panic
  | call hop _ ih => exact .call (h _ _ _ _ hop) ih

end Lts.Program
