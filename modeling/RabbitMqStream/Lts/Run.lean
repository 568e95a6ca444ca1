/-
# Runs of a labelled transition system

Concurrent code is modelled by a step function `S → E → Option S`: an event names the task that
moves and what it does, and `none` says that it cannot move that way now.  A run is a list of
events, so "any interleaving" is "any list".

* `run_invariant`: what every step keeps, every run keeps.
* `run_invariant_along`: the same for steps between states that satisfy a side condition, for
  runs that satisfy it all along.
* `run_invariant_steps`: the same for runs all of whose steps meet a condition.
* `along_iff_steps`: the condition on the steps that keeps a property along a run, and no less
  does.
* `run_until`: what the steps of a run keep as long as a certain event does not come.
* `gather`: what all the tasks of a system hold together, and how it changes when one of them
  moves.
* `look`: what each task of a system holds, by its number.
* `Justified`: a record in which everything is justified by what stands before it.

**How it is used.**  A property of all runs is proved by what one step keeps; the induction on the
run is made here, once for each way in which a condition can come in: on the states that are
passed, on the steps that are made, or not at all.  `gather` turns the tasks of a system into one
collection, so that "each exactly once, wherever it is" is an equation of multisets, and a step of
one task changes it by what that task holds before and after.
-/
import Mathlib.Algebra.BigOperators.Group.List.Basic
import Mathlib.Algebra.Order.Group.Multiset
import Mathlib.Data.List.Basic
import Mathlib.Logic.Function.Basic

namespace Lts

variable {S E : Type} {step : S → E → Option S}

/-- Take the events one after the other. -/
def run (step : S → E → Option S) : S → List E → Option S
  | s, [] => some s
  | s, e :: es => (step s e).bind fun s' => run step s' es

theorem run_nil {s t : S} : run step s [] = some t ↔ s = t := by
  rw [run, Option.some.injEq]

theorem run_cons {s t : S} {e : E} {es : List E} :
    run step s (e :: es) = some t ↔ ∃ s', step s e = some s' ∧ run step s' es = some t := by
  rw [run, Option.bind_eq_some_iff]

/-- A run goes on where another one has ended. -/
theorem run_append {s : S} (es es' : List E) :
    run step s (es ++ es') = (run step s es).bind fun t => run step t es' := by
  induction es generalizing s with
  | nil => rfl
  | cons e es ih =>
    rw [List.cons_append, run, run, Option.bind_assoc]
    exact congrArg _ (funext fun _ => ih)

/-- The condition holds in every state the run passes, its first and its last included. -/
def Along (step : S → E → Option S) (G : S → Prop) : S → List E → Prop
  | s, [] => G s
  | s, e :: es => G s ∧ ∀ s', step s e = some s' → Along step G s' es

theorem Along.head {G : S → Prop} : ∀ {es : List E} {s : S}, Along step G s es → G s
  | [], _, h => h
  | _ :: _, _, h => h.1

theorem Along.last {G : S → Prop} : ∀ {es : List E} {s t : S}, Along step G s es →
    run step s es = some t → G t := by
  intro es
  induction es with
  | nil =>
    intro s t hG h
    obtain rfl := run_nil.mp h
    exact hG
  | cons e es ih =>
    intro s t hG h
    obtain ⟨s', he, h⟩ := run_cons.mp h
    exact ih (hG.2 s' he) h

/-- Whether a condition holds along a run can be found out by making the run. -/
instance decidableAlong {G : S → Prop} [DecidablePred G] :
    ∀ (s : S) (es : List E), Decidable (Along step G s es)
  | s, [] => inferInstanceAs (Decidable (G s))
  | s, e :: es =>
    match h : step s e with
    | none => decidable_of_iff (G s) ⟨fun hG => ⟨hG, by simp [h]⟩, fun hA => hA.1⟩
    | some s' =>
      have : Decidable (Along step G s' es) := decidableAlong s' es
      decidable_of_iff (G s ∧ Along step G s' es)
        ⟨fun hA => ⟨hA.1, by simpa [h] using hA.2⟩, fun hA => ⟨hA.1, hA.2 s' h⟩⟩

/-- **What every step keeps, every run keeps.** -/
theorem run_invariant {P : S → Prop} (hstep : ∀ s e s', P s → step s e = some s' → P s') :
    ∀ {es : List E} {s t : S}, P s → run step s es = some t → P t := by
  intro es
  induction es with
  | nil =>
    intro s t hs h
    obtain rfl := run_nil.mp h
    exact hs
  | cons e es ih =>
    intro s t hs h
    obtain ⟨s', he, h⟩ := run_cons.mp h
    exact ih (hstep s e s' hs he) h

/-- A run that satisfies `G` all along keeps what the steps between such states keep. -/
theorem run_invariant_along {G P : S → Prop}
    (hstep : ∀ s e s', G s → G s' → P s → step s e = some s' → P s') :
    ∀ {es : List E} {s t : S}, Along step G s es → P s → run step s es = some t → P t := by
  intro es
  induction es with
  | nil =>
    intro s t _ hs h
    obtain rfl := run_nil.mp h
    exact hs
  | cons e es ih =>
    intro s t hG hs h
    obtain ⟨s', he, h⟩ := run_cons.mp h
    have hG' := hG.2 s' he
    exact ih hG' (hstep s e s' hG.1 hG'.head hs he) h

/-- What holds all along a run implies, with an invariant of the run, what holds all along it. -/
theorem Along.imp_invariant {G H P : S → Prop}
    (hstep : ∀ s e s', G s → G s' → P s → step s e = some s' → P s')
    (himp : ∀ s, G s → P s → H s) :
    ∀ {es : List E} {s : S}, Along step G s es → P s → Along step H s es := by
  intro es
  induction es with
  | nil =>
    intro s hG hs
    exact himp s hG hs
  | cons e es ih =>
    intro s hG hs
    refine ⟨himp s hG.1 hs, fun s' he => ?_⟩
    have hG' := hG.2 s' he
    exact ih hG' (hstep s e s' hG.1 hG'.head hs he)

/-- Every step of the run meets the condition, in the state it is taken from. -/
def Steps (step : S → E → Option S) (C : S → E → Prop) : S → List E → Prop
  | _, [] => True
  | s, e :: es => C s e ∧ ∀ s', step s e = some s' → Steps step C s' es

/-- Whether the steps of a run meet a condition can be found out by making the run. -/
instance decidableSteps {C : S → E → Prop} [∀ s e, Decidable (C s e)] :
    ∀ (s : S) (es : List E), Decidable (Steps step C s es)
  | _, [] => inferInstanceAs (Decidable True)
  | s, e :: es =>
    match h : step s e with
    | none => decidable_of_iff (C s e) ⟨fun hC => ⟨hC, by simp [h]⟩, fun hS => hS.1⟩
    | some s' =>
      have : Decidable (Steps step C s' es) := decidableSteps s' es
      decidable_of_iff (C s e ∧ Steps step C s' es)
        ⟨fun hS => ⟨hS.1, by simpa [h] using hS.2⟩, fun hS => ⟨hS.1, hS.2 s' h⟩⟩

/-- A run whose steps meet `C` keeps what every such step keeps. -/
theorem run_invariant_steps {C : S → E → Prop} {P : S → Prop}
    (hstep : ∀ s e s', C s e → P s → step s e = some s' → P s') :
    ∀ {es : List E} {s t : S}, Steps step C s es → P s → run step s es = some t → P t := by
  intro es
  induction es with
  | nil =>
    intro s t _ hs h
    obtain rfl := run_nil.mp h
    exact hs
  | cons e es ih =>
    intro s t hC hs h
    obtain ⟨s', he, h⟩ := run_cons.mp h
    exact ih (hC.2 s' he) (hstep s e s' hC.1 hs he) h

/-- If, where `I` holds, the steps that keep `G` are those that meet `C`, then `G` holds along a
run exactly when all its steps meet `C`. -/
theorem along_iff_steps {C : S → E → Prop} {G I : S → Prop}
    (hI : ∀ s e s', I s → step s e = some s' → I s')
    (hG : ∀ s e s', I s → G s → step s e = some s' → (G s' ↔ C s e)) :
    ∀ {es : List E} {s t : S}, I s → G s → run step s es = some t →
      (Along step G s es ↔ Steps step C s es) := by
  intro es
  induction es with
  | nil =>
    intro s t _ hs _
    exact ⟨fun _ => trivial, fun _ => hs⟩
  | cons e es ih =>
    intro s t hi hs h
    obtain ⟨s', he, h⟩ := run_cons.mp h
    have hsame : ∀ u, step s e = some u → u = s' := by
      intro u hu
      rw [he, Option.some.injEq] at hu
      exact hu.symm
    constructor
    · rintro ⟨-, halong⟩
      have hs' := (halong s' he).head
      refine ⟨(hG s e s' hi hs he).mp hs', fun u hu => ?_⟩
      obtain rfl := hsame u hu
      exact (ih (hI s e u hi he) hs' h).mp (halong u he)
    · rintro ⟨hC, hsteps⟩
      refine ⟨hs, fun u hu => ?_⟩
      obtain rfl := hsame u hu
      exact (ih (hI s e u hi he) ((hG s e u hi hs he).mpr hC) h).mpr (hsteps u he)

/-- What every step that meets `C` keeps holds all along a run whose steps meet it. -/
theorem Along.of_steps {C : S → E → Prop} {P G : S → Prop}
    (hstep : ∀ s e s', C s e → P s → step s e = some s' → P s') (hPG : ∀ s, P s → G s) :
    ∀ {es : List E} {s : S}, P s → Steps step C s es → Along step G s es := by
  intro es
  induction es with
  | nil =>
    intro s hs _
    exact hPG s hs
  | cons e es ih =>
    intro s hs hC
    exact ⟨hPG s hs, fun s' he => ih (hstep s e s' hC.1 hs he) (hC.2 s' he)⟩

/-- Where one condition on the steps entails another, the runs that meet it meet the other. -/
theorem Steps.mono {C D : S → E → Prop} {P : S → Prop}
    (hstep : ∀ s e s', C s e → P s → step s e = some s' → P s')
    (hCD : ∀ s e, P s → C s e → D s e) :
    ∀ {es : List E} {s : S}, P s → Steps step C s es → Steps step D s es := by
  intro es
  induction es with
  | nil =>
    intro s _ _
    trivial
  | cons e es ih =>
    intro s hs hC
    exact ⟨hCD s e hs hC.1, fun s' he => ih (hstep s e s' hC.1 hs he) (hC.2 s' he)⟩

/-- Conditions that say the same in the states that a run passes. -/
theorem steps_congr {C D : S → E → Prop} {P : S → Prop}
    (hstep : ∀ s e s', C s e → P s → step s e = some s' → P s')
    (hCD : ∀ s e, P s → (C s e ↔ D s e)) {es : List E} {s : S} (hs : P s) :
    Steps step C s es ↔ Steps step D s es :=
  ⟨Steps.mono hstep (fun s e hs => (hCD s e hs).mp) hs,
    Steps.mono (fun s e s' hD hs => hstep s e s' ((hCD s e hs).mpr hD) hs)
      (fun s e hs => (hCD s e hs).mpr) hs⟩

/-- Until the event `stop` comes, a run keeps what every other step keeps, and it contains only
events that are possible then. -/
theorem run_until {P : S → Prop} {Q : E → Prop} {stop : E}
    (hstep : ∀ s e s', P s → e ≠ stop → step s e = some s' → P s' ∧ Q e) :
    ∀ {es : List E} {s t : S}, P s → stop ∉ es → run step s es = some t →
      P t ∧ ∀ e ∈ es, Q e := by
  intro es
  induction es with
  | nil =>
    intro s t hs _ h
    obtain rfl := run_nil.mp h
    exact ⟨hs, by simp⟩
  | cons e es ih =>
    intro s t hs hstop h
    obtain ⟨s', he, h⟩ := run_cons.mp h
    rw [List.mem_cons, not_or] at hstop
    obtain ⟨hs', hq⟩ := hstep s e s' hs (Ne.symm hstop.1) he
    obtain ⟨ht, hes⟩ := ih hs' hstop.2 h
    exact ⟨ht, List.forall_mem_cons.mpr ⟨hq, hes⟩⟩

/-! The tasks of a system, by their numbers. -/

section Tasks

variable {T : Type} {tasks : List T} {t u : ℕ} {τ τ' υ : T}

/-- The tasks that are there stay where they are when another one is begun. -/
theorem getElem?_snoc (h : tasks[t]? = some τ) : (tasks ++ [τ'])[t]? = some τ := by
  rw [List.getElem?_append_left (List.getElem?_eq_some_iff.mp h).1, h]

/-- After a task has been begun, a task is one of those before or the new one. -/
theorem getElem?_of_snoc (h : (tasks ++ [τ'])[t]? = some τ) :
    tasks[t]? = some τ ∨ t = tasks.length ∧ τ = τ' := by
  by_cases hlt : t < tasks.length
  · rw [List.getElem?_append_left hlt] at h
    exact Or.inl h
  · rw [List.getElem?_append_right (by omega), List.getElem?_singleton] at h
    split at h
    · rw [Option.some.injEq] at h
      exact Or.inr ⟨by omega, h.symm⟩
    · exact absurd h (by simp)

/-- A task that moves is where it was. -/
theorem getElem?_set_moved (h : tasks[t]? = some τ) : (tasks.set t τ')[t]? = some τ' :=
  List.getElem?_set_self (List.getElem?_eq_some_iff.mp h).1

/-- After a task has moved, a task is the one that has moved or one that was there before. -/
theorem getElem?_of_set (h : (tasks.set t τ')[u]? = some υ) :
    u = t ∧ υ = τ' ∨ t ≠ u ∧ tasks[u]? = some υ := by
  by_cases htu : t = u
  · subst htu
    have hlt := (List.getElem?_eq_some_iff.mp h).1
    rw [List.length_set] at hlt
    rw [List.getElem?_set_self hlt, Option.some.injEq] at h
    exact Or.inl ⟨rfl, h.symm⟩
  · rw [List.getElem?_set_ne htu] at h
    exact Or.inr ⟨htu, h⟩

end Tasks

/-! What the tasks of a system hold. -/

section Gather

variable {T α : Type} (f : T → Multiset α)

/-- Everything that `f` finds in the tasks. -/
def gather (tasks : List T) : Multiset α := (tasks.map f).sum

@[simp] theorem gather_nil : gather f [] = 0 := rfl

@[simp] theorem gather_cons (τ : T) (tasks : List T) :
    gather f (τ :: tasks) = f τ + gather f tasks := by
  rw [gather, List.map_cons, List.sum_cons, gather]

/-- Tasks are begun. -/
theorem gather_append (tasks new : List T) :
    gather f (tasks ++ new) = gather f tasks + gather f new := by
  rw [gather, List.map_append, List.sum_append, gather, gather]

/-- A task is begun. -/
@[simp] theorem gather_snoc (tasks : List T) (τ : T) :
    gather f (tasks ++ [τ]) = gather f tasks + f τ := by
  rw [gather_append, gather_cons, gather_nil, add_zero]

/-- What all the others hold is the same whatever one task does. -/
theorem gather_split {tasks : List T} {t : ℕ} {τ : T} (h : tasks[t]? = some τ) :
    ∃ others, gather f tasks = f τ + others ∧
      ∀ τ', gather f (tasks.set t τ') = f τ' + others := by
  induction tasks generalizing t with
  | nil => exact absurd h (by simp)
  | cons x tasks ih =>
    cases t with
    | zero =>
      rw [List.getElem?_cons_zero, Option.some.injEq] at h
      refine ⟨gather f tasks, by rw [gather_cons, h], fun τ' => ?_⟩
      rw [List.set_cons_zero, gather_cons]
    | succ t =>
      rw [List.getElem?_cons_succ] at h
      obtain ⟨others, hall, hset⟩ := ih h
      refine ⟨f x + others, ?_, fun τ' => ?_⟩
      · rw [gather_cons, hall]
        ac_rfl
      · rw [List.set_cons_succ, gather_cons, hset τ']
        ac_rfl

/-- A task moves: what it held is given back and what it holds now is taken. -/
theorem gather_set {tasks : List T} {t : ℕ} {τ : T} (τ' : T) (h : tasks[t]? = some τ) :
    gather f (tasks.set t τ') + f τ = gather f tasks + f τ' := by
  obtain ⟨others, hall, hset⟩ := gather_split f h
  rw [hall, hset τ']
  ac_rfl

/-- How many things the tasks hold after one has moved. -/
theorem card_gather_set {tasks : List T} {t : ℕ} {τ : T} (τ' : T) (h : tasks[t]? = some τ) :
    (gather f (tasks.set t τ')).card + (f τ).card = (gather f tasks).card + (f τ').card := by
  rw [← Multiset.card_add, gather_set f τ' h, Multiset.card_add]

theorem mem_gather {x : α} : ∀ {tasks : List T}, x ∈ gather f tasks ↔ ∃ τ ∈ tasks, x ∈ f τ := by
  intro tasks
  induction tasks with
  | nil => simp
  | cons τ tasks ih =>
    rw [gather_cons, Multiset.mem_add, ih]
    simp

/-- The tasks hold nothing together when none of them does. -/
theorem gather_eq_zero_iff {tasks : List T} : gather f tasks = 0 ↔ ∀ τ ∈ tasks, f τ = 0 := by
  constructor
  · intro h τ hτ
    refine Multiset.eq_zero_of_forall_notMem fun x hx => ?_
    have hmem := (mem_gather f).mpr ⟨τ, hτ, hx⟩
    rw [h] at hmem
    exact Multiset.notMem_zero x hmem
  · intro h
    refine Multiset.eq_zero_of_forall_notMem fun x hx => ?_
    obtain ⟨τ, hτ, hx⟩ := (mem_gather f).mp hx
    rw [h τ hτ] at hx
    exact Multiset.notMem_zero x hx

/-- A task that holds no more than before adds nothing. -/
theorem gather_set_le {tasks : List T} {t : ℕ} {τ τ' : T}
    (h : tasks[t]? = some τ) (hf : f τ' ≤ f τ) : gather f (tasks.set t τ') ≤ gather f tasks := by
  obtain ⟨others, hall, hset⟩ := gather_split f h
  rw [hall, hset τ']
  exact add_le_add_left hf others

variable {f} in
/-- Only one task holds anything. -/
theorem gather_eq_single {tasks : List T} {t : ℕ} {τ : T} (h : tasks[t]? = some τ)
    (hothers : ∀ u υ, tasks[u]? = some υ → u ≠ t → f υ = 0) : gather f tasks = f τ := by
  induction tasks generalizing t with
  | nil => exact absurd h (by simp)
  | cons x tasks ih =>
    cases t with
    | zero =>
      rw [List.getElem?_cons_zero, Option.some.injEq] at h
      have hrest : gather f tasks = 0 := by
        refine (gather_eq_zero_iff f).mpr fun υ hυ => ?_
        obtain ⟨u, hu⟩ := List.mem_iff_getElem?.mp hυ
        exact hothers (u + 1) υ hu (by simp)
      rw [gather_cons, hrest, h, add_zero]
    | succ t =>
      rw [List.getElem?_cons_succ] at h
      rw [gather_cons, hothers 0 x rfl (by simp), zero_add]
      exact ih h fun u υ hu hne => hothers (u + 1) υ hu (by simpa using hne)

/-- A task that holds what it held before changes nothing. -/
theorem gather_set_eq {tasks : List T} {t : ℕ} {τ τ' : T} (h : tasks[t]? = some τ)
    (hf : f τ' = f τ) : gather f (tasks.set t τ') = gather f tasks := by
  have hset := gather_set f τ' h
  rw [hf] at hset
  exact add_right_cancel hset

/-- A task takes one thing more. -/
theorem gather_set_take {tasks : List T} {t : ℕ} {τ τ' : T} {x : α} (h : tasks[t]? = some τ)
    (hf : f τ' = x ::ₘ f τ) : gather f (tasks.set t τ') = x ::ₘ gather f tasks := by
  have hset := gather_set f τ' h
  rw [hf, Multiset.add_cons, ← Multiset.cons_add] at hset
  exact add_right_cancel hset

/-- A task gives one thing back. -/
theorem gather_set_give {tasks : List T} {t : ℕ} {τ τ' : T} {x : α} (h : tasks[t]? = some τ)
    (hf : f τ = x ::ₘ f τ') : gather f tasks = x ::ₘ gather f (tasks.set t τ') := by
  have hset := gather_set f τ' h
  rw [hf, Multiset.add_cons, ← Multiset.cons_add] at hset
  exact (add_right_cancel hset).symm

variable {f} in
/-- What the tasks hold after one has moved was there before or is held by that task now. -/
theorem mem_gather_set {tasks : List T} {t : ℕ} {τ τ' : T} {x : α} (ht : tasks[t]? = some τ)
    (hx : x ∈ gather f (tasks.set t τ')) : x ∈ gather f tasks ∨ x ∈ f τ' := by
  have hmem : x ∈ gather f (tasks.set t τ') + f τ := Multiset.mem_add.mpr (Or.inl hx)
  rw [gather_set f τ' ht] at hmem
  exact Multiset.mem_add.mp hmem

theorem mem_gather_of_getElem? {tasks : List T} {t : ℕ} {τ : T} {x : α}
    (ht : tasks[t]? = some τ) (hx : x ∈ f τ) : x ∈ gather f tasks :=
  (mem_gather f).mpr ⟨τ, List.mem_of_getElem? ht, hx⟩

end Gather

section Look

variable {T α : Type} (f : T → α) (d : α)

/-- What `f` finds in each task, and `d` where there is none. -/
def look (tasks : List T) (t : ℕ) : α := (tasks[t]?).elim d f

variable {f d} in
theorem look_of_getElem? {tasks : List T} {t : ℕ} {τ : T} (h : tasks[t]? = some τ) :
    look f d tasks t = f τ := by
  rw [look, h, Option.elim_some]

/-- A task moves. -/
theorem look_set {tasks : List T} {t : ℕ} {τ : T} (τ' : T) (h : tasks[t]? = some τ) :
    look f d (tasks.set t τ') = Function.update (look f d tasks) t (f τ') := by
  have hlt := (List.getElem?_eq_some_iff.mp h).1
  funext u
  by_cases hut : u = t
  · rw [hut, Function.update_self, look, List.getElem?_set_self hlt, Option.elim_some]
  · rw [Function.update_of_ne hut, look, List.getElem?_set_ne (Ne.symm hut), look]

/-- A task in which `f` finds what it found before changes nothing. -/
theorem look_set_eq {tasks : List T} {t : ℕ} {τ τ' : T} (h : tasks[t]? = some τ)
    (hf : f τ' = f τ) : look f d (tasks.set t τ') = look f d tasks := by
  have hlook : look f d tasks t = f τ := look_of_getElem? h
  rw [look_set f d τ' h, hf, ← hlook, Function.update_eq_self]

/-- A task is begun in which `f` finds nothing. -/
theorem look_snoc {tasks : List T} {τ : T} (hf : f τ = d) :
    look f d (tasks ++ [τ]) = look f d tasks := by
  funext u
  rw [look, look, List.getElem?_append]
  split
  · rfl
  · rename_i hlt
    rw [List.getElem?_eq_none (Nat.le_of_not_lt hlt), List.getElem?_singleton]
    split
    · exact hf
    · rfl

end Look

section Justified

variable {O : Type} (ok : List O → O → Prop)

/-- Everything that has happened was all right after what had happened before. -/
def Justified (trace : List O) : Prop := ∀ pre o post, trace = pre ++ o :: post → ok pre o

theorem justified_nil : Justified ok [] := by
  intro pre o post h
  exact absurd h (by simp)

variable {ok} in
/-- One more thing happens. -/
theorem Justified.snoc {trace : List O} (h : Justified ok trace) {o : O} (ho : ok trace o) :
    Justified ok (trace ++ [o]) := by
  intro pre x post heq
  rcases List.eq_nil_or_concat post with rfl | ⟨post, y, rfl⟩
  · obtain ⟨rfl, hx⟩ := List.append_inj' heq rfl
    cases hx
    exact ho
  · rw [List.concat_eq_append, ← List.cons_append, ← List.append_assoc] at heq
    exact h pre x post (List.append_inj' heq rfl).1

end Justified

end Lts
