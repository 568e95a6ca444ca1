/-
# Readers: the parsers that take a value off the front of their input

A reader looks at a list of symbols and either stops with an error or returns a value
together with the input it has not used.  This is the shape of every hand-written binary
decoder that threads `(input, value)` pairs through its calls, and the do-notation of
`StateT` writes such a decoder line for line.

The property everything else rests on is `Reader.Local`: a reader that succeeds has used a
prefix of its input and has looked at nothing behind it.  A local reader cannot be influenced
by what follows its own frame, and its result on a frame is the same in every context.  The
rules below derive it for a composed reader from its parts.

The second property is `Reader.Consumes k`: a success leaves a suffix of the input, shorter by
at least `k`.  It is what makes recursive readers and readers that loop to the end of the
input terminate, so sections 4 and 5 define both by fuel and prove from it that the fuel never
shows: `fix_eq` and `untilEmpty_eq` are the plain recursion equations.

The third is about the runs that do not succeed.  `Reader.Avoids bad` says that no error of a
reader is a `bad` one, and `bind_eq_error` and `loop_eq_error` say where in a composed reader
an error comes from.  Together with locality, a frame that is cut short is refused
(`Local.truncated`).

**Classes.**  Locality, progress and the absence of a kind of error are classes, with instances
for the primitive readers and for composition.  A reader that is put together from others has
these properties by instance search, and a decoder that gets a field more needs no proof more.
-/
import Mathlib.Data.List.Basic

namespace Wire

/-- A reader over the symbols `σ` with errors `ε`. -/
abbrev Reader (σ ε α : Type) : Type := StateT (List σ) (Except ε) α

variable {σ ε α β γ : Type}

namespace Reader

/-! ## 1. Running a composed reader

The equations by which a run is taken apart.  `bind_eq_ok` reads a success backwards, into the
successes of the two parts, and `bind_of_ok` runs forwards from a part whose result is known.
Proofs about a decoder use these two and never unfold the monad. -/

@[simp] theorem pure_apply (x : α) (b : List σ) : (pure x : Reader σ ε α) b = .ok (x, b) := rfl

@[simp] theorem throw_apply (e : ε) (b : List σ) :
    (throw e : Reader σ ε α) b = .error e := rfl

theorem bind_apply (r : Reader σ ε α) (k : α → Reader σ ε β) (b : List σ) :
    (r >>= k) b = match r b with
      | .error e => .error e
      | .ok (x, rest) => k x rest := by
  show Except.bind (r b) _ = _
  cases r b <;> rfl

theorem bind_of_ok {r : Reader σ ε α} {k : α → Reader σ ε β} {b rest : List σ} {x : α}
    (h : r b = .ok (x, rest)) : (r >>= k) b = k x rest := by
  rw [bind_apply, h]

/-- A composed reader succeeds exactly when its two parts do, one after the other. -/
theorem bind_eq_ok {r : Reader σ ε α} {k : α → Reader σ ε β} {b rest : List σ} {y : β} :
    (r >>= k) b = .ok (y, rest) ↔ ∃ x mid, r b = .ok (x, mid) ∧ k x mid = .ok (y, rest) := by
  rw [bind_apply]
  cases h : r b with
  | error e => simp
  | ok p =>
    obtain ⟨x, mid⟩ := p
    simp only [Except.ok.injEq, Prod.mk.injEq]
    constructor
    · intro hk; exact ⟨x, mid, ⟨rfl, rfl⟩, hk⟩
    · rintro ⟨x', mid', ⟨rfl, rfl⟩, hk⟩; exact hk

/-- `for _ in 0..n`: run `body` `n` times, threading an accumulator. -/
def loop (body : β → Reader σ ε β) : ℕ → β → Reader σ ε β
  | 0, acc => pure acc
  | n + 1, acc => do
    let acc ← body acc
    loop body n acc

/-- The first rounds of a loop, then the others. -/
theorem loop_add {body : β → Reader σ ε β} : ∀ (m n : ℕ) (acc : β) (b : List σ),
    loop body (m + n) acc b = (loop body m acc >>= loop body n) b := by
  intro m
  induction m with
  | zero =>
    intro n acc b
    rw [Nat.zero_add]; rfl
  | succ m ih =>
    intro n acc b
    rw [Nat.add_right_comm, loop, loop, bind_assoc, bind_apply, bind_apply]
    cases body acc b with
    | error e => rfl
    | ok p => exact ih n p.1 p.2

/-- What a reader returns, from the one result that is known. -/
theorem returns_iff {r : Reader σ ε α} {b rest out : List σ} {v x : α} (h : r b = .ok (v, rest)) :
    r b = .ok (x, out) ↔ x = v ∧ out = rest := by
  rw [h, Except.ok.injEq, Prod.mk.injEq]
  exact and_congr eq_comm eq_comm

/-- A loop over the encodings of `xs`: when its body takes one of them in, whichever comes, `n`
rounds take in the first `n`. -/
theorem loop_flatMap {body : β → Reader σ ε β} {enc : γ → List σ} {step : β → γ → β}
    {xs : List γ} (h : ∀ x ∈ xs, ∀ acc rest, body acc (enc x ++ rest) = .ok (step acc x, rest))
    {n : ℕ} (hn : n ≤ xs.length) (acc : β) (rest : List σ) :
    loop body n acc (xs.flatMap enc ++ rest) =
      .ok ((xs.take n).foldl step acc, (xs.drop n).flatMap enc ++ rest) := by
  induction xs generalizing n acc with
  | nil =>
    obtain rfl : n = 0 := by simpa using hn
    rfl
  | cons x xs ih =>
    cases n with
    | zero => rfl
    | succ n =>
      have hx := h x (by simp) acc (xs.flatMap enc ++ rest)
      rw [List.flatMap_cons, List.append_assoc, loop, bind_of_ok hx,
        ih (fun y hy => h y (by simp [hy])) (by simpa using hn)]
      rfl

/-! ## 2. Locality

A success names the prefix that it has used and returns the same value from that prefix in front
of anything else.  The definition says both at once: with the two halves as separate facts, the
prefixes of two readers in a row could not be put together. -/

/-- A successful run has used a prefix of the input, and the same prefix gives the same value
in front of anything else. -/
def Local (r : Reader σ ε α) : Prop :=
  ∀ b x rest, r b = .ok (x, rest) → ∃ c, b = c ++ rest ∧ ∀ s, r (c ++ s) = .ok (x, s)

theorem local_pure (x : α) : (pure x : Reader σ ε α).Local := by
  intro b y rest h
  simp only [pure_apply, Except.ok.injEq, Prod.mk.injEq] at h
  obtain ⟨rfl, rfl⟩ := h
  exact ⟨[], rfl, fun s => rfl⟩

theorem local_throw (e : ε) : (throw e : Reader σ ε α).Local := by
  intro b y rest h
  simp at h

/-- Two local readers in a row are local. -/
theorem Local.bind {r : Reader σ ε α} {k : α → Reader σ ε β} (hr : r.Local)
    (hk : ∀ x, (k x).Local) : (r >>= k).Local := by
  intro b y rest h
  obtain ⟨x, mid, h1, h2⟩ := bind_eq_ok.mp h
  obtain ⟨c, rfl, hc⟩ := hr b x mid h1
  obtain ⟨d, rfl, hd⟩ := hk x mid y rest h2
  refine ⟨c ++ d, (List.append_assoc c d rest).symm, fun s => ?_⟩
  rw [List.append_assoc]
  exact bind_eq_ok.mpr ⟨x, d ++ s, hc _, hd s⟩

theorem Local.loop {body : β → Reader σ ε β} (h : ∀ acc, (body acc).Local) :
    ∀ (n : ℕ) (acc : β), (loop body n acc).Local := by
  intro n
  induction n with
  | zero =>
    intro acc
    exact local_pure acc
  | succ n ih =>
    intro acc
    exact (h acc).bind (fun acc' => ih acc')

/-- The reader of exactly `n` symbols that fails with `e` when there are fewer. -/
def takeN (n : ℕ) (e : ε) : Reader σ ε (List σ) :=
  fun b => if b.length < n then .error e else .ok (b.take n, b.drop n)

theorem takeN_local (n : ℕ) (e : ε) : (takeN n e : Reader σ ε (List σ)).Local := by
  intro b x rest h
  simp only [takeN] at h
  split at h
  · exact absurd h (by simp)
  · rename_i hlen
    simp only [Except.ok.injEq, Prod.mk.injEq] at h
    obtain ⟨rfl, rfl⟩ := h
    refine ⟨b.take n, (List.take_append_drop n b).symm, fun s => ?_⟩
    have htake : (b.take n).length = n := by rw [List.length_take]; omega
    rw [takeN, if_neg (by rw [List.length_append, htake]; omega),
      List.take_left' htake, List.drop_left' htake]

theorem takeN_append {n : ℕ} {e : ε} {bs : List σ} (h : bs.length = n) (rest : List σ) :
    takeN n e (bs ++ rest) = .ok (bs, rest) := by
  rw [takeN, if_neg (by rw [List.length_append]; omega), List.take_left' h, List.drop_left' h]

theorem takeN_eq_ok {n : ℕ} {e : ε} {b bs rest : List σ} :
    takeN n e b = .ok (bs, rest) ↔ b = bs ++ rest ∧ bs.length = n := by
  constructor
  · intro h
    simp only [takeN] at h
    split at h
    · exact absurd h (by simp)
    · simp only [Except.ok.injEq, Prod.mk.injEq] at h
      obtain ⟨rfl, rfl⟩ := h
      exact ⟨(List.take_append_drop n b).symm, by rw [List.length_take]; omega⟩
  · rintro ⟨rfl, hlen⟩
    exact takeN_append hlen rest

/-- What follows a frame in the buffer changes neither its value nor how much of the buffer
it uses. -/
theorem Local.append {r : Reader σ ε α} (hr : r.Local) {b rest : List σ} {x : α}
    (h : r b = .ok (x, rest)) (s : List σ) : r (b ++ s) = .ok (x, rest ++ s) := by
  obtain ⟨c, rfl, hc⟩ := hr b x rest h
  rw [List.append_assoc]
  exact hc (rest ++ s)

/-! ## 3. Progress

How much a success uses.  The bound is on what is left, so that the bounds of two readers in a
row add up, and `Consumes 0` (the class `Shrinks`) is all that a reader owes which may return
without using anything.  A look ahead uses nothing, and the item that is read behind it pays. -/

/-- Run a reader and put back what it has used. -/
def lookahead (r : Reader σ ε α) : Reader σ ε α := fun b =>
  match r b with
  | .error e => .error e
  | .ok (x, _) => .ok (x, b)

theorem lookahead_of_ok {r : Reader σ ε α} {b rest : List σ} {x : α} (h : r b = .ok (x, rest)) :
    lookahead r b = .ok (x, b) := by
  rw [lookahead, h]

theorem lookahead_eq_ok {r : Reader σ ε α} {b mid : List σ} {x : α}
    (h : lookahead r b = .ok (x, mid)) : mid = b ∧ ∃ rest, r b = .ok (x, rest) := by
  unfold lookahead at h
  split at h
  · exact absurd h (by simp)
  · rename_i x' rest hr
    simp only [Except.ok.injEq, Prod.mk.injEq] at h
    obtain ⟨rfl, rfl⟩ := h
    exact ⟨rfl, rest, hr⟩

/-- A successful run leaves a suffix of its input that is shorter by at least `k`. -/
def Consumes (k : ℕ) (r : Reader σ ε α) : Prop :=
  ∀ b x rest, r b = .ok (x, rest) → rest <:+ b ∧ rest.length + k ≤ b.length

theorem consumes_pure (x : α) : (pure x : Reader σ ε α).Consumes 0 := by
  intro b y rest h
  simp only [pure_apply, Except.ok.injEq, Prod.mk.injEq] at h
  obtain ⟨-, rfl⟩ := h
  exact ⟨List.suffix_refl b, Nat.le_refl _⟩

theorem consumes_throw (k : ℕ) (e : ε) : (throw e : Reader σ ε α).Consumes k := by
  intro b y rest h
  simp at h

theorem takeN_consumes (n : ℕ) (e : ε) : (takeN n e : Reader σ ε (List σ)).Consumes n := by
  intro b x rest h
  simp only [takeN] at h
  split at h
  · exact absurd h (by simp)
  · simp only [Except.ok.injEq, Prod.mk.injEq] at h
    obtain ⟨-, rfl⟩ := h
    exact ⟨List.drop_suffix n b, by rw [List.length_drop]; omega⟩

theorem Consumes.bind {r : Reader σ ε α} {f : α → Reader σ ε β} {j k : ℕ} (hr : r.Consumes j)
    (hf : ∀ x, (f x).Consumes k) : (r >>= f).Consumes (j + k) := by
  intro b y rest h
  obtain ⟨x, mid, h1, h2⟩ := bind_eq_ok.mp h
  obtain ⟨s1, l1⟩ := hr b x mid h1
  obtain ⟨s2, l2⟩ := hf x mid y rest h2
  exact ⟨s2.trans s1, by omega⟩

theorem Consumes.ite {p : Prop} [Decidable p] {r r' : Reader σ ε α} {k : ℕ} (hr : r.Consumes k)
    (hr' : r'.Consumes k) : (if p then r else r').Consumes k := by
  split
  · exact hr
  · exact hr'

theorem Consumes.mono {r : Reader σ ε α} {j k : ℕ} (hr : r.Consumes j) (h : k ≤ j) :
    r.Consumes k := by
  intro b x rest hb
  obtain ⟨s, l⟩ := hr b x rest hb
  exact ⟨s, by omega⟩

/-- A look ahead uses nothing, whatever the reader it runs. -/
theorem consumes_lookahead (r : Reader σ ε α) : (lookahead r).Consumes 0 := by
  intro b x rest h
  simp only [lookahead] at h
  split at h
  · simp at h
  · simp only [Except.ok.injEq, Prod.mk.injEq] at h
    obtain ⟨-, rfl⟩ := h
    exact ⟨List.suffix_refl b, Nat.le_refl _⟩

/-- Look at a code, then read the item it stands for from the start. -/
theorem Consumes.afterLookahead {r : Reader σ ε α} {f : α → Reader σ ε β} {k : ℕ}
    (hf : ∀ x, (f x).Consumes k) : (lookahead r >>= f).Consumes k :=
  ((consumes_lookahead r).bind hf).mono (by omega)

/-- `Consumes 0` as a class, so that instance search derives it along the structure of a
reader. -/
class Shrinks (r : Reader σ ε α) : Prop where
  consumes : r.Consumes 0

theorem Consumes.shrinks {k : ℕ} {r : Reader σ ε α} (h : r.Consumes k) : Shrinks r :=
  ⟨h.mono (Nat.zero_le k)⟩

instance (x : α) : Shrinks (pure x : Reader σ ε α) := ⟨consumes_pure x⟩

instance (e : ε) : Shrinks (throw e : Reader σ ε α) := ⟨consumes_throw 0 e⟩

instance (n : ℕ) (e : ε) : Shrinks (takeN n e : Reader σ ε (List σ)) :=
  (takeN_consumes n e).shrinks

instance (r : Reader σ ε α) : Shrinks (lookahead r) := ⟨consumes_lookahead r⟩

instance (r : Reader σ ε α) (f : α → Reader σ ε β) [hr : Shrinks r] [hf : ∀ x, Shrinks (f x)] :
    Shrinks (r >>= f) := ⟨hr.consumes.bind fun x => (hf x).consumes⟩

theorem Shrinks.bind {r : Reader σ ε α} {f : α → Reader σ ε β} (hr : Shrinks r)
    (hf : ∀ x, Shrinks (f x)) : Shrinks (r >>= f) := inferInstance

theorem Consumes.loop {body : β → Reader σ ε β} (h : ∀ acc, (body acc).Consumes 0) :
    ∀ (n : ℕ) (acc : β), (loop body n acc).Consumes 0 := by
  intro n
  induction n with
  | zero =>
    intro acc
    exact consumes_pure acc
  | succ n ih =>
    intro acc
    exact (h acc).bind (fun acc' => ih acc')

/-- A loop whose rounds all take a symbol takes one for each round. -/
theorem Consumes.loop_length {body : β → Reader σ ε β} (h : ∀ acc, (body acc).Consumes 1) :
    ∀ (n : ℕ) (acc : β), (Reader.loop body n acc).Consumes n := by
  intro n
  induction n with
  | zero =>
    intro acc
    exact consumes_pure acc
  | succ n ih =>
    intro acc
    have hround := (h acc).bind (fun acc' => ih acc')
    rw [Nat.add_comm] at hround
    exact hround

instance (body : β → Reader σ ε β) [h : ∀ acc, Shrinks (body acc)] (n : ℕ) (acc : β) :
    Shrinks (loop body n acc) := ⟨Consumes.loop (fun acc' => (h acc').consumes) n acc⟩

/-! ## 4. Recursive readers

A recursive decoder calls itself on what is left behind at least one symbol.  Its body is then
indifferent to what the recursive call does on inputs that are not shorter (`Guarded`), which
makes the rounds agree one after the other: `n` rounds are right on all inputs of fewer than `n`
symbols.  `fix` makes one round more than there are symbols and so is the recursion itself. -/

/-- The two readers agree on every input shorter than `m`. -/
def AgreeBelow (m : ℕ) (r r' : Reader σ ε α) : Prop := ∀ b, b.length < m → r b = r' b

theorem agreeBelow_refl (m : ℕ) (r : Reader σ ε α) : AgreeBelow m r r := fun _ _ => rfl

theorem AgreeBelow.bind {m : ℕ} {r r' : Reader σ ε α} {f f' : α → Reader σ ε β}
    (h : AgreeBelow m r r') (hr : r.Consumes 0) (hf : ∀ x, AgreeBelow m (f x) (f' x)) :
    AgreeBelow m (r >>= f) (r' >>= f') := by
  intro b hb
  rw [bind_apply, bind_apply, ← h b hb]
  cases hrb : r b with
  | error e => rfl
  | ok p => exact hf p.1 p.2 (by have := (hr b p.1 p.2 hrb).2; omega)

/-- Behind a reader that uses at least one symbol, agreement is needed on shorter inputs
only. -/
theorem AgreeBelow.guard {m : ℕ} {r : Reader σ ε α} {f f' : α → Reader σ ε β}
    (hr : r.Consumes 1) (hf : ∀ x, AgreeBelow m (f x) (f' x)) :
    AgreeBelow (m + 1) (r >>= f) (r >>= f') := by
  intro b hb
  rw [bind_apply, bind_apply]
  cases hrb : r b with
  | error e => rfl
  | ok p => exact hf p.1 p.2 (by have := (hr b p.1 p.2 hrb).2; omega)

theorem AgreeBelow.loop {m : ℕ} {body body' : β → Reader σ ε β}
    (h : ∀ acc, AgreeBelow m (body acc) (body' acc)) (hc : ∀ acc, (body acc).Consumes 0) :
    ∀ (n : ℕ) (acc : β), AgreeBelow m (loop body n acc) (loop body' n acc) := by
  intro n
  induction n with
  | zero =>
    intro _
    exact agreeBelow_refl m _
  | succ n ih =>
    intro acc
    exact (h acc).bind (hc acc) (fun acc' => ih acc')

/-- The body of a recursive reader that calls itself only on shorter inputs. -/
structure Guarded (step : Reader σ ε α → Reader σ ε α) : Prop where
  consumes : ∀ r, r.Consumes 0 → (step r).Consumes 0
  agree : ∀ m r r', r.Consumes 0 → AgreeBelow m r r' → AgreeBelow (m + 1) (step r) (step r')

/-- `n` rounds of a recursion. -/
def iterate (step : Reader σ ε α → Reader σ ε α) (e : ε) : ℕ → Reader σ ε α
  | 0 => throw e
  | n + 1 => step (iterate step e n)

/-- The recursive reader with body `step`: one round for each symbol of the input and one
more.  The error `e` of a recursion that runs out of rounds is never seen (`fix_eq`). -/
def fix (step : Reader σ ε α → Reader σ ε α) (e : ε) : Reader σ ε α :=
  fun b => iterate step e (b.length + 1) b

variable {step : Reader σ ε α → Reader σ ε α} {e : ε}

theorem iterate_consumes (h : Guarded step) : ∀ n, (iterate step e n).Consumes 0 := by
  intro n
  induction n with
  | zero => exact consumes_throw 0 e
  | succ n ih => exact h.consumes _ ih

/-- More rounds than symbols change nothing. -/
theorem iterate_agree (h : Guarded step) : ∀ m n, m ≤ n →
    AgreeBelow m (iterate step e m) (iterate step e n) := by
  intro m
  induction m with
  | zero =>
    intro n _ b hb
    exact absurd hb (Nat.not_lt_zero _)
  | succ m ih =>
    intro n hmn
    cases n with
    | zero => exact absurd hmn (by omega)
    | succ n => exact h.agree m _ _ (iterate_consumes h m) (ih n (by omega))

theorem fix_consumes (h : Guarded step) : (fix step e).Consumes 0 :=
  fun b => iterate_consumes h (b.length + 1) b

/-- **The recursion equation.** -/
theorem fix_eq (h : Guarded step) : fix step e = step (fix step e) := by
  funext b
  have hagree : AgreeBelow b.length (iterate step e b.length) (fix step e) := by
    intro c hc
    exact (iterate_agree h (c.length + 1) b.length (by omega) c (by omega)).symm
  exact h.agree _ _ _ (iterate_consumes h b.length) hagree b (by omega)

/-! ## 5. Reading to the end of the input

The same for a loop that stops at the end of the input: each of its rounds uses a symbol, so
more rounds than symbols change nothing and the fuel can be the length of the input. -/

/-- At most `n` rounds of a loop that stops at the end of the input. -/
def untilEmptyN (body : β → Reader σ ε β) (e : ε) :
    ℕ → β → List σ → Except ε (β × List σ)
  | _, acc, [] => .ok (acc, [])
  | 0, _, _ :: _ => .error e
  | n + 1, acc, x :: b => (body acc >>= fun acc => (untilEmptyN body e n acc : Reader σ ε β)) (x :: b)

/-- `while !input.is_empty()`: run `body` until the input is used up.  Every round uses a
symbol, so there are no more rounds than symbols, and the error `e` of a loop that runs out of
them is never seen (`untilEmpty_eq`). -/
def untilEmpty (body : β → Reader σ ε β) (e : ε) (acc : β) : Reader σ ε β :=
  fun b => untilEmptyN body e b.length acc b

section UntilEmpty

variable {body : β → Reader σ ε β}

theorem untilEmptyN_agree (h : ∀ acc, (body acc).Consumes 1) : ∀ (m n : ℕ) (acc : β)
    (b : List σ), b.length ≤ m → b.length ≤ n →
      untilEmptyN body e m acc b = untilEmptyN body e n acc b := by
  intro m
  induction m with
  | zero =>
    intro n acc b hm _
    obtain rfl := List.length_eq_zero_iff.mp (Nat.le_zero.mp hm)
    simp [untilEmptyN]
  | succ m ih =>
    intro n acc b hm hn
    cases b with
    | nil => simp [untilEmptyN]
    | cons x b =>
      cases n with
      | zero => exact absurd hn (by simp)
      | succ n =>
        rw [untilEmptyN, untilEmptyN, bind_apply, bind_apply]
        cases hr : body acc (x :: b) with
        | error e' => rfl
        | ok p =>
          have hl := (h acc _ p.1 p.2 hr).2
          exact ih n p.1 p.2 (by omega) (by omega)

/-- **The loop's equation**: stop at the end of the input, else go round once more. -/
theorem untilEmpty_eq (h : ∀ acc, (body acc).Consumes 1) (acc : β) (b : List σ) :
    untilEmpty body e acc b =
      if b.isEmpty then .ok (acc, b) else (body acc >>= untilEmpty body e) b := by
  cases b with
  | nil => simp [untilEmpty, untilEmptyN]
  | cons x b =>
    rw [untilEmpty, List.length_cons, untilEmptyN, List.isEmpty_cons, if_neg (by simp),
      bind_apply, bind_apply]
    cases hr : body acc (x :: b) with
    | error e' => rfl
    | ok p =>
      have hl := (h acc _ p.1 p.2 hr).2
      rw [List.length_cons] at hl
      exact untilEmptyN_agree h _ _ p.1 p.2 (by omega) (Nat.le_refl _)

end UntilEmpty

/-! ## 6. Failures

Where an error comes from.  A decoder's errors are told apart by what its caller does about them
(wait for more, or give up), and a claim about one kind is a claim that no part of the decoder
has another: `Avoids` is put together along the decoder as locality is. -/

/-- A composed reader fails where its first part fails, or where its second part fails behind
it. -/
theorem bind_eq_error {r : Reader σ ε α} {k : α → Reader σ ε β} {b : List σ} {e : ε} :
    (r >>= k) b = .error e ↔
      r b = .error e ∨ ∃ x mid, r b = .ok (x, mid) ∧ k x mid = .error e := by
  rw [bind_apply]
  cases h : r b with
  | error e' => simp
  | ok p =>
    obtain ⟨x, mid⟩ := p
    simp only [Except.ok.injEq, Prod.mk.injEq, reduceCtorEq, false_or]
    constructor
    · intro hk; exact ⟨x, mid, ⟨rfl, rfl⟩, hk⟩
    · rintro ⟨x', mid', ⟨rfl, rfl⟩, hk⟩; exact hk

/-- A loop fails in one of its rounds, the rounds before it having succeeded. -/
theorem loop_eq_error {body : β → Reader σ ε β} {e : ε} : ∀ {n : ℕ} {acc : β} {b : List σ},
    loop body n acc b = .error e ↔
      ∃ i acc' mid, i < n ∧ loop body i acc b = .ok (acc', mid) ∧ body acc' mid = .error e := by
  intro n
  induction n with
  | zero =>
    intro acc b
    simp [loop]
  | succ n ih =>
    intro acc b
    rw [loop, bind_eq_error]
    constructor
    · rintro (h | ⟨acc1, mid1, h1, h2⟩)
      · exact ⟨0, acc, b, Nat.succ_pos n, rfl, h⟩
      · obtain ⟨i, acc', mid, hi, hloop, hbody⟩ := ih.mp h2
        exact ⟨i + 1, acc', mid, by omega, bind_eq_ok.mpr ⟨acc1, mid1, h1, hloop⟩, hbody⟩
    · rintro ⟨i, acc', mid, hi, hloop, hbody⟩
      cases i with
      | zero =>
        simp only [loop, pure_apply, Except.ok.injEq, Prod.mk.injEq] at hloop
        obtain ⟨rfl, rfl⟩ := hloop
        exact Or.inl hbody
      | succ i =>
        obtain ⟨acc1, mid1, h1, h2⟩ := bind_eq_ok.mp hloop
        exact Or.inr ⟨acc1, mid1, h1, ih.mpr ⟨i, acc', mid, by omega, h2, hbody⟩⟩

/-- No error of the reader is a `bad` one.  A class, so that instance search derives it along
the structure of a reader. -/
class Avoids (bad : ε → Prop) (r : Reader σ ε α) : Prop where
  avoids : ∀ b e, r b = .error e → ¬ bad e

section Avoids

variable {bad : ε → Prop}

instance (x : α) : Avoids bad (pure x : Reader σ ε α) := ⟨fun b e h => by simp at h⟩

theorem avoids_throw {e : ε} (h : ¬ bad e) : Avoids bad (throw e : Reader σ ε α) :=
  ⟨fun b e' he => by simp only [throw_apply, Except.error.injEq] at he; exact he ▸ h⟩

theorem avoids_takeN (n : ℕ) {e : ε} (h : ¬ bad e) :
    Avoids bad (takeN n e : Reader σ ε (List σ)) := by
  refine ⟨fun b e' he => ?_⟩
  simp only [takeN] at he
  split at he
  · simp only [Except.error.injEq] at he; exact he ▸ h
  · exact absurd he (by simp)

instance (r : Reader σ ε α) [h : Avoids bad r] : Avoids bad (lookahead r) := by
  refine ⟨fun b e he => ?_⟩
  simp only [lookahead] at he
  split at he
  · rename_i e' hr
    simp only [Except.error.injEq] at he
    exact he ▸ h.avoids b e' hr
  · exact absurd he (by simp)

instance (r : Reader σ ε α) (f : α → Reader σ ε β) [hr : Avoids bad r]
    [hf : ∀ x, Avoids bad (f x)] : Avoids bad (r >>= f) := by
  refine ⟨fun b e he => ?_⟩
  rcases bind_eq_error.mp he with h | ⟨x, mid, -, h⟩
  · exact hr.avoids b e h
  · exact (hf x).avoids mid e h

theorem Avoids.bind {r : Reader σ ε α} {f : α → Reader σ ε β} (hr : Avoids bad r)
    (hf : ∀ x, Avoids bad (f x)) : Avoids bad (r >>= f) := inferInstance

end Avoids

/-- `Local` as a class. -/
class IsLocal (r : Reader σ ε α) : Prop where
  isLocal : r.Local

instance (x : α) : IsLocal (pure x : Reader σ ε α) := ⟨local_pure x⟩

instance (e : ε) : IsLocal (throw e : Reader σ ε α) := ⟨local_throw e⟩

instance (n : ℕ) (e : ε) : IsLocal (takeN n e : Reader σ ε (List σ)) := ⟨takeN_local n e⟩

instance (r : Reader σ ε α) (f : α → Reader σ ε β) [hr : IsLocal r] [hf : ∀ x, IsLocal (f x)] :
    IsLocal (r >>= f) := ⟨hr.isLocal.bind fun x => (hf x).isLocal⟩

theorem IsLocal.bind {r : Reader σ ε α} {f : α → Reader σ ε β} (hr : IsLocal r)
    (hf : ∀ x, IsLocal (f x)) : IsLocal (r >>= f) := inferInstance

/-- A look ahead is not local, but it is in front of a reader that takes at least as much as
was looked at: what it saw is in the prefix that reader uses. -/
theorem Local.afterLookahead {r : Reader σ ε α} {f : α → Reader σ ε β} {k : ℕ} (hr : r.Local)
    (hk : ∀ b x rest, r b = .ok (x, rest) → b.length ≤ rest.length + k)
    (hf : ∀ x, (f x).Local) (hc : ∀ x, (f x).Consumes k) : (lookahead r >>= f).Local := by
  intro b y rest h
  obtain ⟨x, mid, hlook, hread⟩ := bind_eq_ok.mp h
  obtain ⟨rfl, tail, hx⟩ := lookahead_eq_ok hlook
  obtain ⟨c, rfl, hc'⟩ := hf x _ y rest hread
  obtain ⟨w, hw, hw'⟩ := hr _ x tail hx
  have hlen : w.length ≤ c.length := by
    have h1 := hk _ x tail hx
    have h2 := (hc x _ y rest hread).2
    rw [hw, List.length_append] at h1
    rw [List.length_append] at h2
    omega
  obtain ⟨u, rfl⟩ : ∃ u, c = w ++ u :=
    ⟨c.drop w.length, by
      have htake := congrArg (List.take w.length) hw
      rw [List.take_left, List.take_append_of_le_length hlen] at htake
      rw [← htake, List.length_take, Nat.min_eq_left hlen, List.take_append_drop]⟩
  refine ⟨w ++ u, rfl, fun s => ?_⟩
  have hsee : r (w ++ u ++ s) = .ok (x, u ++ s) := by
    rw [List.append_assoc]; exact hw' (u ++ s)
  rw [bind_of_ok (lookahead_of_ok hsee)]
  exact hc' s

/-- **A frame cut short is refused**: no proper prefix of it is read as anything. -/
theorem Local.truncated {r : Reader σ ε α} (hr : r.Local) {b : List σ} {x : α}
    (h : r b = .ok (x, [])) {k : ℕ} (hk : k < b.length) : ∃ e, r (b.take k) = .error e := by
  cases hcut : r (b.take k) with
  | error e => exact ⟨e, rfl⟩
  | ok p =>
    obtain ⟨y, rest⟩ := p
    have hwhole := hr.append hcut (b.drop k)
    rw [List.take_append_drop, h] at hwhole
    simp only [Except.ok.injEq, Prod.mk.injEq] at hwhole
    have hnil : b.drop k = [] := (List.append_eq_nil_iff.mp hwhole.2.symm).2
    rw [List.drop_eq_nil_iff] at hnil
    omega

end Reader

end Wire
