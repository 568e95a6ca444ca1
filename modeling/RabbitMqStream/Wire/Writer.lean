/-
# Writers: encoders that append to a buffer

An encoder appends symbols to a buffer and may stop with an error part of the way.  What it
has appended by then stays in the buffer, so the buffer is part of the result of a failed run
too; `WriteM` is the exception monad OVER the state monad for that reason.

Hand-written encoders usually come in pairs: `encode` appends the symbols and a separate
`size` function says, in 32-bit arithmetic, how many they are.  `WriteM.Sized w n` is the
agreement of the two: a run of `w` that succeeds has appended `n` symbols, counted modulo
`2 ^ 32`.  Since counting modulo `2 ^ 32` is additive, the rules below need no bounds; a bound
on the total is used once, at the end, by `toNat_of_sized`.

For an encoder that cannot fail and is just its bytes, `Announces` is the same comparison, and
it also keeps how far the size is off: a size that announces `k` symbols too many stays `k` too
many in everything built on top of it.

The last part holds the fixed-width big-endian numbers that both directions use.

**Classes.**  `Appends` is derived along the structure of an encoder, as locality is along that of
a reader.  Sizes are put together by rules with the names of what they are about: `Sized.bind` for
two encoders in a row, `Sized.each` for a loop, `Sized.prefixed` for a count in front of it.
-/
import Mathlib.Data.List.Basic
import Mathlib.Tactic.Ring
import Mathlib.Tactic.Linarith

namespace Wire

/-- An encoder over the symbols `σ` with errors `ε`. -/
abbrev WriteM (σ ε α : Type) : Type := ExceptT ε (StateM (List σ)) α

variable {σ ε α β γ : Type}

namespace WriteM

/-! ## 1. Running a composed encoder

A run is the pair of its result and the buffer it leaves, also when it fails.  An encoder that
cannot fail `Appends`: what it adds is the same for every buffer. -/

/-- Run an encoder on a buffer: its result, and the buffer it leaves. -/
def exec (w : WriteM σ ε α) (buf : List σ) : Except ε α × List σ := w buf

/-- Append symbols to the buffer. -/
def write (bs : List σ) : WriteM σ ε Unit := fun buf => (.ok (), buf ++ bs)

@[simp] theorem exec_write (bs buf : List σ) :
    (write bs : WriteM σ ε Unit).exec buf = (.ok (), buf ++ bs) := rfl

@[simp] theorem exec_pure (x : α) (buf : List σ) :
    (pure x : WriteM σ ε α).exec buf = (.ok x, buf) := rfl

@[simp] theorem exec_throw (e : ε) (buf : List σ) :
    (throw e : WriteM σ ε α).exec buf = (.error e, buf) := rfl

theorem exec_bind (w : WriteM σ ε α) (k : α → WriteM σ ε β) (buf : List σ) :
    (w >>= k).exec buf = match w.exec buf with
      | (.error e, buf') => (.error e, buf')
      | (.ok x, buf') => (k x).exec buf' := by
  show (match w buf with | (a, s) => ExceptT.bindCont k a s) = match w buf with
      | (.error e, buf') => (.error e, buf')
      | (.ok x, buf') => k x buf'
  rcases w buf with ⟨_ | _, _⟩ <;> rfl

/-- `for x in xs`: run an encoder on each element. -/
def each (enc : γ → WriteM σ ε Unit) : List γ → WriteM σ ε Unit
  | [] => pure ()
  | x :: xs => do
    enc x
    each enc xs

/-- A loop over elements whose encoding cannot fail. -/
theorem exec_each {enc : γ → WriteM σ ε Unit} {f : γ → List σ}
    (h : ∀ x buf, (enc x).exec buf = (.ok (), buf ++ f x)) (xs : List γ) (buf : List σ) :
    (each enc xs).exec buf = (.ok (), buf ++ xs.flatMap f) := by
  induction xs generalizing buf with
  | nil => simp [each]
  | cons x xs ih => simp only [each, exec_bind, h, ih, List.flatMap_cons, List.append_assoc]

/-- An encoder that cannot fail: whatever the buffer, it appends something to it.  A class, so
that instance search derives it along the structure of an encoder. -/
class Appends (w : WriteM σ ε Unit) : Prop where
  appends : ∀ buf, ∃ bs, w.exec buf = (.ok (), buf ++ bs)

theorem Appends.of_exec {w : WriteM σ ε Unit} {bs : List σ}
    (h : ∀ buf, w.exec buf = (.ok (), buf ++ bs)) : Appends w := ⟨fun buf => ⟨bs, h buf⟩⟩

instance : Appends (pure () : WriteM σ ε Unit) := ⟨fun buf => ⟨[], by simp⟩⟩

instance (w : WriteM σ ε Unit) (k : Unit → WriteM σ ε Unit) [hw : Appends w]
    [hk : ∀ x, Appends (k x)] : Appends (w >>= k) := by
  refine ⟨fun buf => ?_⟩
  obtain ⟨bs, hbs⟩ := hw.appends buf
  obtain ⟨cs, hcs⟩ := (hk ()).appends (buf ++ bs)
  exact ⟨bs ++ cs, by rw [exec_bind, hbs]; simpa using hcs⟩

instance (c : Prop) [Decidable c] (v w : WriteM σ ε Unit) [Appends v] [Appends w] :
    Appends (if c then v else w) := by
  split <;> infer_instance

/-! ## 2. Encoders and their sizes

The size function of an encoder adds up in 32 bits, and the comparison is made modulo `2 ^ 32`
for that reason: the sum of two right sizes is right, whether it has wrapped or not. -/

/-- A run of `w` that succeeds has appended `n` symbols, modulo `2 ^ 32`. -/
def Sized (w : WriteM σ ε α) (n : UInt32) : Prop :=
  ∀ buf x buf', w.exec buf = (.ok x, buf') →
    ∃ bs, buf' = buf ++ bs ∧ UInt32.ofNat bs.length = n

theorem sized_write (bs : List σ) :
    (write bs : WriteM σ ε Unit).Sized (UInt32.ofNat bs.length) := by
  intro buf x buf' h
  simp only [exec_write, Prod.mk.injEq] at h
  exact ⟨bs, h.2.symm, rfl⟩

theorem sized_pure (x : α) : (pure x : WriteM σ ε α).Sized 0 := by
  intro buf y buf' h
  simp only [exec_pure, Prod.mk.injEq] at h
  exact ⟨[], by rw [List.append_nil]; exact h.2.symm, rfl⟩

/-- An encoder that fails has no size to agree with. -/
theorem sized_throw (e : ε) (n : UInt32) : (throw e : WriteM σ ε α).Sized n := by
  intro buf y buf' h
  simp at h

/-- The sizes of two encoders in a row add up. -/
theorem Sized.bind {w : WriteM σ ε α} {k : α → WriteM σ ε β} {m n : UInt32} (hw : w.Sized m)
    (hk : ∀ x, (k x).Sized n) : (w >>= k).Sized (m + n) := by
  intro buf y buf' h
  rw [exec_bind] at h
  split at h
  · simp at h
  · rename_i x mid hmid
    obtain ⟨bs, rfl, hbs⟩ := hw buf x mid hmid
    obtain ⟨cs, rfl, hcs⟩ := hk x _ y buf' h
    refine ⟨bs ++ cs, List.append_assoc buf bs cs, ?_⟩
    rw [List.length_append, UInt32.ofNat_add, hbs, hcs]

theorem Sized.ite {c : Prop} [Decidable c] {v w : WriteM σ ε α} {n : UInt32}
    (hv : c → v.Sized n) (hw : ¬ c → w.Sized n) : (if c then v else w).Sized n := by
  split
  · exact hv ‹_›
  · exact hw ‹_›

theorem Sized.congr {w : WriteM σ ε α} {m n : UInt32} (hw : w.Sized m) (h : m = n) :
    w.Sized n := h ▸ hw

/-- The size of a loop is the fold of the sizes of its rounds. -/
theorem Sized.each {enc : γ → WriteM σ ε Unit} {size : γ → UInt32} :
    ∀ (xs : List γ) (acc : UInt32), (∀ x ∈ xs, (enc x).Sized (size x)) →
      ∃ n, (each enc xs).Sized n ∧ xs.foldl (fun a x => a + size x) acc = acc + n := by
  intro xs
  induction xs with
  | nil =>
    intro acc _
    exact ⟨0, sized_pure (), by simp⟩
  | cons x xs ih =>
    intro acc h
    obtain ⟨n, hn, hfold⟩ := ih (acc + size x) (fun y hy => h y (by simp [hy]))
    refine ⟨size x + n, (h x (by simp)).bind (fun _ => hn), ?_⟩
    rw [List.foldl_cons, hfold, UInt32.add_assoc]

/-- `4 + self.iter().fold(0, ..)`: a length field and the elements after it. -/
theorem Sized.prefixed {enc : γ → WriteM σ ε Unit} {size : γ → UInt32} {w : WriteM σ ε Unit}
    {m : UInt32} (hw : w.Sized m) {xs : List γ} (h : ∀ x ∈ xs, (enc x).Sized (size x)) :
    (do w; WriteM.each enc xs).Sized (m + xs.foldl (fun a x => a + size x) 0) := by
  obtain ⟨n, hn, hfold⟩ := Sized.each xs 0 h
  rw [hfold, UInt32.zero_add]
  exact hw.bind (fun _ => hn)

/-- **Below `2 ^ 32` the size is the number of symbols written.** -/
theorem toNat_of_sized {bs : List σ} {n : UInt32} (h : UInt32.ofNat bs.length = n)
    (hlt : bs.length < 2 ^ 32) : n.toNat = bs.length := by
  rw [← h, UInt32.toNat_ofNat']
  exact Nat.mod_eq_of_lt hlt

end WriteM

/-! ## 3. Sizes that are off

A size that is wrong by a constant stays wrong by that constant in everything around it.  Only
sizes that announce too much are covered, so `k` is a natural number and two mistakes never cancel
each other: below `2 ^ 32` a size is right exactly when nothing in it is off. -/

/-- The size `n` announces `k` symbols more than there are, modulo `2 ^ 32`. -/
def Announces (n : UInt32) (bs : List σ) (k : ℕ) : Prop := n = UInt32.ofNat (bs.length + k)

theorem announces_nil : Announces 0 ([] : List σ) 0 := rfl

theorem Announces.eq_ofNat {n : UInt32} {bs : List σ} (h : Announces n bs 0) :
    n = UInt32.ofNat bs.length := h

/-- Sizes add up, and so does what they are off by. -/
theorem Announces.append {m n : UInt32} {as bs : List σ} {j k : ℕ} (h : Announces m as j)
    (h' : Announces n bs k) : Announces (m + n) (as ++ bs) (j + k) := by
  unfold Announces at *
  rw [h, h', ← UInt32.ofNat_add, List.length_append]
  congr 1
  omega

/-- The fold of the sizes over the elements of a list, whatever order the body of the fold adds
them up in. -/
theorem Announces.foldl {f : UInt32 → γ → UInt32} {g : γ → List σ} {k : γ → ℕ} :
    ∀ (xs : List γ) (acc : UInt32),
      (∀ x ∈ xs, ∃ n, Announces n (g x) (k x) ∧ ∀ a, f a x = a + n) →
        ∃ n, Announces n (xs.flatMap g) (xs.map k).sum ∧ xs.foldl f acc = acc + n := by
  intro xs
  induction xs with
  | nil =>
    intro acc _
    exact ⟨0, announces_nil, by simp⟩
  | cons x xs ih =>
    intro acc h
    obtain ⟨m, hm, hstep⟩ := h x (by simp)
    obtain ⟨n, hn, hfold⟩ := ih (acc + m) (fun y hy => h y (by simp [hy]))
    refine ⟨m + n, ?_, ?_⟩
    · simpa using hm.append hn
    · rw [List.foldl_cons, hstep, hfold, UInt32.add_assoc]

/-- **Below `2 ^ 32` a size is right exactly when it is off by nothing.** -/
theorem Announces.toNat_eq_iff {n : UInt32} {bs : List σ} {k : ℕ} (h : Announces n bs k)
    (hlt : bs.length < 2 ^ 32) (hk : k < 2 ^ 32) : n.toNat = bs.length ↔ k = 0 := by
  rw [show n = UInt32.ofNat (bs.length + k) from h, UInt32.toNat_ofNat']
  omega

theorem announces_of_toNat_eq {n : UInt32} {bs : List σ} (h : n.toNat = bs.length) :
    Announces n bs 0 := by
  rw [Announces, Nat.add_zero, ← h, UInt32.ofNat_toNat]

/-! ## 4. Big-endian numbers

Both directions use one pair of functions.  `ofBE_toBE` loses what is above `w` bytes and
`toBE_ofBE` loses nothing, since a list of `w` bytes is below `256 ^ w`. -/

/-- The `w` low bytes of `n`, the most significant one first. -/
def toBE : ℕ → ℕ → List UInt8
  | 0, _ => []
  | w + 1, n => UInt8.ofNat (n / 256 ^ w) :: toBE w n

@[simp] theorem toBE_length : ∀ (w n : ℕ), (toBE w n).length = w
  | 0, _ => rfl
  | w + 1, n => by rw [toBE, List.length_cons, toBE_length w n]

/-- The number a list of bytes stands for, the most significant one first. -/
def ofBE (bs : List UInt8) : ℕ := bs.foldl (fun acc b => acc * 256 + b.toNat) 0

theorem foldl_ofBE : ∀ (bs : List UInt8) (acc : ℕ),
    bs.foldl (fun acc b => acc * 256 + b.toNat) acc = acc * 256 ^ bs.length + ofBE bs := by
  intro bs
  induction bs with
  | nil =>
    intro acc
    simp [ofBE]
  | cons b bs ih =>
    intro acc
    have hone : ofBE (b :: bs) = b.toNat * 256 ^ bs.length + ofBE bs := by
      rw [ofBE, List.foldl_cons, ih, Nat.zero_mul, Nat.zero_add]
    rw [List.foldl_cons, ih, hone, List.length_cons]
    ring

theorem ofBE_cons (b : UInt8) (bs : List UInt8) :
    ofBE (b :: bs) = b.toNat * 256 ^ bs.length + ofBE bs := by
  rw [ofBE, List.foldl_cons, foldl_ofBE, Nat.zero_mul, Nat.zero_add]

theorem ofBE_lt : ∀ bs : List UInt8, ofBE bs < 256 ^ bs.length := by
  intro bs
  induction bs with
  | nil =>
    simp [ofBE]
  | cons b bs ih =>
    have hb := b.toNat_lt
    rw [ofBE_cons, List.length_cons, pow_succ]
    nlinarith

/-- **Reading back** the `w` low bytes of a number. -/
theorem ofBE_toBE : ∀ w n : ℕ, ofBE (toBE w n) = n % 256 ^ w := by
  intro w
  induction w with
  | zero =>
    intro n
    simp [toBE, ofBE, Nat.mod_one]
  | succ w ih =>
    intro n
    have hmod : n % 256 ^ (w + 1) = n % 256 ^ w + 256 ^ w * (n / 256 ^ w % 256) := by
      rw [pow_succ, Nat.mod_mul]
    rw [toBE, ofBE_cons, toBE_length, ih n, UInt8.toNat_ofNat', hmod, Nat.mul_comm,
      Nat.add_comm]

theorem toBE_add_mul : ∀ w a n : ℕ, toBE w (a * 256 ^ w + n) = toBE w n := by
  intro w
  induction w with
  | zero =>
    intro _ _
    exact rfl
  | succ w ih =>
    intro a n
    have hpow : a * 256 ^ (w + 1) + n = a * 256 * 256 ^ w + n := by ring
    have hhead : UInt8.ofNat ((a * 256 * 256 ^ w + n) / 256 ^ w) = UInt8.ofNat (n / 256 ^ w) := by
      apply UInt8.toNat_inj.mp
      rw [UInt8.toNat_ofNat', UInt8.toNat_ofNat', Nat.add_comm,
        Nat.add_mul_div_right _ _ (by positivity)]
      omega
    rw [toBE, toBE, hpow, hhead, ih (a * 256) n]

/-- The bytes of the number that a list of bytes stands for. -/
theorem toBE_ofBE : ∀ bs : List UInt8, toBE bs.length (ofBE bs) = bs := by
  intro bs
  induction bs with
  | nil =>
    exact rfl
  | cons b bs ih =>
    have hlt := ofBE_lt bs
    have hhead : (b.toNat * 256 ^ bs.length + ofBE bs) / 256 ^ bs.length = b.toNat := by
      rw [Nat.add_comm, Nat.add_mul_div_right _ _ (by positivity), Nat.div_eq_of_lt hlt,
        Nat.zero_add]
    rw [List.length_cons, toBE, ofBE_cons, hhead, toBE_add_mul, ih, UInt8.ofNat_toNat]

end Wire
