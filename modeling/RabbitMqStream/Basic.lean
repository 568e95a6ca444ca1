/-
# Bytes, failures and the primitive readers

The ground floor of the model: byte strings, the two ways a decoder can fail, the hash maps
that messages and commands carry, and the `read_*` functions of `codec/decoder.rs` that every
decoder of the crate is made of.

**Panics.**  A Rust function that slices out of range, unwraps a `None` or overflows does not
return.  `Fault` keeps that apart from an error the function returns, so that "it returns
`Err`" and "it panics" are different outcomes of the model.  An allocation that is refused ends the
process; it stands among the panics, since the function does not return then either.

**Memory.**  Whether an allocation is granted is decided outside the crate.  `Allocator` is that
decision, as a parameter, for the collections that are made with the capacity that a count from the
network or an argument of the application asks for.

**Errors.**  The `read_*` functions return `IncompleteError`, and `?` turns that into the
error type of the caller: `DecodeError` in the command layer, `AmqpDecodeError` in the AMQP
layer.  The class `OfIncomplete` is that conversion.

**Order of pairs.**  The Rust decoders return `(remaining, value)`.  The state monad returns
`(value, remaining)`.  Nothing else differs.

**Numbers.**  The last section says once what is read back of a number that was written with its
width.  All the round trips above this module come down to these statements.
-/
import RabbitMqStream.Wire.Reader
import RabbitMqStream.Wire.Layout
import RabbitMqStream.Wire.Writer

namespace RabbitMqStream

open Wire

/-- A byte slice, `&[u8]` or `Vec<u8>`. -/
abbrev Bytes : Type := List UInt8

/-! ## 1. Failures -/

/-- The panics the modelled code can raise. -/
inductive Panic : Type where
  /-- `slice::split_at` behind the end. -/
  | splitAtOutOfRange
  /-- `&input[len..]` behind the end. -/
  | sliceOutOfRange
  /-- `Option::unwrap` of `None`. -/
  | unwrapNone
  /-- `Vec::with_capacity` of more than `isize::MAX` bytes. -/
  | capacityOverflow
  /-- `with_capacity` of what the allocator does not grant: `handle_alloc_error` ends the
  process. -/
  | allocationRefused
  /-- `count -= 2` below zero. -/
  | subtractOverflow
  /-- `unimplemented!()` in `Hash for Map<Value, Value>`. -/
  | unimplementedHash
  /-- `panic!("Offset type not supported")`. -/
  | offsetTypeNotSupported
  deriving DecidableEq, Repr

/-- How a call that does not return a value ends: it returns an error, or it panics. -/
inductive Fault (ε : Type) : Type where
  | error (e : ε)
  | panic (p : Panic)
  deriving DecidableEq, Repr

/-- The call panics. -/
def Fault.IsPanic {ε : Type} : Fault ε → Prop
  | .error _ => False
  | .panic _ => True

/-- `From<IncompleteError>`: the caller's error for an input that is too short.  The number is
the one `IncompleteError` carries. -/
class OfIncomplete (ε : Type) where
  incomplete : ℕ → ε

/-- `From<FromUtf8Error>`: the caller's error for bytes that are not UTF-8. -/
class OfUtf8Error (ε : Type) where
  utf8Error : Bytes → ε

/-! ## 2. Strings and hash maps

A map iterates over its entries in some order, the same one for the size of an encoding and for
the encoding itself; so a map is a list of entries with different keys, and a theorem about any
map is one about any order. -/

/-- `String::as_bytes`. -/
def asBytes (s : String) : Bytes := s.toByteArray.data.toList

/-- `String::from_utf8`. -/
def fromUtf8 (bs : Bytes) : Option String := String.fromUTF8? ⟨bs.toArray⟩

/-- The bytes of a string are UTF-8, and they are the string's. -/
theorem fromUtf8_asBytes (s : String) : fromUtf8 (asBytes s) = some s := by
  have hbytes : (⟨(asBytes s).toArray⟩ : ByteArray) = s.toByteArray := rfl
  rw [fromUtf8, hbytes, String.fromUTF8?, dif_pos s.isValidUTF8]
  rfl

theorem asBytes_of_fromUtf8 {bs : Bytes} {s : String} (h : fromUtf8 bs = some s) :
    asBytes s = bs := by
  unfold fromUtf8 String.fromUTF8? at h
  split at h
  · simp only [Option.some.injEq] at h
    rw [← h, asBytes]
    rfl
  · exact absurd h (by simp)

/-- `K: Eq + Hash`.  `hashes k` is false for the keys whose `hash` panics. -/
class HashKey (K : Type) where
  eq : K → K → Bool
  hashes : K → Bool

/-- The derived `Eq` and `Hash` of a type whose equality is plain. -/
abbrev HashKey.derived (K : Type) [DecidableEq K] : HashKey K :=
  ⟨fun a b => decide (a = b), fun _ => true⟩

instance : HashKey String := HashKey.derived String

instance : HashKey UInt16 := HashKey.derived UInt16

/-- A key type with a plain equality, none of whose values panics in `hash`. -/
class LawfulHashKey (K : Type) [HashKey K] : Prop where
  eq_iff : ∀ {a b : K}, HashKey.eq a b = true ↔ a = b
  hashes : ∀ k : K, HashKey.hashes k = true

instance : LawfulHashKey String := ⟨decide_eq_true_iff, fun _ => rfl⟩

instance : LawfulHashKey UInt16 := ⟨decide_eq_true_iff, fun _ => rfl⟩

/-- `HashMap<K, V>`, as the list of its entries in the order the map iterates over them.  Any
list of entries whose keys differ is the iteration order of some map.  A key has been hashed on
its way in, so a key whose `hash` panics is in no map. -/
structure HashMap (K V : Type) [HashKey K] : Type where
  entries : List (K × V)
  distinct : entries.Pairwise (fun a b => HashKey.eq a.1 b.1 = false)
  hashed : ∀ e ∈ entries, HashKey.hashes e.1 = true

namespace HashMap

variable {K V : Type} [HashKey K]

instance [DecidableEq K] [DecidableEq V] : DecidableEq (HashMap K V) := fun a b =>
  decidable_of_iff (a.entries = b.entries)
    ⟨fun h => by cases a; cases b; cases h; rfl, fun h => by rw [h]⟩

theorem ext_entries {m n : HashMap K V} (h : m.entries = n.entries) : m = n := by
  cases m
  cases n
  cases h
  rfl

/-- `HashMap::new`. -/
def empty : HashMap K V := ⟨[], List.Pairwise.nil, by simp⟩

instance : Inhabited (HashMap K V) := ⟨empty⟩

/-- `HashMap::insert` on the entries: an equal key keeps its place and takes the new value. -/
def insertEntry (k : K) (v : V) : List (K × V) → List (K × V)
  | [] => [(k, v)]
  | e :: es => if HashKey.eq e.1 k then (e.1, v) :: es else e :: insertEntry k v es

theorem mem_insertEntry {k : K} {v : V} {p : K → Prop} (hk : p k) :
    ∀ {es : List (K × V)}, (∀ e ∈ es, p e.1) → ∀ e ∈ insertEntry k v es, p e.1 := by
  intro xs
  induction xs with
  | nil =>
    intro _ e he
    simp only [insertEntry, List.mem_singleton] at he
    rw [he]; exact hk
  | cons x xs ih =>
    intro h e he
    simp only [insertEntry] at he
    split at he
    · rcases List.mem_cons.mp he with rfl | he
      · exact h x (by simp)
      · exact h e (by simp [he])
    · rcases List.mem_cons.mp he with rfl | he
      · exact h e (by simp)
      · exact ih (fun y hy => h y (by simp [hy])) e he

theorem insertEntry_distinct (k : K) (v : V) : ∀ {es : List (K × V)},
    es.Pairwise (fun a b => HashKey.eq a.1 b.1 = false) →
      (insertEntry k v es).Pairwise (fun a b => HashKey.eq a.1 b.1 = false) := by
  intro xs
  induction xs with
  | nil =>
    intro _
    exact List.pairwise_singleton _ _
  | cons x xs ih =>
    intro h
    obtain ⟨hx, hxs⟩ := List.pairwise_cons.mp h
    simp only [insertEntry]
    split
    · exact List.pairwise_cons.mpr ⟨hx, hxs⟩
    · rename_i hne
      exact List.pairwise_cons.mpr ⟨mem_insertEntry (p := fun b => HashKey.eq x.1 b = false)
        (by simpa using hne) hx, ih hxs⟩

theorem insertEntry_of_new {k : K} {v : V} : ∀ {es : List (K × V)},
    (∀ e ∈ es, HashKey.eq e.1 k = false) → insertEntry k v es = es ++ [(k, v)] := by
  intro es
  induction es with
  | nil =>
    intro _
    exact rfl
  | cons e es ih =>
    intro h
    rw [insertEntry, if_neg (by simp [h e (by simp)]),
      ih (fun x hx => h x (by simp [hx])), List.cons_append]

/-- `HashMap::insert` of a key that has been hashed. -/
def insert (m : HashMap K V) (k : K) (v : V) (hk : HashKey.hashes k = true) : HashMap K V where
  entries := insertEntry k v m.entries
  distinct := insertEntry_distinct k v m.distinct
  hashed := mem_insertEntry (p := fun k => HashKey.hashes k = true) hk m.hashed

/-- `HashMap::get`. -/
def get (m : HashMap K V) (k : K) : Option V :=
  (m.entries.find? fun e => HashKey.eq e.1 k).map Prod.snd

/-- `HashMap::contains_key`. -/
def containsKey (m : HashMap K V) (k : K) : Bool := m.entries.any fun e => HashKey.eq e.1 k

/-- `HashMap::len`. -/
def len (m : HashMap K V) : ℕ := m.entries.length

section Lawful

variable [LawfulHashKey K]

/-- `HashMap::insert`. -/
def put (m : HashMap K V) (k : K) (v : V) : HashMap K V := m.insert k v (LawfulHashKey.hashes k)

/-- `collect::<HashMap<_, _>>()`. -/
def collect (es : List (K × V)) : HashMap K V := es.foldl (fun m e => m.put e.1 e.2) empty

theorem find_insertEntry (k k' : K) (v : V) (es : List (K × V)) [DecidableEq K] :
    ((insertEntry k v es).find? fun e => HashKey.eq e.1 k').map Prod.snd =
      if k' = k then some v else (es.find? fun e => HashKey.eq e.1 k').map Prod.snd := by
  have heq : ∀ a b : K, HashKey.eq a b = decide (a = b) := by
    intro a b
    rw [Bool.eq_iff_iff, LawfulHashKey.eq_iff, decide_eq_true_iff]
  simp only [heq]
  induction es with
  | nil =>
    by_cases hk : k = k'
    · simp [insertEntry, hk]
    · simp [insertEntry, hk, Ne.symm hk]
  | cons e es ih =>
    by_cases he : e.1 = k
    · by_cases hk : k = k'
      · simp [insertEntry, heq, he, hk]
      · simp [insertEntry, heq, he, hk, Ne.symm hk]
    · by_cases hk' : e.1 = k'
      · have hk : k' ≠ k := fun h => he (hk'.trans h)
        simp [insertEntry, heq, hk', hk]
      · simp only [insertEntry, heq, he, decide_false, Bool.false_eq_true, if_false]
        rw [List.find?_cons_of_neg (by simpa using hk'),
          List.find?_cons_of_neg (by simpa using hk'), ih]

/-- What is put under a key is found there, and what is found elsewhere stays. -/
theorem get_put (m : HashMap K V) (k k' : K) (v : V) [DecidableEq K] :
    (m.put k v).get k' = if k' = k then some v else m.get k' := find_insertEntry k k' v m.entries

theorem get_foldl_put (es : List (K × V)) (m : HashMap K V) (k : K) [DecidableEq K] :
    (es.foldl (fun m e => m.put e.1 e.2) m).get k =
      ((es.reverse.find? fun e => e.1 = k).map Prod.snd).or (m.get k) := by
  induction es generalizing m with
  | nil => simp
  | cons e es ih =>
    rw [List.foldl_cons, ih, get_put, List.reverse_cons, List.find?_append]
    cases es.reverse.find? fun e => decide (e.1 = k) with
    | some _ => rfl
    | none =>
      by_cases hk : k = e.1
      · simp [hk]
      · simp [hk, Ne.symm hk]

/-- **The last entry of a key** is the one that is collected. -/
theorem get_collect (es : List (K × V)) (k : K) [DecidableEq K] :
    (collect es).get k = (es.reverse.find? fun e => e.1 = k).map Prod.snd := by
  rw [collect, get_foldl_put]
  exact Option.or_none

end Lawful

end HashMap

/-! ## 3. Integers

A cast from a signed number to `usize` extends the sign, so a negative length is a very large
one. -/

/-- `len as usize` of an `i16`: the sign is extended to 64 bits. -/
def asUsize16 (x : Int16) : ℕ := (x.toInt % 2 ^ 64).toNat

/-- `len as usize` of an `i32`. -/
def asUsize32 (x : Int32) : ℕ := (x.toInt % 2 ^ 64).toNat

/-! ## 4. Memory -/

/-- The allocator, as far as the code asks it for a number that it has from elsewhere:
`C::with_capacity(n)` gets its memory exactly when `grants C n`.  For an empty collection nothing is
asked.  What grows with the bytes that are there already is taken to have its memory. -/
class Allocator where
  grants : Type → ℕ → Bool
  grants_zero : ∀ C, grants C 0 = true

/-- An allocator that grants everything. -/
abbrev Allocator.unbounded : Allocator := ⟨fun _ _ => true, fun _ => rfl⟩

/-- An allocator that grants up to so many elements. -/
abbrev Allocator.upTo (limit : ℕ) : Allocator :=
  ⟨fun _ n => n ≤ limit, fun _ => decide_eq_true (Nat.zero_le limit)⟩

/-- There is memory for whatever is asked for. -/
class Allocator.Ample [Allocator] : Prop where
  grants : ∀ (C : Type) (n : ℕ), Allocator.grants C n = true

instance : @Allocator.Ample .unbounded := @Allocator.Ample.mk .unbounded fun _ _ => rfl

/-- `isize::MAX`, the most bytes that a collection may ask for. -/
def isizeMax : ℕ := 2 ^ 63 - 1

/-! ## 5. The primitive readers of `codec/decoder.rs`

All of them check how much input is left and take a fixed number of bytes.  What is proved here
of each (it is read back, it uses its bytes, it looks at no others, it does not panic) is what
decoders that are made of them inherit. -/

section Readers

variable {ε : Type} [OfIncomplete ε]

/-- The common body of the `reader!` functions and of `read_exact`: `check_len`, then the
first `n` bytes and the rest. -/
def readExact (n : ℕ) : Reader UInt8 (Fault ε) Bytes :=
  Reader.takeN n (.error (OfIncomplete.incomplete n))

def readU8 : Reader UInt8 (Fault ε) UInt8 := do
  let bs ← readExact 1
  pure (UInt8.ofNat (ofBE bs))

def readI8 : Reader UInt8 (Fault ε) Int8 := do
  let bs ← readExact 1
  pure (UInt8.ofNat (ofBE bs)).toInt8

def readU16 : Reader UInt8 (Fault ε) UInt16 := do
  let bs ← readExact 2
  pure (UInt16.ofNat (ofBE bs))

def readI16 : Reader UInt8 (Fault ε) Int16 := do
  let bs ← readExact 2
  pure (UInt16.ofNat (ofBE bs)).toInt16

def readU32 : Reader UInt8 (Fault ε) UInt32 := do
  let bs ← readExact 4
  pure (UInt32.ofNat (ofBE bs))

def readI32 : Reader UInt8 (Fault ε) Int32 := do
  let bs ← readExact 4
  pure (UInt32.ofNat (ofBE bs)).toInt32

def readU64 : Reader UInt8 (Fault ε) UInt64 := do
  let bs ← readExact 8
  pure (UInt64.ofNat (ofBE bs))

def readI64 : Reader UInt8 (Fault ε) Int64 := do
  let bs ← readExact 8
  pure (UInt64.ofNat (ofBE bs)).toInt64

/-! What a number's bytes are read back as. -/

theorem readExact_append {n : ℕ} {bs : Bytes} (h : bs.length = n) (rest : Bytes) :
    (readExact n : Reader UInt8 (Fault ε) Bytes) (bs ++ rest) = .ok (bs, rest) :=
  Reader.takeN_append h rest

theorem readNumber_append {α : Type} {w n : ℕ} {f : Bytes → α} {x : α}
    (hf : f (toBE w n) = x) (rest : Bytes) :
    (readExact w >>= fun bs => pure (f bs) : Reader UInt8 (Fault ε) α) (toBE w n ++ rest) =
      .ok (x, rest) := by
  rw [Reader.bind_of_ok (readExact_append (toBE_length w n) rest), hf, Reader.pure_apply]

theorem readU8_append (n : UInt8) (rest : Bytes) :
    (readU8 : Reader UInt8 (Fault ε) UInt8) (toBE 1 n.toNat ++ rest) = .ok (n, rest) := by
  refine readNumber_append ?_ rest
  rw [ofBE_toBE, Nat.mod_eq_of_lt (by simpa using n.toNat_lt), UInt8.ofNat_toNat]

theorem readI8_append (n : Int8) (rest : Bytes) :
    (readI8 : Reader UInt8 (Fault ε) Int8) (toBE 1 n.toUInt8.toNat ++ rest) = .ok (n, rest) := by
  refine readNumber_append ?_ rest
  rw [ofBE_toBE, Nat.mod_eq_of_lt (by simpa using n.toUInt8.toNat_lt), UInt8.ofNat_toNat]
  rfl

theorem readU16_append (n : UInt16) (rest : Bytes) :
    (readU16 : Reader UInt8 (Fault ε) UInt16) (toBE 2 n.toNat ++ rest) = .ok (n, rest) := by
  refine readNumber_append ?_ rest
  rw [ofBE_toBE, Nat.mod_eq_of_lt (by simpa using n.toNat_lt), UInt16.ofNat_toNat]

theorem readU32_append (n : UInt32) (rest : Bytes) :
    (readU32 : Reader UInt8 (Fault ε) UInt32) (toBE 4 n.toNat ++ rest) = .ok (n, rest) := by
  refine readNumber_append ?_ rest
  rw [ofBE_toBE, Nat.mod_eq_of_lt (by simpa using n.toNat_lt), UInt32.ofNat_toNat]

theorem readI32_append (n : Int32) (rest : Bytes) :
    (readI32 : Reader UInt8 (Fault ε) Int32) (toBE 4 n.toUInt32.toNat ++ rest) =
      .ok (n, rest) := by
  refine readNumber_append ?_ rest
  rw [ofBE_toBE, Nat.mod_eq_of_lt (by simpa using n.toUInt32.toNat_lt), UInt32.ofNat_toNat]
  rfl

theorem readI64_append (n : Int64) (rest : Bytes) :
    (readI64 : Reader UInt8 (Fault ε) Int64) (toBE 8 n.toUInt64.toNat ++ rest) =
      .ok (n, rest) := by
  refine readNumber_append ?_ rest
  rw [ofBE_toBE, Nat.mod_eq_of_lt (by simpa using n.toUInt64.toNat_lt), UInt64.ofNat_toNat]
  rfl

theorem readU64_append (n : UInt64) (rest : Bytes) :
    (readU64 : Reader UInt8 (Fault ε) UInt64) (toBE 8 n.toNat ++ rest) = .ok (n, rest) := by
  refine readNumber_append ?_ rest
  rw [ofBE_toBE, Nat.mod_eq_of_lt (by simpa using n.toNat_lt), UInt64.ofNat_toNat]

/-! The low bytes of a length, which may be too long for its field. -/

theorem readI16_toBE (n : ℕ) (rest : Bytes) :
    (readI16 : Reader UInt8 (Fault ε) Int16) (toBE 2 n ++ rest) =
      .ok ((UInt16.ofNat n).toInt16, rest) := by
  refine readNumber_append ?_ rest
  rw [ofBE_toBE, show 256 ^ 2 = 2 ^ 16 from rfl, UInt16.ofNat_mod_size]

theorem readU32_toBE (n : ℕ) (rest : Bytes) :
    (readU32 : Reader UInt8 (Fault ε) UInt32) (toBE 4 n ++ rest) = .ok (UInt32.ofNat n, rest) := by
  refine readNumber_append ?_ rest
  rw [ofBE_toBE, show 256 ^ 4 = 2 ^ 32 from rfl, UInt32.ofNat_mod_size]

theorem readI32_toBE (n : ℕ) (rest : Bytes) :
    (readI32 : Reader UInt8 (Fault ε) Int32) (toBE 4 n ++ rest) =
      .ok ((UInt32.ofNat n).toInt32, rest) := by
  refine readNumber_append ?_ rest
  rw [ofBE_toBE, show 256 ^ 4 = 2 ^ 32 from rfl, UInt32.ofNat_mod_size]

theorem readNumber_eq_ok {α : Type} {w : ℕ} {f : Bytes → α} {b rest : Bytes} {x : α}
    (h : (readExact w >>= fun bs => pure (f bs) : Reader UInt8 (Fault ε) α) b = .ok (x, rest)) :
    ∃ bs, b = bs ++ rest ∧ bs.length = w ∧ x = f bs := by
  obtain ⟨bs, mid, htake, hpure⟩ := Reader.bind_eq_ok.mp h
  obtain ⟨rfl, hlen⟩ := Reader.takeN_eq_ok.mp htake
  simp only [Reader.pure_apply, Except.ok.injEq, Prod.mk.injEq] at hpure
  obtain ⟨rfl, rfl⟩ := hpure
  exact ⟨bs, rfl, hlen, rfl⟩

theorem readU8_eq_ok {b rest : Bytes} {n : UInt8}
    (h : (readU8 : Reader UInt8 (Fault ε) UInt8) b = .ok (n, rest)) : b = n :: rest := by
  obtain ⟨bs, rfl, hlen, rfl⟩ := readNumber_eq_ok h
  obtain ⟨x, rfl⟩ := List.length_eq_one_iff.mp hlen
  simp [ofBE]

theorem readU32_eq_ok {b rest : Bytes} {n : UInt32}
    (h : (readU32 : Reader UInt8 (Fault ε) UInt32) b = .ok (n, rest)) :
    ∃ len, b = len ++ rest ∧ len.length = 4 ∧ n.toNat = ofBE len := by
  obtain ⟨len, rfl, hlen, rfl⟩ := readNumber_eq_ok h
  have hlt := ofBE_lt len
  rw [hlen] at hlt
  exact ⟨len, rfl, hlen, by rw [UInt32.toNat_ofNat', Nat.mod_eq_of_lt (by omega)]⟩

theorem readI32_eq_ok {b rest : Bytes} {n : Int32}
    (h : (readI32 : Reader UInt8 (Fault ε) Int32) b = .ok (n, rest)) :
    ∃ len, b = len ++ rest ∧ len.length = 4 ∧ n = (UInt32.ofNat (ofBE len)).toInt32 :=
  readNumber_eq_ok h

theorem readU64_eq_ok {b rest : Bytes} {n : UInt64}
    (h : (readU64 : Reader UInt8 (Fault ε) UInt64) b = .ok (n, rest)) :
    b = toBE 8 n.toNat ++ rest := by
  obtain ⟨bs, rfl, hlen, rfl⟩ := readNumber_eq_ok h
  have hlt := ofBE_lt bs
  rw [hlen] at hlt
  rw [UInt64.toNat_ofNat', Nat.mod_eq_of_lt (by omega), ← hlen, toBE_ofBE]

theorem readU8_of_length {len : Bytes} (h : len.length = 1) (rest : Bytes) :
    (readU8 : Reader UInt8 (Fault ε) UInt8) (len ++ rest) = .ok (UInt8.ofNat (ofBE len), rest) := by
  rw [readU8, Reader.bind_of_ok (readExact_append h rest), Reader.pure_apply]

theorem readU32_of_length {len : Bytes} (h : len.length = 4) (rest : Bytes) :
    (readU32 : Reader UInt8 (Fault ε) UInt32) (len ++ rest) =
      .ok (UInt32.ofNat (ofBE len), rest) := by
  rw [readU32, Reader.bind_of_ok (readExact_append h rest), Reader.pure_apply]

theorem readU8_consumes : (readU8 : Reader UInt8 (Fault ε) UInt8).Consumes 1 :=
  (Reader.takeN_consumes 1 _).bind fun _ => Reader.consumes_pure _

instance (n : ℕ) : Reader.Shrinks (readExact n : Reader UInt8 (Fault ε) Bytes) :=
  inferInstanceAs (Reader.Shrinks (Reader.takeN n _))

instance : Reader.Shrinks (readU8 : Reader UInt8 (Fault ε) UInt8) :=
  inferInstanceAs (Reader.Shrinks (_ >>= _))

instance : Reader.Shrinks (readI8 : Reader UInt8 (Fault ε) Int8) :=
  inferInstanceAs (Reader.Shrinks (_ >>= _))

instance : Reader.Shrinks (readU16 : Reader UInt8 (Fault ε) UInt16) :=
  inferInstanceAs (Reader.Shrinks (_ >>= _))

instance : Reader.Shrinks (readI16 : Reader UInt8 (Fault ε) Int16) :=
  inferInstanceAs (Reader.Shrinks (_ >>= _))

instance : Reader.Shrinks (readU32 : Reader UInt8 (Fault ε) UInt32) :=
  inferInstanceAs (Reader.Shrinks (_ >>= _))

instance : Reader.Shrinks (readI32 : Reader UInt8 (Fault ε) Int32) :=
  inferInstanceAs (Reader.Shrinks (_ >>= _))

instance : Reader.Shrinks (readU64 : Reader UInt8 (Fault ε) UInt64) :=
  inferInstanceAs (Reader.Shrinks (_ >>= _))

instance : Reader.Shrinks (readI64 : Reader UInt8 (Fault ε) Int64) :=
  inferInstanceAs (Reader.Shrinks (_ >>= _))

/-! None of them panics, and each looks at the bytes it takes only. -/

/-- No input makes the reader panic. -/
abbrev NoPanic {α : Type} (r : Reader UInt8 (Fault ε) α) : Prop := Reader.Avoids Fault.IsPanic r

omit [OfIncomplete ε] in
theorem NoPanic.ne_panic {α : Type} {r : Reader UInt8 (Fault ε) α} (h : NoPanic r) (b : Bytes)
    (p : Panic) : r b ≠ .error (.panic p) :=
  fun hb => h.avoids b (.panic p) hb trivial

instance {α : Type} (e : ε) : NoPanic (throw (.error e) : Reader UInt8 (Fault ε) α) :=
  Reader.avoids_throw (fun h => h)

instance (n : ℕ) : NoPanic (readExact n : Reader UInt8 (Fault ε) Bytes) :=
  Reader.avoids_takeN n (fun h => h)

instance : NoPanic (readU8 : Reader UInt8 (Fault ε) UInt8) :=
  inferInstanceAs (Reader.Avoids _ (_ >>= _))

instance : NoPanic (readI8 : Reader UInt8 (Fault ε) Int8) :=
  inferInstanceAs (Reader.Avoids _ (_ >>= _))

instance : NoPanic (readU16 : Reader UInt8 (Fault ε) UInt16) :=
  inferInstanceAs (Reader.Avoids _ (_ >>= _))

instance : NoPanic (readI16 : Reader UInt8 (Fault ε) Int16) :=
  inferInstanceAs (Reader.Avoids _ (_ >>= _))

instance : NoPanic (readU32 : Reader UInt8 (Fault ε) UInt32) :=
  inferInstanceAs (Reader.Avoids _ (_ >>= _))

instance : NoPanic (readI32 : Reader UInt8 (Fault ε) Int32) :=
  inferInstanceAs (Reader.Avoids _ (_ >>= _))

instance : NoPanic (readU64 : Reader UInt8 (Fault ε) UInt64) :=
  inferInstanceAs (Reader.Avoids _ (_ >>= _))

instance : NoPanic (readI64 : Reader UInt8 (Fault ε) Int64) :=
  inferInstanceAs (Reader.Avoids _ (_ >>= _))

instance (n : ℕ) : Reader.IsLocal (readExact n : Reader UInt8 (Fault ε) Bytes) :=
  inferInstanceAs (Reader.IsLocal (Reader.takeN n _))

instance : Reader.IsLocal (readU8 : Reader UInt8 (Fault ε) UInt8) :=
  inferInstanceAs (Reader.IsLocal (_ >>= _))

instance : Reader.IsLocal (readI8 : Reader UInt8 (Fault ε) Int8) :=
  inferInstanceAs (Reader.IsLocal (_ >>= _))

instance : Reader.IsLocal (readU16 : Reader UInt8 (Fault ε) UInt16) :=
  inferInstanceAs (Reader.IsLocal (_ >>= _))

instance : Reader.IsLocal (readI16 : Reader UInt8 (Fault ε) Int16) :=
  inferInstanceAs (Reader.IsLocal (_ >>= _))

instance : Reader.IsLocal (readU32 : Reader UInt8 (Fault ε) UInt32) :=
  inferInstanceAs (Reader.IsLocal (_ >>= _))

instance : Reader.IsLocal (readI32 : Reader UInt8 (Fault ε) Int32) :=
  inferInstanceAs (Reader.IsLocal (_ >>= _))

instance : Reader.IsLocal (readU64 : Reader UInt8 (Fault ε) UInt64) :=
  inferInstanceAs (Reader.IsLocal (_ >>= _))

instance : Reader.IsLocal (readI64 : Reader UInt8 (Fault ε) Int64) :=
  inferInstanceAs (Reader.IsLocal (_ >>= _))

end Readers

/-! ## 6. Panics

Where in a composed reader a panic comes from: its first part, or its second part behind a
success of the first. -/

/-- The reader panics on the input. -/
def Panics {ε α : Type} (r : Reader UInt8 (Fault ε) α) (b : Bytes) : Prop :=
  ∃ p, r b = .error (.panic p)

section Panics

variable {ε α β : Type} {r : Reader UInt8 (Fault ε) α} {f : α → Reader UInt8 (Fault ε) β}
variable {b : Bytes}

theorem not_panics (h : NoPanic r) : ¬ Panics r b := by
  rintro ⟨p, hp⟩
  exact h.ne_panic b p hp

theorem panics_bind_iff :
    Panics (r >>= f) b ↔ Panics r b ∨ ∃ x mid, r b = .ok (x, mid) ∧ Panics (f x) mid := by
  constructor
  · rintro ⟨p, hp⟩
    rcases Reader.bind_eq_error.mp hp with h | ⟨x, mid, hx, h⟩
    · exact Or.inl ⟨p, h⟩
    · exact Or.inr ⟨x, mid, hx, p, h⟩
  · rintro (⟨p, h⟩ | ⟨x, mid, hx, p, h⟩)
    · exact ⟨p, Reader.bind_eq_error.mpr (Or.inl h)⟩
    · exact ⟨p, Reader.bind_eq_error.mpr (Or.inr ⟨x, mid, hx, h⟩)⟩

/-- Behind a part that does not panic. -/
theorem panics_after_iff [hr : NoPanic r] :
    Panics (r >>= f) b ↔ ∃ x mid, r b = .ok (x, mid) ∧ Panics (f x) mid :=
  panics_bind_iff.trans (or_iff_right (not_panics hr))

/-- In front of a part that does not panic. -/
theorem panics_before_iff (hf : ∀ x, NoPanic (f x)) : Panics (r >>= f) b ↔ Panics r b := by
  refine panics_bind_iff.trans (or_iff_left ?_)
  rintro ⟨x, mid, -, h⟩
  exact not_panics (hf x) h

end Panics

end RabbitMqStream
