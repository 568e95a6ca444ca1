/-
# Which messages make the decoder panic

There are two panics in the AMQP decoder: `count -= 2` on an odd count, and hashing a key that
has a map in it.  Both sit in the loop of `Map::decode`, so a message makes the decoder panic
exactly when the decoder gets to such a map.

Where does the decoder get to?  From the start of a value it goes on to the values inside: what
is behind a descriptor, the items of a list, the keys and the values of a map (`Value.Next`).  An
item is only looked at when the ones before it have been read, and a map stops at the first key
that cannot be hashed.  Several steps of this kind lead to every value the decoder starts on, and
to no other.

* `map_panics_iff`: a map panics by its own count, by one of its keys, or inside one of them.
* `value_panics_iff`: a value panics exactly when a bad map is reached from it.
* `message_noPanic_iff`: the same for a message, section by section.

**The argument.**  One has to say where a decoder gets to without saying what it does there.  Each
decoder of the layer panics in itself or in one of the decoders it calls, at the point at which it
calls it, and this is a lemma for each (`list_panics_iff`, `map_panics_iff`, and so on).  Put
together they are one step of a recursion (`value_panics_step`).  Along the steps the input gets
shorter, so the panic is at the end of finitely many steps, and that end is a map.  The other way
round is an induction on the steps.
-/
import RabbitMqStream.Amqp.Records
import Mathlib.Logic.Relation

namespace RabbitMqStream.Amqp

open Wire

open Reader (Shrinks Avoids)

/-! ## 1. Lists and maps

For any decoders of the items, keys and values: a compound panics by itself or at one of the
places where it calls them.  What is said of such a place is how the decoder gets there. -/

/-- A decoder that starts with a type code panics behind it. -/
theorem afterCode_panics_iff {α : Type} {f : TypeCode → AmqpReader α} {b : Bytes} :
    Panics (TypeCode.decode >>= f) b ↔ ∃ c tail, b = encode c ++ tail ∧ Panics (f c) tail := by
  rw [panics_after_iff]
  constructor
  · rintro ⟨c, tail, hcode, h⟩
    exact ⟨c, tail, typeCode_eq_ok hcode, h⟩
  · rintro ⟨c, tail, rfl, h⟩
    exact ⟨c, tail, typeCode_decode c tail, h⟩

/-- A decoder that looks at the type code first panics with the code still there. -/
theorem afterLookahead_panics_iff {α : Type} {f : TypeCode → AmqpReader α} {b : Bytes} :
    Panics (Reader.lookahead TypeCode.decode >>= f) b ↔
      ∃ c tail, b = encode c ++ tail ∧ Panics (f c) b := by
  rw [panics_after_iff]
  constructor
  · rintro ⟨c, mid, hlook, h⟩
    obtain ⟨rfl, tail, hcode⟩ := Reader.lookahead_eq_ok hlook
    exact ⟨c, tail, typeCode_eq_ok hcode, h⟩
  · rintro ⟨c, tail, rfl, h⟩
    exact ⟨c, _, Reader.lookahead_of_ok (typeCode_decode c tail), h⟩

theorem count8_eq_ok {b rest : Bytes} {n : ℕ} (h : Compound.count8 b = .ok (n, rest)) :
    ∃ size count : UInt8, b = size :: count :: rest ∧ n = count.toNat := by
  obtain ⟨size, mid, hsize, hcount⟩ := Reader.bind_eq_ok.mp h
  obtain ⟨count, mid', hread, hpure⟩ := Reader.bind_eq_ok.mp hcount
  simp only [Reader.pure_apply, Except.ok.injEq, Prod.mk.injEq] at hpure
  obtain ⟨rfl, rfl⟩ := hpure
  exact ⟨size, count, by rw [readU8_eq_ok hsize, readU8_eq_ok hread], rfl⟩

theorem count32_eq_ok {b rest : Bytes} {n : ℕ} (h : Compound.count32 b = .ok (n, rest)) :
    ∃ size count : Bytes, b = size ++ (count ++ rest) ∧ size.length = 4 ∧ count.length = 4 ∧
      n = ofBE count := by
  obtain ⟨number, mid, hsize, hcount⟩ := Reader.bind_eq_ok.mp h
  obtain ⟨number', mid', hread, hpure⟩ := Reader.bind_eq_ok.mp hcount
  simp only [Reader.pure_apply, Except.ok.injEq, Prod.mk.injEq] at hpure
  obtain ⟨rfl, rfl⟩ := hpure
  obtain ⟨size, rfl, hs, -⟩ := readU32_eq_ok hsize
  obtain ⟨count, rfl, hc, hn⟩ := readU32_eq_ok hread
  exact ⟨size, count, rfl, hs, hc, hn⟩

instance : NoPanic Compound.count8 := inferInstanceAs (NoPanic (_ >>= _))

instance : NoPanic Compound.count32 := inferInstanceAs (NoPanic (_ >>= _))

section List

variable {value : AmqpReader Value} {b : Bytes}

theorem elems_panics_iff {n : ℕ} : Panics (AmqpList.elems value n) b ↔
    ∃ k items b', k < n ∧ AmqpList.elems value k b = .ok (items, b') ∧ Panics value b' := by
  have hround : ∀ (items : List Value) (b' : Bytes),
      Panics (do let elem ← value; pure (items ++ [elem]) : AmqpReader (List Value)) b' ↔
        Panics value b' := fun items b' => panics_before_iff fun _ => inferInstance
  constructor
  · rintro ⟨p, hp⟩
    obtain ⟨k, items, b', hk, hread, h⟩ := Reader.loop_eq_error.mp hp
    exact ⟨k, items, b', hk, hread, (hround items b').mp ⟨p, h⟩⟩
  · rintro ⟨k, items, b', hk, hread, h⟩
    obtain ⟨p, hp⟩ := (hround items b').mpr h
    exact ⟨p, Reader.loop_eq_error.mpr ⟨k, items, b', hk, hread, hp⟩⟩

variable (value) in
/-- The decoder of the list at `b` gets to an item at `b'`: the items before it have been read. -/
def ItemAt (b b' : Bytes) : Prop :=
  ∃ n head content k items, ListHead n head ∧ b = head ++ content ∧ k < n ∧
    AmqpList.elems value k content = .ok (items, b')

/-- **A list panics inside one of its items.** -/
theorem list_panics_iff :
    Panics (AmqpList.decodeWith value) b ↔ ∃ b', ItemAt value b b' ∧ Panics value b' := by
  rw [AmqpList.decodeWith, afterCode_panics_iff]
  constructor
  · rintro ⟨c, tail, rfl, h⟩
    split at h
    · exact absurd h (not_panics inferInstance)
    · obtain ⟨n, content, hcount, helems⟩ := panics_after_iff.mp h
      obtain ⟨size, count, rfl, rfl⟩ := count8_eq_ok hcount
      obtain ⟨k, items, b', hk, hread, hb'⟩ := elems_panics_iff.mp helems
      exact ⟨b', ⟨_, _, content, k, items, .list8 size count, rfl, hk, hread⟩, hb'⟩
    · obtain ⟨n, content, hcount, helems⟩ := panics_after_iff.mp h
      obtain ⟨size, count, rfl, hs, hc, rfl⟩ := count32_eq_ok hcount
      obtain ⟨k, items, b', hk, hread, hb'⟩ := elems_panics_iff.mp helems
      exact ⟨b', ⟨_, _, content, k, items, .list32 size count hs hc, by simp, hk, hread⟩, hb'⟩
    · exact absurd h (not_panics inferInstance)
  · rintro ⟨b', ⟨n, head, content, k, items, hhead, rfl, hk, hread⟩, hb'⟩
    have helems := elems_panics_iff.mpr ⟨k, items, b', hk, hread, hb'⟩
    cases hhead with
    | list0 => exact absurd hk (Nat.not_lt_zero k)
    | list8 size count =>
      refine ⟨.list8, size :: count :: content, rfl, ?_⟩
      exact panics_after_iff.mpr ⟨_, content, count8_bytes size count content, helems⟩
    | list32 size count hs hc =>
      refine ⟨.list32, size ++ (count ++ content), by simp, ?_⟩
      exact panics_after_iff.mpr ⟨_, content, count32_bytes hs hc content, helems⟩

end List

/-- The ways to start a map with a count of `n`. -/
inductive MapHead : ℕ → Bytes → Prop where
  | map8 (size count : UInt8) : MapHead count.toNat (encode TypeCode.map8 ++ [size, count])
  | map32 (size count : Bytes) (hsize : size.length = 4) (hcount : count.length = 4) :
      MapHead (ofBE count) (encode TypeCode.map32 ++ (size ++ count))

section Map

variable {K V : Type} [HashKey K] {key : AmqpReader K} {value : AmqpReader V} {b : Bytes}

variable (key value) in
/-- The decoder of the map at `b` gets to an entry at `b'`: the count has room for it, and the
entries before it have been read and their keys hashed. -/
def EntryAt (b b' : Bytes) : Prop :=
  ∃ n head content j map, MapHead n head ∧ b = head ++ content ∧ 2 * j + 2 ≤ n ∧
    Map.entries key value (2 * j) HashMap.empty content = .ok (map, b')

variable (key value) in
/-- The map at `b` has an odd count, and the decoder gets to its last key. -/
def OddMap (b : Bytes) : Prop :=
  ∃ j head content map b', MapHead (2 * j + 1) head ∧ b = head ++ content ∧
    Map.entries key value (2 * j) HashMap.empty content = .ok (map, b')

variable (key value) in
/-- An entry that panics: in its key, in its value, or when the key is hashed. -/
def EntryPanics (b : Bytes) : Prop :=
  Panics key b ∨ ∃ k b1, key b = .ok (k, b1) ∧
    (Panics value b1 ∨ ∃ v b2, value b1 = .ok (v, b2) ∧ HashKey.hashes k = false)

theorem insert_of_hashes {map : HashMap K V} {k : K} {v : V} (h : HashKey.hashes k = true) :
    Map.insert map k v = pure (map.insert k v h) := dif_pos h

theorem insert_panics_iff {map : HashMap K V} {k : K} {v : V} :
    Panics (Map.insert map k v) b ↔ HashKey.hashes k = false := by
  unfold Map.insert
  split
  · rename_i hk
    simp [Panics, hk]
  · rename_i hk
    simpa [Panics] using hk

/-- One entry, then the others. -/
theorem entries_eq_ok {n : ℕ} {map map' : HashMap K V} {b' : Bytes} :
    Map.entries key value (n + 2) map b = .ok (map', b') ↔
      ∃ k b1 v b2, key b = .ok (k, b1) ∧ value b1 = .ok (v, b2) ∧ ∃ hk : HashKey.hashes k = true,
        Map.entries key value n (map.insert k v hk) b2 = .ok (map', b') := by
  rw [Map.entries, Reader.bind_eq_ok]
  constructor
  · rintro ⟨k, b1, hkey, h⟩
    obtain ⟨v, b2, hvalue, h⟩ := Reader.bind_eq_ok.mp h
    obtain ⟨map1, b3, hinsert, h⟩ := Reader.bind_eq_ok.mp h
    unfold Map.insert at hinsert
    split at hinsert
    · rename_i hk
      simp only [Reader.pure_apply, Except.ok.injEq, Prod.mk.injEq] at hinsert
      obtain ⟨rfl, rfl⟩ := hinsert
      exact ⟨k, b1, v, b2, hkey, hvalue, hk, h⟩
    · exact absurd hinsert (by simp)
  · rintro ⟨k, b1, v, b2, hkey, hvalue, hk, h⟩
    refine ⟨k, b1, hkey, ?_⟩
    rw [Reader.bind_of_ok hvalue, insert_of_hashes hk]
    exact h

theorem entries_succ_panics_iff {n : ℕ} {map : HashMap K V} :
    Panics (Map.entries key value (n + 2) map) b ↔ EntryPanics key value b ∨
      ∃ k b1 v b2, key b = .ok (k, b1) ∧ value b1 = .ok (v, b2) ∧ ∃ hk : HashKey.hashes k = true,
        Panics (Map.entries key value n (map.insert k v hk)) b2 := by
  rw [Map.entries, panics_bind_iff, EntryPanics, or_assoc]
  refine or_congr_right ⟨?_, ?_⟩
  · rintro ⟨k, b1, hkey, h⟩
    rcases panics_bind_iff.mp h with hv | ⟨v, b2, hvalue, h⟩
    · exact Or.inl ⟨k, b1, hkey, Or.inl hv⟩
    · cases hk : HashKey.hashes k with
      | false => exact Or.inl ⟨k, b1, hkey, Or.inr ⟨v, b2, hvalue, hk⟩⟩
      | true =>
        rw [insert_of_hashes hk] at h
        exact Or.inr ⟨k, b1, v, b2, hkey, hvalue, hk, h⟩
  · rintro (⟨k, b1, hkey, hv | ⟨v, b2, hvalue, hk⟩⟩ | ⟨k, b1, v, b2, hkey, hvalue, hk, h⟩)
    · exact ⟨k, b1, hkey, panics_bind_iff.mpr (Or.inl hv)⟩
    · refine ⟨k, b1, hkey, panics_bind_iff.mpr (Or.inr ⟨v, b2, hvalue, ?_⟩)⟩
      exact panics_bind_iff.mpr (Or.inl (insert_panics_iff.mpr hk))
    · refine ⟨k, b1, hkey, panics_bind_iff.mpr (Or.inr ⟨v, b2, hvalue, ?_⟩)⟩
      rw [insert_of_hashes hk]
      exact h

/-- The loop of `Map::decode` panics when an odd count runs out, or at an entry.  By induction on
the count, two at a time.  A count of 1 is where the subtraction overflows; otherwise the first
entry panics, or it was inserted and the loop goes on behind it. -/
theorem entries_panics_iff : ∀ {n : ℕ} {map : HashMap K V} {b : Bytes},
    Panics (Map.entries key value n map) b ↔
      (∃ j map' b', n = 2 * j + 1 ∧ Map.entries key value (2 * j) map b = .ok (map', b')) ∨
      ∃ j map' b', 2 * j + 2 ≤ n ∧ Map.entries key value (2 * j) map b = .ok (map', b') ∧
        EntryPanics key value b'
  | 0, map, b => by
    refine iff_of_false (not_panics (r := pure map) inferInstance) ?_
    rintro (⟨j, -, -, hj, -⟩ | ⟨j, -, -, hj, -⟩) <;> omega
  | 1, map, b => by
    exact iff_of_true ⟨.subtractOverflow, rfl⟩ (Or.inl ⟨0, map, b, rfl, rfl⟩)
  | n + 2, map, b => by
    rw [entries_succ_panics_iff]
    constructor
    · rintro (h | ⟨k, b1, v, b2, hkey, hvalue, hk, h⟩)
      · exact Or.inr ⟨0, map, b, by omega, rfl, h⟩
      · have hstep : ∀ j map' b', Map.entries key value (2 * j) (map.insert k v hk) b2 =
            .ok (map', b') → Map.entries key value (2 * j + 2) map b = .ok (map', b') :=
          fun j map' b' hread => entries_eq_ok.mpr ⟨k, b1, v, b2, hkey, hvalue, hk, hread⟩
        rcases entries_panics_iff.mp h with ⟨j, map', b', hj, hread⟩ | ⟨j, map', b', hj, hread, he⟩
        · exact Or.inl ⟨j + 1, map', b', by omega, hstep j map' b' hread⟩
        · exact Or.inr ⟨j + 1, map', b', by omega, hstep j map' b' hread, he⟩
    · rintro (⟨j, map', b', hj, hread⟩ | ⟨j, map', b', hj, hread, he⟩)
      · obtain ⟨i, rfl⟩ : ∃ i, j = i + 1 := ⟨j - 1, by omega⟩
        obtain ⟨k, b1, v, b2, hkey, hvalue, hk, h⟩ := entries_eq_ok.mp hread
        refine Or.inr ⟨k, b1, v, b2, hkey, hvalue, hk, entries_panics_iff.mpr (Or.inl ?_)⟩
        exact ⟨i, map', b', by omega, h⟩
      · cases j with
        | zero =>
          simp only [Map.entries, Reader.pure_apply, Except.ok.injEq, Prod.mk.injEq] at hread
          rw [hread.2]
          exact Or.inl he
        | succ i =>
          obtain ⟨k, b1, v, b2, hkey, hvalue, hk, h⟩ := entries_eq_ok.mp hread
          refine Or.inr ⟨k, b1, v, b2, hkey, hvalue, hk, entries_panics_iff.mpr (Or.inr ?_)⟩
          exact ⟨i, map', b', by omega, h, he⟩

/-- **A map panics** by an odd count, or at one of its entries.  The count is read without a panic
in both forms, so the map panics where its loop does. -/
theorem map_panics_iff : Panics (Map.decodeWith key value) b ↔
    OddMap key value b ∨ ∃ b', EntryAt key value b b' ∧ EntryPanics key value b' := by
  have hloop : Panics (Map.decodeWith key value) b ↔ ∃ n head content, MapHead n head ∧
      b = head ++ content ∧ Panics (Map.entries key value n HashMap.empty) content := by
    rw [Map.decodeWith, afterCode_panics_iff]
    constructor
    · rintro ⟨c, tail, rfl, h⟩
      split at h
      · obtain ⟨n, content, hcount, h⟩ := panics_after_iff.mp h
        obtain ⟨size, count, rfl, rfl⟩ := count8_eq_ok hcount
        exact ⟨_, _, content, .map8 size count, rfl, h⟩
      · obtain ⟨n, content, hcount, h⟩ := panics_after_iff.mp h
        obtain ⟨size, count, rfl, hs, hc, rfl⟩ := count32_eq_ok hcount
        exact ⟨_, _, content, .map32 size count hs hc, by simp, h⟩
      · exact absurd h (not_panics inferInstance)
    · rintro ⟨n, head, content, hhead, rfl, h⟩
      cases hhead with
      | map8 size count =>
        refine ⟨.map8, size :: count :: content, rfl, ?_⟩
        exact panics_after_iff.mpr ⟨_, content, count8_bytes size count content, h⟩
      | map32 size count hs hc =>
        refine ⟨.map32, size ++ (count ++ content), by simp, ?_⟩
        exact panics_after_iff.mpr ⟨_, content, count32_bytes hs hc content, h⟩
  rw [hloop]
  constructor
  · rintro ⟨n, head, content, hhead, rfl, h⟩
    rcases entries_panics_iff.mp h with ⟨j, map, b', rfl, hread⟩ | ⟨j, map, b', hj, hread, he⟩
    · exact Or.inl ⟨j, head, content, map, b', hhead, rfl, hread⟩
    · exact Or.inr ⟨b', ⟨n, head, content, j, map, hhead, rfl, hj, hread⟩, he⟩
  · rintro (⟨j, head, content, map, b', hhead, rfl, hread⟩ |
      ⟨b', ⟨n, head, content, j, map, hhead, rfl, hj, hread⟩, he⟩)
    · exact ⟨_, head, content, hhead, rfl, entries_panics_iff.mpr
        (Or.inl ⟨j, map, b', rfl, hread⟩)⟩
    · exact ⟨n, head, content, hhead, rfl, entries_panics_iff.mpr
        (Or.inr ⟨j, map, b', hj, hread, he⟩)⟩

end Map

/-! ## 2. Values

With the decoder of values itself in the place of the items, a panic is passed on from the
inside to the outside, by a chain of steps that ends at a map. -/

section Chrono

variable [Chrono] {b : Bytes}

omit [Chrono] in
theorem described_panics_iff {value : AmqpReader Value} : Panics (Value.decodeDescribed value) b ↔
    ∃ tail d b', b = encode TypeCode.described ++ tail ∧ Descriptor.decode tail = .ok (d, b') ∧
      Panics value b' := by
  rw [Value.decodeDescribed, afterCode_panics_iff]
  constructor
  · rintro ⟨c, tail, rfl, h⟩
    split at h
    · obtain ⟨d, b', hd, h⟩ := panics_after_iff.mp h
      exact ⟨tail, d, b', rfl, hd, (panics_before_iff fun _ => inferInstance).mp h⟩
    · exact absurd h (not_panics inferInstance)
  · rintro ⟨tail, d, b', rfl, hd, h⟩
    refine ⟨.described, tail, rfl, panics_after_iff.mpr ⟨d, b', hd, ?_⟩⟩
    exact (panics_before_iff fun _ => inferInstance).mpr h

omit [Chrono] in
theorem collection_panics_iff {value : AmqpReader Value} :
    Panics (Value.decodeCollection value) b ↔
      Panics (AmqpList.decodeWith value) b ∨ Panics (Map.decodeWith value value) b := by
  rw [Value.decodeCollection, afterLookahead_panics_iff]
  constructor
  · rintro ⟨c, tail, -, h⟩
    split at h
    · exact Or.inl ((panics_before_iff fun _ => inferInstance).mp h)
    · exact Or.inl ((panics_before_iff fun _ => inferInstance).mp h)
    · exact Or.inl ((panics_before_iff fun _ => inferInstance).mp h)
    · exact Or.inr ((panics_before_iff fun _ => inferInstance).mp h)
    · exact Or.inr ((panics_before_iff fun _ => inferInstance).mp h)
    · exact absurd h (not_panics inferInstance)
  · rintro (h | h)
    · obtain ⟨c, tail, hb, hc⟩ := afterCode_panics_iff.mp h
      split at hc
      · exact absurd hc (not_panics inferInstance)
      · exact ⟨.list8, tail, hb, (panics_before_iff fun _ => inferInstance).mpr h⟩
      · exact ⟨.list32, tail, hb, (panics_before_iff fun _ => inferInstance).mpr h⟩
      · exact absurd hc (not_panics inferInstance)
    · obtain ⟨c, tail, hb, hc⟩ := afterCode_panics_iff.mp h
      split at hc
      · exact ⟨.map8, tail, hb, (panics_before_iff fun _ => inferInstance).mpr h⟩
      · exact ⟨.map32, tail, hb, (panics_before_iff fun _ => inferInstance).mpr h⟩
      · exact absurd hc (not_panics inferInstance)

/-- A value panics as a described value, as a list or as a map. -/
theorem value_panics_cases : Panics Value.decode b ↔
    Panics (Value.decodeDescribed Value.decode) b ∨ Panics (AmqpList.decodeWith Value.decode) b ∨
      Panics (Map.decodeWith Value.decode Value.decode) b := by
  rw [← collection_panics_iff]
  conv_lhs => rw [Value.decode_eq, Value.decodeWith]
  rw [afterLookahead_panics_iff]
  constructor
  · rintro ⟨c, tail, -, h⟩
    cases c with
    | described => exact Or.inl h
    | list0 | list8 | list32 | map8 | map32 | array8 | array32 => exact Or.inr h
    | _ => exact absurd h (not_panics inferInstance)
  · rintro (h | h)
    · obtain ⟨tail, -, -, hb, -⟩ := described_panics_iff.mp h
      exact ⟨.described, tail, hb, h⟩
    · obtain ⟨c, tail, hb, hc⟩ := afterLookahead_panics_iff.mp h
      split at hc
      · exact ⟨.list0, tail, hb, h⟩
      · exact ⟨.list8, tail, hb, h⟩
      · exact ⟨.list32, tail, hb, h⟩
      · exact ⟨.map8, tail, hb, h⟩
      · exact ⟨.map32, tail, hb, h⟩
      · exact absurd hc (not_panics inferInstance)

/-- The decoder of the value at `b` goes on to a value at `b'`. -/
inductive Value.Next : Bytes → Bytes → Prop where
  | described {d : Descriptor} {b b' : Bytes} (h : Descriptor.decode b = .ok (d, b')) :
      Next (Amqp.encode TypeCode.described ++ b) b'
  | item {b b' : Bytes} (h : ItemAt Value.decode b b') : Next b b'
  | key {b b' : Bytes} (h : EntryAt Value.decode Value.decode b b') : Next b b'
  | value {b b' b'' : Bytes} {k : Value} (h : EntryAt Value.decode Value.decode b b')
      (hk : Value.decode b' = .ok (k, b'')) : Next b b''

/-- The decoder of the value at `b` gets to a value at `b'`. -/
def Value.Reaches : Bytes → Bytes → Prop := Relation.ReflTransGen Value.Next

section BadMap

variable {K V : Type} [HashKey K] (key : AmqpReader K) (value : AmqpReader V)

/-- The map at `b` has an odd count, or a key with a map in it, and the decoder gets there. -/
def BadMap (b : Bytes) : Prop :=
  OddMap key value b ∨ ∃ b' k b1 v b2, EntryAt key value b b' ∧ key b' = .ok (k, b1) ∧
    value b1 = .ok (v, b2) ∧ HashKey.hashes k = false

end BadMap

theorem value_panics_step : Panics Value.decode b ↔
    BadMap Value.decode Value.decode b ∨ ∃ b', Value.Next b b' ∧ Panics Value.decode b' := by
  rw [value_panics_cases, described_panics_iff, list_panics_iff, map_panics_iff]
  constructor
  · rintro (⟨tail, d, b', rfl, hd, h⟩ | ⟨b', hitem, h⟩ | hodd | ⟨b', hentry, he⟩)
    · exact Or.inr ⟨b', .described hd, h⟩
    · exact Or.inr ⟨b', .item hitem, h⟩
    · exact Or.inl (Or.inl hodd)
    · rcases he with hk | ⟨k, b1, hk, hv | ⟨v, b2, hv, hhash⟩⟩
      · exact Or.inr ⟨b', .key hentry, hk⟩
      · exact Or.inr ⟨b1, .value hentry hk, hv⟩
      · exact Or.inl (Or.inr ⟨b', k, b1, v, b2, hentry, hk, hv, hhash⟩)
  · rintro ((hodd | ⟨b', k, b1, v, b2, hentry, hk, hv, hhash⟩) | ⟨b', hnext, h⟩)
    · exact Or.inr (Or.inr (Or.inl hodd))
    · exact Or.inr (Or.inr (Or.inr ⟨b', hentry, Or.inr ⟨k, b1, hk, Or.inr ⟨v, b2, hv, hhash⟩⟩⟩))
    · cases hnext with
      | described hd => exact Or.inl ⟨_, _, b', rfl, hd, h⟩
      | item hitem => exact Or.inr (Or.inl ⟨b', hitem, h⟩)
      | key hentry => exact Or.inr (Or.inr (Or.inr ⟨b', hentry, Or.inl h⟩))
      | value hentry hk =>
        exact Or.inr (Or.inr (Or.inr ⟨_, hentry, Or.inr ⟨_, b', hk, Or.inl h⟩⟩))

theorem ItemAt.length_lt {b b' : Bytes} (h : ItemAt Value.decode b b') : b'.length < b.length := by
  obtain ⟨n, head, content, k, items, hhead, rfl, -, hread⟩ := h
  have hle := (Shrinks.consumes _ _ _ hread).2
  have hpos : 0 < head.length := by cases hhead <;> simp
  rw [List.length_append]
  omega

theorem EntryAt.length_lt {b b' : Bytes} (h : EntryAt Value.decode Value.decode b b') :
    b'.length < b.length := by
  obtain ⟨n, head, content, j, map, hhead, rfl, -, hread⟩ := h
  have hle := (Shrinks.consumes _ _ _ hread).2
  have hpos : 0 < head.length := by cases hhead <;> simp
  rw [List.length_append]
  omega

theorem Value.Next.length_lt {b b' : Bytes} (h : Value.Next b b') : b'.length < b.length := by
  cases h with
  | described h =>
    have hle := (Shrinks.consumes _ _ _ h).2
    rw [List.length_append]
    simp
    omega
  | item h => exact h.length_lt
  | key h => exact h.length_lt
  | value h hk =>
    have hle := (Shrinks.consumes _ _ _ hk).2
    have hlt := h.length_lt
    omega

/-- **A value panics exactly when a bad map is reached from it.** -/
theorem value_panics_iff : ∀ {b : Bytes}, Panics Value.decode b ↔
    ∃ c, Value.Reaches b c ∧ BadMap Value.decode Value.decode c := by
  intro b
  constructor
  · -- the value that panics inside another one is shorter
    induction hn : b.length using Nat.strongRecOn generalizing b with
    | ind n ih =>
      intro h
      rcases value_panics_step.mp h with hbad | ⟨b', hnext, h'⟩
      · exact ⟨b, .refl, hbad⟩
      · have hlt := hnext.length_lt
        obtain ⟨c, hreach, hbad⟩ := ih b'.length (by omega) rfl h'
        exact ⟨c, .head hnext hreach, hbad⟩
  · rintro ⟨c, hreach, hbad⟩
    induction hreach using Relation.ReflTransGen.head_induction_on with
    | refl => exact value_panics_step.mpr (Or.inl hbad)
    | head hnext _ ih => exact value_panics_step.mpr (Or.inr ⟨_, hnext, ih⟩)

/-! ## 3. Sections and messages

A header and properties have no maps and never panic.  The other sections panic behind their
descriptor, and a message in a section that its loop gets to. -/

omit [Chrono] in
theorem fields_noPanic {T : Type} {f : ℕ → T → AmqpReader T} (hf : ∀ i x, NoPanic (f i x))
    (count idx : ℕ) (dest : T) : NoPanic (AmqpList.fields f count idx dest) := by
  induction count generalizing idx dest with
  | zero => exact inferInstanceAs (NoPanic (pure dest))
  | succ count ih => exact (hf idx dest).bind fun x => ih (idx + 1) x

omit [Chrono] in
theorem decodeWithFields_noPanic {T : Type} {f : ℕ → T → AmqpReader T}
    (hf : ∀ i x, NoPanic (f i x)) (dest : T) : NoPanic (AmqpList.decodeWithFields f dest) := by
  refine Avoids.bind inferInstance fun c => ?_
  split
  · infer_instance
  · exact Avoids.bind inferInstance fun n => fields_noPanic hf n 0 dest
  · exact Avoids.bind inferInstance fun n => fields_noPanic hf n 0 dest
  · infer_instance

instance {α T : Type} [AmqpDecoder α] [Progress α] [Plain α] (set : Option α → T) :
    NoPanic (listField set) := inferInstanceAs (NoPanic (decodeAs set))

instance : NoPanic Header.decode := by
  refine Avoids.bind inferInstance fun d => ?_
  split
  · refine decodeWithFields_noPanic (fun i x => ?_) _
    unfold listDecoderHeader
    split <;> infer_instance
  · infer_instance

instance : NoPanic Properties.decode := by
  refine Avoids.bind inferInstance fun d => ?_
  split
  · refine decodeWithFields_noPanic (fun i x => ?_) _
    unfold listDecoderProperties
    split <;> infer_instance
  · infer_instance

section PlainKeys

variable {K V : Type} [HashKey K] {key : AmqpReader K} {value : AmqpReader V}

omit [Chrono] in
/-- A map whose keys are plain and can all be hashed. -/
theorem plainMap_panics_iff [hk : NoPanic key] (hh : ∀ k : K, HashKey.hashes k = true) :
    Panics (Map.decodeWith key value) b ↔ OddMap key value b ∨
      ∃ b' k b1, EntryAt key value b b' ∧ key b' = .ok (k, b1) ∧ Panics value b1 := by
  rw [map_panics_iff]
  refine or_congr_right ⟨?_, ?_⟩
  · rintro ⟨b', hentry, h | ⟨k, b1, hkey, hv | ⟨v, b2, -, hhash⟩⟩⟩
    · exact absurd h (not_panics hk)
    · exact ⟨b', k, b1, hentry, hkey, hv⟩
    · exact absurd hhash (by rw [hh k]; decide)
  · rintro ⟨b', k, b1, hentry, hkey, hv⟩
    exact ⟨b', hentry, Or.inr ⟨k, b1, hkey, Or.inl hv⟩⟩

end PlainKeys

/-- The decoder of the section at `b` gets to a map it panics on. -/
inductive SectionTrap (b : Bytes) : Prop where
  | amqpValue {b' c : Bytes} (hd : Descriptor.decode b = .ok (messageBodyValue, b'))
      (hreach : Value.Reaches b' c) (hbad : BadMap Value.decode Value.decode c)
  | amqpSequence {b' b1 c : Bytes} (hd : Descriptor.decode b = .ok (messageBodySequence, b'))
      (hitem : ItemAt Value.decode b' b1) (hreach : Value.Reaches b1 c)
      (hbad : BadMap Value.decode Value.decode c)
  | applicationProperties {b' : Bytes}
      (hd : Descriptor.decode b = .ok (messageApplicationProperties, b'))
      (hodd : OddMap (decode : AmqpReader String) (decode : AmqpReader SimpleValue) b')
  | annotations {b' : Bytes} {d : Descriptor}
      (hmem : d ∈ [messageAnnotations, messageDeliveryAnnotations, messageFooter])
      (hd : Descriptor.decode b = .ok (d, b'))
      (hodd : OddMap (decode : AmqpReader AnnonationKey) Value.decode b')
  | annotationEntry {b' b1 b2 c : Bytes} {d : Descriptor} {k : AnnonationKey}
      (hmem : d ∈ [messageAnnotations, messageDeliveryAnnotations, messageFooter])
      (hd : Descriptor.decode b = .ok (d, b'))
      (hentry : EntryAt (decode : AmqpReader AnnonationKey) Value.decode b' b1)
      (hk : decode b1 = .ok (k, b2)) (hreach : Value.Reaches b2 c)
      (hbad : BadMap Value.decode Value.decode c)

omit [Chrono] in
theorem decodeRemaining_panics_iff {α : Type} [AmqpDecoder α] {f : α → MessageSection}
    {d : Descriptor} {b' : Bytes} (hd : Descriptor.decode b = .ok (d, b')) :
    Panics (decodeRemaining f) b ↔ Panics (decode : AmqpReader α) b' := by
  rw [decodeRemaining, panics_after_iff]
  constructor
  · rintro ⟨d', mid, hd', h⟩
    rw [hd] at hd'
    simp only [Except.ok.injEq, Prod.mk.injEq] at hd'
    obtain ⟨rfl, rfl⟩ := hd'
    exact (panics_before_iff fun _ => inferInstance).mp h
  · intro h
    exact ⟨d, b', hd, (panics_before_iff fun _ => inferInstance).mpr h⟩

theorem annotations_panics_iff : Panics (decode : AmqpReader Annotations) b ↔
    OddMap (decode : AmqpReader AnnonationKey) Value.decode b ∨
      ∃ b' b1 c, ∃ k : AnnonationKey, EntryAt (decode : AmqpReader AnnonationKey) Value.decode b b' ∧
        decode b' = .ok (k, b1) ∧ Value.Reaches b1 c ∧ BadMap Value.decode Value.decode c := by
  have hkey : NoPanic (decode : AmqpReader AnnonationKey) := Plain.noPanic
  refine (plainMap_panics_iff fun _ => rfl).trans (or_congr_right ?_)
  constructor
  · rintro ⟨b', k, b1, hentry, hk, hv⟩
    obtain ⟨c, hreach, hbad⟩ := value_panics_iff.mp hv
    exact ⟨b', b1, c, k, hentry, hk, hreach, hbad⟩
  · rintro ⟨b', b1, c, k, hentry, hk, hreach, hbad⟩
    exact ⟨b', k, b1, hentry, hk, value_panics_iff.mpr ⟨c, hreach, hbad⟩⟩

theorem sequence_panics_iff : Panics (decode : AmqpReader AmqpList) b ↔
    ∃ b' c, ItemAt Value.decode b b' ∧ Value.Reaches b' c ∧
      BadMap Value.decode Value.decode c := by
  refine (panics_before_iff fun _ => inferInstance).trans (list_panics_iff.trans ?_)
  constructor
  · rintro ⟨b', hitem, h⟩
    obtain ⟨c, hreach, hbad⟩ := value_panics_iff.mp h
    exact ⟨b', c, hitem, hreach, hbad⟩
  · rintro ⟨b', c, hitem, hreach, hbad⟩
    exact ⟨b', hitem, value_panics_iff.mpr ⟨c, hreach, hbad⟩⟩

theorem applicationProperties_panics_iff : Panics (decode : AmqpReader ApplicationProperties) b ↔
    OddMap (decode : AmqpReader String) (decode : AmqpReader SimpleValue) b := by
  have hkey : NoPanic (decode : AmqpReader String) := Plain.noPanic
  refine (plainMap_panics_iff fun _ => rfl).trans (or_iff_left ?_)
  rintro ⟨b', k, b1, -, -, hv⟩
  exact not_panics Plain.noPanic hv

/-- The descriptor chooses the decoder.  A header, properties and data never panic; what is left are
the annotations, the application properties, the sequence and the value. -/
theorem trap_of_section_panics (hsec : Panics MessageSection.decode b) : SectionTrap b := by
  obtain ⟨d, mid, hlook, h⟩ := panics_after_iff.mp hsec
  obtain ⟨rfl, b', hd⟩ := Reader.lookahead_eq_ok hlook
  have hannotations : d ∈ [messageAnnotations, messageDeliveryAnnotations, messageFooter] →
      Panics (decode : AmqpReader Annotations) b' → SectionTrap mid := by
    intro hmem hann
    rcases annotations_panics_iff.mp hann with hodd | ⟨b1, b2, c, k, hentry, hk, hreach, hbad⟩
    · exact .annotations hmem hd hodd
    · exact .annotationEntry hmem hd hentry hk hreach hbad
  by_cases hhead : d = messageHeader
  · rw [if_pos hhead] at h
    exact absurd ((panics_before_iff fun _ => inferInstance).mp h)
      (not_panics (inferInstanceAs (NoPanic Header.decode)))
  rw [if_neg hhead] at h
  by_cases hdata : d = messageBodyData
  · rw [if_pos hdata] at h
    exact absurd ((decodeRemaining_panics_iff hd).mp h) (not_panics Plain.noPanic)
  rw [if_neg hdata] at h
  by_cases hprop : d = messageProperties
  · rw [if_pos hprop] at h
    exact absurd ((panics_before_iff fun _ => inferInstance).mp h)
      (not_panics (inferInstanceAs (NoPanic Properties.decode)))
  rw [if_neg hprop] at h
  by_cases hval : d = messageBodyValue
  · rw [if_pos hval] at h
    subst hval
    obtain ⟨c, hreach, hbad⟩ := value_panics_iff.mp ((decodeRemaining_panics_iff hd).mp h)
    exact .amqpValue hd hreach hbad
  rw [if_neg hval] at h
  by_cases happ : d = messageApplicationProperties
  · rw [if_pos happ] at h
    subst happ
    exact .applicationProperties hd
      (applicationProperties_panics_iff.mp ((decodeRemaining_panics_iff hd).mp h))
  rw [if_neg happ] at h
  by_cases hmsg : d = messageAnnotations
  · rw [if_pos hmsg] at h
    exact hannotations (by simp [hmsg]) ((decodeRemaining_panics_iff hd).mp h)
  rw [if_neg hmsg] at h
  by_cases hseq : d = messageBodySequence
  · rw [if_pos hseq] at h
    subst hseq
    obtain ⟨b1, c, hitem, hreach, hbad⟩ :=
      sequence_panics_iff.mp ((decodeRemaining_panics_iff hd).mp h)
    exact .amqpSequence hd hitem hreach hbad
  rw [if_neg hseq] at h
  by_cases hdel : d = messageDeliveryAnnotations
  · rw [if_pos hdel] at h
    exact hannotations (by simp [hdel]) ((decodeRemaining_panics_iff hd).mp h)
  rw [if_neg hdel] at h
  by_cases hfoot : d = messageFooter
  · rw [if_pos hfoot] at h
    exact hannotations (by simp [hfoot]) ((decodeRemaining_panics_iff hd).mp h)
  rw [if_neg hfoot] at h
  exact absurd h (not_panics inferInstance)

theorem annotations_section_panics {d : Descriptor} {b' : Bytes}
    (hmem : d ∈ [messageAnnotations, messageDeliveryAnnotations, messageFooter])
    (hd : Descriptor.decode b = .ok (d, b')) (h : Panics (decode : AmqpReader Annotations) b') :
    Panics MessageSection.decode b := by
  refine panics_after_iff.mpr ⟨d, b, Reader.lookahead_of_ok hd, ?_⟩
  simp only [List.mem_cons, List.not_mem_nil, or_false] at hmem
  rcases hmem with rfl | rfl | rfl <;> exact (decodeRemaining_panics_iff hd).mpr h

/-- **A section panics exactly when a bad map is reached behind its descriptor.** -/
theorem section_panics_iff : Panics MessageSection.decode b ↔ SectionTrap b := by
  refine ⟨trap_of_section_panics, fun h => ?_⟩
  cases h with
  | amqpValue hd hreach hbad =>
    have h := value_panics_iff.mpr ⟨_, hreach, hbad⟩
    exact panics_after_iff.mpr
      ⟨_, b, Reader.lookahead_of_ok hd, (decodeRemaining_panics_iff hd).mpr h⟩
  | amqpSequence hd hitem hreach hbad =>
    have h := sequence_panics_iff.mpr ⟨_, _, hitem, hreach, hbad⟩
    exact panics_after_iff.mpr
      ⟨_, b, Reader.lookahead_of_ok hd, (decodeRemaining_panics_iff hd).mpr h⟩
  | applicationProperties hd hodd =>
    have h := applicationProperties_panics_iff.mpr hodd
    exact panics_after_iff.mpr
      ⟨_, b, Reader.lookahead_of_ok hd, (decodeRemaining_panics_iff hd).mpr h⟩
  | annotations hmem hd hodd =>
    exact annotations_section_panics hmem hd (annotations_panics_iff.mpr (Or.inl hodd))
  | annotationEntry hmem hd hentry hk hreach hbad =>
    exact annotations_section_panics hmem hd
      (annotations_panics_iff.mpr (Or.inr ⟨_, _, _, _, hentry, hk, hreach, hbad⟩))

/-- `Message::decode` gets to a section at `c`: the sections before it have been read. -/
inductive SectionAt : Bytes → Bytes → Prop where
  | here {b : Bytes} (h : b ≠ []) : SectionAt b b
  | next {b b' c : Bytes} {sec : MessageSection} (h : MessageSection.decode b = .ok (sec, b'))
      (hc : SectionAt b' c) : SectionAt b c

theorem message_panics_step {m : Message} : Panics m.decodeFrom b ↔ b ≠ [] ∧
    (Panics MessageSection.decode b ∨
      ∃ sec b', MessageSection.decode b = .ok (sec, b') ∧ Panics (m.add sec).decodeFrom b') := by
  rw [Panics, Message.decodeFrom_eq]
  cases b with
  | nil => simp
  | cons x b =>
    change Panics (Message.round m >>= Message.decodeFrom) (x :: b) ↔ _
    rw [Message.round, bind_assoc, panics_bind_iff]
    simp only [pure_bind, ne_eq, reduceCtorEq, not_false_eq_true, true_and]

/-- A message panics in one of its sections. -/
theorem message_panics_iff : ∀ {b : Bytes} (m : Message), Panics m.decodeFrom b ↔
    ∃ c, SectionAt b c ∧ Panics MessageSection.decode c := by
  intro b m
  constructor
  · induction hn : b.length using Nat.strongRecOn generalizing b m with
    | ind n ih =>
      intro h
      obtain ⟨hne, hsec | ⟨sec, b', hread, h'⟩⟩ := message_panics_step.mp h
      · exact ⟨b, .here hne, hsec⟩
      · have hlt := (messageSection_consumes _ _ _ hread).2
        obtain ⟨c, hat, hpanics⟩ := ih b'.length (by omega) _ rfl h'
        exact ⟨c, .next hread hat, hpanics⟩
  · rintro ⟨c, hat, hpanics⟩
    induction hat generalizing m with
    | here hne => exact message_panics_step.mpr ⟨hne, Or.inl hpanics⟩
    | next hread hat ih =>
      refine message_panics_step.mpr ⟨?_, Or.inr ⟨_, _, hread, ih _ hpanics⟩⟩
      rintro rfl
      exact absurd (messageSection_consumes _ _ _ hread).2 (Nat.not_succ_le_zero _)

/-- **A message is decoded without a panic exactly when no section of it gets the decoder to a bad
map**: a map with an odd count, or a map with a key that has a map in it.

A message panics in one of its sections, at a point to which the sections before it have led
(`message_panics_iff`), and a section behind its descriptor (`section_panics_iff`). -/
theorem message_noPanic_iff (b : Bytes) : (∀ p, Message.decode b ≠ .error (.panic p)) ↔
    ∀ c, SectionAt b c → ¬ SectionTrap c := by
  have h := message_panics_iff (b := b) {}
  simp only [section_panics_iff] at h
  constructor
  · intro hno c hat htrap
    obtain ⟨p, hp⟩ := h.mpr ⟨c, hat, htrap⟩
    exact hno p hp
  · intro hno p hp
    obtain ⟨c, hat, htrap⟩ := h.mp ⟨p, hp⟩
    exact hno c hat htrap

end Chrono

/-- A body value that is a map with a count of 1, and one that is a map with an empty map as its
only key. -/
theorem oddMap_mapKey_panic : letI := Chrono.range
    Message.decode [0x00, 0x53, 0x77, 0xc1, 1, 1] = .error (.panic .subtractOverflow) ∧
      Message.decode [0x00, 0x53, 0x77, 0xc1, 5, 2, 0xc1, 1, 0, 0x40] =
        .error (.panic .unimplementedHash) := ⟨rfl, rfl⟩

end RabbitMqStream.Amqp
