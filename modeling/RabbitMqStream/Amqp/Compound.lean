/-
# Compound values: the size and the count in front of them

A list or a map is a constructor, a size, a count and its content.  There are two forms: with
one byte for the size and the count, and with four bytes for each.  The size counts the bytes
behind the size field, so that a reader can skip a value it does not know; the count is the
number of elements, keys and values of a map counted apart.  `Framed` says just that.

What the encoders write:

* **Maps** are framed in both forms, and read back (`map_framed_roundTrips`).  The one-byte form
  casts the count to a byte; it fits, because the content is small and every key and every value
  takes a byte of it.
* **Lists** and **properties** put the constructor of the one-byte form in front of both: they
  are framed as long as their content takes at most 254 bytes (`listLike_framed_iff`).
* **Headers** announce three bytes more than there are, in the one-byte form, which is the only
  one a header needs.  None is framed.

**The argument.**  Whether the size is right is a question about what is put in front of a
content, and it is answered once for all of them: the size has to be the length of the content and
a byte or four for the count, and there must not be more elements than fit into the count
(`framed_frame`).  The rest is arithmetic on the bounds at which the encoders change from one form
to the other.  For reading a map back nothing of this is needed but the count, since the decoder
drops the size.  Its loop takes one entry from the front each time, and inserting them one by one
into the map that is there gives the map, as no key comes twice.
-/
import RabbitMqStream.Amqp.Leaves

namespace RabbitMqStream.Amqp

open Wire

/-! ## 1. Frames

What is in front of a content, with no regard to what the content is: a constructor, a size, a
count, in the narrow or the wide form. -/

/-- A compound with `count` elements: `code8`, a size and a count of one byte and the content, or
`code32`, a size and a count of four bytes and the content.  The size is the number of bytes
behind the size field. -/
inductive Framed (code8 code32 : TypeCode) (count : ℕ) : Bytes → Prop where
  | narrow (size number : UInt8) (content : Bytes) (hsize : size.toNat = 1 + content.length)
      (hcount : number.toNat = count) :
      Framed code8 code32 count (code8.toU8 :: size :: number :: content)
  | wide (size number content : Bytes) (hs : size.length = 4) (hn : number.length = 4)
      (hsize : ofBE size = 4 + content.length) (hcount : ofBE number = count) :
      Framed code8 code32 count (code32.toU8 :: (size ++ number ++ content))

/-- The content takes the wide form exactly when it is longer than 254 bytes. -/
theorem isWide_iff {contentSize : UInt32} {n : ℕ} (h : contentSize = UInt32.ofNat n)
    (hlt : n + 1 < 2 ^ 32) : Compound.isWide contentSize ↔ 254 < n := by
  rw [Compound.isWide, gt_iff_lt, UInt32.lt_iff_toNat_lt, h, UInt32.toNat_add,
    UInt32.toNat_ofNat']
  simp only [UInt32.reduceToNat]
  omega

theorem toBE_one (n : ℕ) : toBE 1 n = [UInt8.ofNat n] := by simp [toBE]

section Frame

variable {code8 code32 : TypeCode} {contentSize : UInt32} {content : Bytes} {count : ℕ}

/-- **A frame is right** when the size it is given is the length of the content and there are no
more elements than bytes.  What the frame announces is four more than the content in the wide form
and one more in the narrow one, as the size counts the bytes of the count.  The count fits because
there are no more elements than bytes. -/
theorem framed_frame (hsize : contentSize = UInt32.ofNat content.length)
    (hlt : (Compound.frame code8 code32 contentSize count ++ content).length < 2 ^ 32)
    (hcount : count ≤ content.length) :
    Framed code8 code32 count (Compound.frame code8 code32 contentSize count ++ content) := by
  rw [List.length_append] at hlt
  have hframe : 3 ≤ (Compound.frame code8 code32 contentSize count).length := by
    unfold Compound.frame
    split <;> simp
  have hwide := isWide_iff hsize (by omega)
  unfold Compound.frame at hlt hframe ⊢
  by_cases hw : Compound.isWide contentSize
  · rw [if_pos hw] at hlt ⊢
    simp only [List.length_append, encode_code, List.length_singleton, toBE_length] at hlt
    have hfield : (contentSize + 4).toNat = content.length + 4 := by
      simp only [hsize, UInt32.toNat_add, UInt32.toNat_ofNat', UInt32.reduceToNat]
      omega
    have h : Framed code8 code32 count
        (code32.toU8 :: (toBE 4 (contentSize + 4).toNat ++ toBE 4 count ++ content)) :=
      .wide _ _ content (toBE_length _ _) (toBE_length _ _)
        (by rw [ofBE_toBE, hfield]; omega) (by rw [ofBE_toBE]; omega)
    simpa only [encode_code, List.append_assoc, List.cons_append, List.nil_append] using h
  · rw [if_neg hw]
    rw [hwide] at hw
    have hfield : (contentSize + 1).toNat = content.length + 1 := by
      simp only [hsize, UInt32.toNat_add, UInt32.toNat_ofNat', UInt32.reduceToNat]
      omega
    have h : Framed code8 code32 count (code8.toU8 :: UInt8.ofNat (contentSize + 1).toNat ::
        UInt8.ofNat count :: content) :=
      .narrow _ _ content (by rw [UInt8.toNat_ofNat', hfield]; omega)
        (by rw [UInt8.toNat_ofNat']; omega)
    simpa only [encode_code, toBE_one, List.append_assoc, List.cons_append, List.nil_append]
      using h

/-- The size is read and dropped, the count is read back. -/
theorem count8_encode (size : ℕ) (h : count < 256) (rest : Bytes) :
    Compound.count8 (toBE 1 size ++ (toBE 1 count ++ rest)) = .ok (count, rest) := by
  obtain ⟨number, hnumber, hread⟩ := readU8_length h rest
  rw [Compound.count8, Reader.bind_of_ok (readU8_of_length (toBE_length 1 size) _),
    Reader.bind_of_ok hread, hnumber, Reader.pure_apply]

/-- Four bytes of a size, taken for a size, a count and two bytes of content. -/
theorem count8_size (n : ℕ) (rest : Bytes) :
    Compound.count8 (toBE 4 n ++ rest) = .ok (n / 65536 % 256, toBE 2 n ++ rest) := by
  have hsplit : toBE 4 n = toBE 1 (n / 256 ^ 3) ++ (toBE 1 (n / 65536 % 256) ++ toBE 2 n) := by
    have hbyte : UInt8.ofNat (n / 65536 % 256) = UInt8.ofNat (n / 256 ^ 2) := by
      apply UInt8.toNat_inj.mp
      simp
    rw [toBE_one, toBE_one, hbyte]
    rfl
  rw [hsplit, List.append_assoc, List.append_assoc]
  exact count8_encode _ (Nat.mod_lt _ (by decide)) _

theorem count32_encode (size : ℕ) (h : count < 2 ^ 32) (rest : Bytes) :
    Compound.count32 (toBE 4 size ++ (toBE 4 count ++ rest)) = .ok (count, rest) := by
  obtain ⟨number, hnumber, hread⟩ := readU32_length h rest
  rw [Compound.count32, Reader.bind_of_ok (readU32_of_length (toBE_length 4 size) _),
    Reader.bind_of_ok hread, hnumber, Reader.pure_apply]

/-- A decoder that reads the frame of a compound and goes on with the count. -/
theorem decode_frame {α : Type} {f : TypeCode → AmqpReader α} {g : ℕ → AmqpReader α}
    (h8 : f code8 = Compound.count8 >>= g) (h32 : f code32 = Compound.count32 >>= g)
    (hnarrow : ¬ Compound.isWide contentSize → count < 256) (hcount : count < 2 ^ 32)
    (rest : Bytes) :
    (TypeCode.decode >>= f) (Compound.frame code8 code32 contentSize count ++ rest) =
      g count rest := by
  unfold Compound.frame
  split
  · rw [List.append_assoc, List.append_assoc, afterCode_encode, h32,
      Reader.bind_of_ok (count32_encode _ hcount rest)]
  · rename_i hw
    rw [List.append_assoc, List.append_assoc, afterCode_encode, h8,
      Reader.bind_of_ok (count8_encode _ (hnarrow hw) rest)]

end Frame

/-! ## 2. Maps

The decoder inserts the entries into a map, in the order in which they were written.  Whatever
order that was, the map that comes out has the same entries. -/

section Map

variable {K V : Type} [HashKey K]

/-- **The loop of `Map::decode`** on the entries of a map, from a map that already has some: two off
the count for each, and the entries come back in their order.  By induction on the entries, with the
map so far as the accumulator.  As the keys are all different, each insertion puts its entry at the
end of the map. -/
theorem entries_decode {key : AmqpReader K} {value : AmqpReader V} {ek : K → Bytes}
    {ev : V → Bytes} (rest : Bytes) : ∀ (es : List (K × V)) (m : HashMap K V),
    (∀ e ∈ es, (∀ r, key (ek e.1 ++ r) = .ok (e.1, r)) ∧
      ∀ r, value (ev e.2 ++ r) = .ok (e.2, r)) →
    (m.entries ++ es).Pairwise (fun a b => HashKey.eq a.1 b.1 = false) →
    (∀ e ∈ es, HashKey.hashes e.1 = true) →
      ∃ m', Map.entries key value (es.length * 2) m
          (es.flatMap (fun e => ek e.1 ++ ev e.2) ++ rest) = .ok (m', rest) ∧
        m'.entries = m.entries ++ es
  | [], m, _, _, _ => ⟨m, rfl, (List.append_nil _).symm⟩
  | (k, v) :: es, m, hread, hdistinct, hhash => by
    obtain ⟨hk, hv⟩ := hread (k, v) (by simp)
    have hkey : HashKey.hashes k = true := hhash (k, v) (by simp)
    have hnew : ∀ e ∈ m.entries, HashKey.eq e.1 k = false := fun e he =>
      (List.pairwise_append.mp hdistinct).2.2 e he (k, v) (by simp)
    have hentries : (m.insert k v hkey).entries = m.entries ++ [(k, v)] :=
      HashMap.insertEntry_of_new hnew
    obtain ⟨m', hm', hentries'⟩ := entries_decode rest es (m.insert k v hkey)
      (fun e he => hread e (by simp [he]))
      (by rw [hentries, List.append_assoc]; exact hdistinct)
      (fun e he => hhash e (by simp [he]))
    refine ⟨m', ?_, by rw [hentries', hentries, List.append_assoc]; rfl⟩
    have hcount : ((k, v) :: es).length * 2 = es.length * 2 + 2 := by
      rw [List.length_cons]; omega
    have hinsert : ∀ b, Map.insert m k v b = .ok (m.insert k v hkey, b) := by
      intro b
      rw [Map.insert, dif_pos hkey, Reader.pure_apply]
    rw [hcount, Map.entries, List.flatMap_cons, List.append_assoc, List.append_assoc,
      Reader.bind_of_ok (hk _), Reader.bind_of_ok (hv _), Reader.bind_of_ok (hinsert _)]
    exact hm'

variable [AmqpEncoder K] [AmqpEncoder V]

/-- A value with a size that is right and is not zero. -/
structure Sized {α : Type} [AmqpEncoder α] (x : α) : Prop where
  exact : Exact x
  pos : 1 ≤ (encodedSize x).toNat

theorem Sized.length_pos {α : Type} [AmqpEncoder α] {x : α} (h : Sized x) :
    1 ≤ (encode x).length := by
  have hexact : (encodedSize x).toNat = (encode x).length := h.exact
  rw [← hexact]
  exact h.pos

theorem map_contentSize {m : HashMap K V} (h : ∀ e ∈ m.entries, Sized e.1 ∧ Sized e.2) :
    Map.contentSize m =
      UInt32.ofNat (m.entries.flatMap (fun e => encode e.1 ++ encode e.2)).length := by
  have hcontent := announces_entries m.entries (j := fun _ => 0) (k := fun _ => 0)
    (fun e he => ⟨(h e he).1.exact.announces, (h e he).2.exact.announces⟩)
  rw [List.sum_eq_zero_iff_forall_eq_nat.mpr (by simp)] at hcontent
  exact hcontent.eq_ofNat

omit [HashKey K] in
/-- Where every key and every value takes a byte, there are no more of them than bytes. -/
theorem entries_le_length : ∀ (es : List (K × V)),
    (∀ e ∈ es, 1 ≤ (encode e.1).length ∧ 1 ≤ (encode e.2).length) →
      es.length * 2 ≤ (es.flatMap (fun e => encode e.1 ++ encode e.2)).length := by
  intro es
  induction es with
  | nil =>
    intro _
    exact Nat.le_refl _
  | cons e es ih =>
    intro h
    obtain ⟨hk, hv⟩ := h e (by simp)
    have hes := ih (fun x hx => h x (by simp [hx]))
    rw [List.flatMap_cons, List.length_append, List.length_append, List.length_cons]
    omega

variable [AmqpDecoder K] [AmqpDecoder V]

/-- **A map is framed and reads back**, in whatever order it iterates over its entries: the size
is the number of bytes behind it, the count is twice the number of entries, and decoding gives
the map.

The encoder and the decoder of a map are loops over the same entries in the same order; the keys
are all different, so no entry replaces another. -/
theorem map_framed_roundTrips (m : HashMap K V) (hlt : (encode m).length < 2 ^ 32)
    (hread : ∀ e ∈ m.entries, RoundTrips e.1 ∧ RoundTrips e.2)
    (hsize : ∀ e ∈ m.entries, Sized e.1 ∧ Sized e.2) :
    Framed .map8 .map32 (m.len * 2) (encode m) ∧ RoundTrips m := by
  have hcontent := map_contentSize hsize
  have hcount := entries_le_length m.entries
    (fun e he => ⟨(hsize e he).1.length_pos, (hsize e he).2.length_pos⟩)
  refine ⟨framed_frame hcontent hlt hcount, fun rest => ?_⟩
  have henc : encode m = Map.frame (Map.contentSize m) m.len ++
      m.entries.flatMap (fun e => encode e.1 ++ encode e.2) := rfl
  rw [henc, List.length_append] at hlt
  have hframe : 3 ≤ (Map.frame (Map.contentSize m) m.len).length := by
    unfold Map.frame Compound.frame
    split <;> simp
  have hwide := isWide_iff hcontent (by omega)
  obtain ⟨m', hm', hentries⟩ := entries_decode rest m.entries HashMap.empty hread
    m.distinct m.hashed
  have hlen : m.len * 2 = m.entries.length * 2 := rfl
  have hmap : m' = m := HashMap.ext_entries hentries
  rw [hmap] at hm'
  rw [henc, List.append_assoc, ← hm']
  change Map.decodeWith decode decode _ = _
  unfold Map.decodeWith Map.frame
  refine decode_frame (g := fun count => Map.entries (decode : AmqpReader K)
    (decode : AmqpReader V) count HashMap.empty) ?_ ?_ (fun hw => ?_) ?_ _
  · rfl
  · rfl
  · rw [hwide] at hw
    omega
  · omega

end Map

/-- Application properties with two entries. -/
def sampleProperties : ApplicationProperties :=
  (HashMap.empty.insert "id" (.uint 300) rfl).insert "shard" (.ulong 7) rfl

/-- The rule at application properties with two entries. -/
theorem map_framed_roundTrips_sample : letI := Chrono.range
    Framed .map8 .map32 4 (encode sampleProperties) ∧ RoundTrips sampleProperties := by
  let _ := Chrono.range
  have hentries : ∀ e ∈ sampleProperties.entries,
      e = ("id", .uint 300) ∨ e = ("shard", .ulong 7) := by decide
  refine map_framed_roundTrips sampleProperties (by decide) (fun e he => ?_) (fun e he => ?_)
  · rcases hentries e he with rfl | rfl
    · exact ⟨string_roundTrips (by decide), simple_uint_roundTrips 300⟩
    · exact ⟨string_roundTrips (by decide), simple_ulong_roundTrips 7⟩
  · rcases hentries e he with rfl | rfl
    · exact ⟨⟨by decide, by decide⟩, ⟨by decide, by decide⟩⟩
    · exact ⟨⟨by decide, by decide⟩, ⟨by decide, by decide⟩⟩

/-! ## 3. Lists, headers and properties

Three encoders that share the slip: the constructor of the narrow form in front of the wide one.
What keeps a list right is that its content is short, and a header is never right for another
reason. -/

/-- Every value takes at least the byte of its type code. -/
theorem value_length_pos (v : Value) : 1 ≤ (encode v).length := by
  cases v with
  | simple s =>
    obtain ⟨c, tail, h, -⟩ := simple_code s
    change 1 ≤ (encode s).length
    rw [h]
    simp
  | list items =>
    rw [encode_list, AmqpList.frame, Compound.frame]
    split <;> simp
  | map entries =>
    rw [encode_map, Map.frame, Compound.frame]
    split <;> simp
  | described d v =>
    rw [encode_described]
    simp

theorem items_le_length (items : List Value) :
    items.length ≤ (items.flatMap encode).length := by
  induction items with
  | nil => exact Nat.le_refl _
  | cons v vs ih =>
    have hv := value_length_pos v
    rw [List.flatMap_cons, List.length_append, List.length_cons]
    omega

/-- A value that is written as a list of fields. -/
inductive ListLike : Type where
  | list (l : AmqpList)
  | header (h : Header)
  | properties (p : Properties)

namespace ListLike

/-- What the encoder writes. -/
def encoded : ListLike → Bytes
  | .list l => encode l
  | .header h => encode h
  | .properties p => encode p

/-- The elements have the right sizes. -/
def ElementsExact : ListLike → Prop
  | .list l => ∀ v ∈ l.items, Exact v
  | .header h => h.LeavesExact
  | .properties p => p.LeavesExact

/-- The bytes behind the descriptor, if there is one, are a list with the right size and the
right count in front. -/
def SizeFields : ListLike → Prop
  | .list l => Framed .list8 .list32 l.items.length (encode l)
  | .header h => ∃ body, encode h = encode messageHeader ++ body ∧ Framed .list8 .list32 5 body
  | .properties p =>
    ∃ body, encode p = encode messageProperties ++ body ∧ Framed .list8 .list32 13 body

/-- The elements take at most 254 bytes.  No header counts. -/
def Narrow : ListLike → Prop
  | .list l => (l.items.flatMap encode).length ≤ 254
  | .header _ => False
  | .properties p => p.encodeFields.length ≤ 254

end ListLike

/-- Behind the constructor of the one-byte form there is room for 255 bytes. -/
theorem Framed.length_le {count : ℕ} {tail : Bytes}
    (h : Framed .list8 .list32 count (TypeCode.list8.toU8 :: tail)) : tail.length ≤ 256 := by
  cases h with
  | narrow size number content hsize hcount =>
    have := size.toNat_lt
    simp only [List.length_cons]
    omega

/-- The bytes of the wide form behind the constructor of the narrow one. -/
theorem not_framed_wide {n count : ℕ} {content : Bytes} (h : 249 ≤ content.length) :
    ¬ Framed .list8 .list32 count
      (encode TypeCode.list8 ++ toBE 4 n ++ toBE 4 count ++ content) := by
  intro hframed
  simp only [encode_code, List.append_assoc, List.cons_append, List.nil_append] at hframed
  have hle := hframed.length_le
  simp only [List.length_append, toBE_length] at hle
  omega

/-- A short content gets the frame it should have. -/
theorem list8_frame {contentSize : UInt32} (h : ¬ Compound.isWide contentSize) (count : ℕ) :
    Compound.frame .list8 .list8 contentSize count =
      Compound.frame .list8 .list32 contentSize count := by
  rw [Compound.frame, Compound.frame, if_neg h, if_neg h]

/-- **The frame of a list**, which has the constructor of the one-byte form in front of both
forms, is right exactly when the content is short. -/
theorem list8_framed_iff {contentSize : UInt32} {content : Bytes} {count : ℕ}
    (hsize : contentSize = UInt32.ofNat content.length)
    (hlt : (Compound.frame .list8 .list8 contentSize count ++ content).length < 2 ^ 32)
    (hcount : count ≤ content.length) :
    Framed .list8 .list32 count (Compound.frame .list8 .list8 contentSize count ++ content) ↔
      content.length ≤ 254 := by
  have hframe : 3 ≤ (Compound.frame .list8 .list8 contentSize count).length := by
    unfold Compound.frame
    split <;> simp
  rw [List.length_append] at hlt
  have hwide := isWide_iff hsize (by omega)
  by_cases hw : Compound.isWide contentSize
  · have hlen := hwide.mp hw
    refine ⟨fun h => ?_, fun h => absurd hlen (by omega)⟩
    rw [Compound.frame, if_pos hw] at h
    exact absurd h (not_framed_wide (by omega))
  · refine ⟨fun _ => by rw [hwide] at hw; omega, fun _ => ?_⟩
    rw [list8_frame hw] at hlt ⊢
    exact framed_frame hsize (by rw [List.length_append]; omega) hcount

theorem list_framed_iff (l : AmqpList) (hl : ∀ v ∈ l.items, Exact v)
    (hlt : (encode l).length < 2 ^ 32) :
    Framed .list8 .list32 l.items.length (encode l) ↔ (l.items.flatMap encode).length ≤ 254 := by
  obtain ⟨n, hn, hfold⟩ := Announces.foldl (f := fun a v => a + encodedSize v) (k := fun _ => 0)
    l.items 0 (fun v hv => ⟨_, (hl v hv).announces, fun _ => rfl⟩)
  rw [List.sum_eq_zero_iff_forall_eq_nat.mpr (by simp)] at hn
  rw [UInt32.zero_add] at hfold
  have henc : encode l = AmqpList.frame n l.items.length ++ l.items.flatMap encode := by
    rw [← hfold]
    exact encode_list l.items
  rw [henc] at hlt ⊢
  exact list8_framed_iff hn.eq_ofNat hlt (items_le_length l.items)

theorem header_contentSize {h : Header} (hl : h.LeavesExact) :
    h.contentSize = UInt32.ofNat h.encodeFields.length :=
  ((((hl.durable.announces.append hl.priority.announces).append
    (announces_option hl.ttl)).append hl.firstAcquirer.announces).append
    hl.deliveryCount.announces).eq_ofNat

/-- **No header is framed**: the one-byte form announces three bytes too many.  The encoder adds 4
to the size in either form, and the narrow form has a count of one byte.  The wide form is not
framed behind the constructor of the narrow one. -/
theorem header_not_framed {h : Header} (hl : h.LeavesExact) (hlt : (encode h).length < 2 ^ 32)
    {body : Bytes} (hbody : encode h = encode messageHeader ++ body) :
    ¬ Framed .list8 .list32 5 body := by
  have henc : encode h = encode messageHeader ++
      ((if h.contentSize + encodedSize messageHeader > 255 then
        encode TypeCode.list8 ++ toBE 4 (h.contentSize + 4).toNat ++ toBE 4 5
      else
        encode TypeCode.list8 ++ toBE 1 (h.contentSize + 4).toNat ++ toBE 1 5) ++
      h.encodeFields) := List.append_assoc _ _ _
  have hfields : h.encodeFields.length + 3 < 2 ^ 32 := by
    rw [henc, List.length_append, List.length_append] at hlt
    have : (encode messageHeader).length = 3 := rfl
    omega
  rw [henc] at hbody
  rw [← List.append_cancel_left hbody]
  have hsize := header_contentSize hl
  have hwide : h.contentSize + encodedSize messageHeader > 255 ↔ 252 < h.encodeFields.length := by
    rw [gt_iff_lt, UInt32.lt_iff_toNat_lt, hsize, UInt32.toNat_add, UInt32.toNat_ofNat',
      show (encodedSize messageHeader).toNat = 3 from rfl]
    simp only [UInt32.reduceToNat]
    omega
  split
  · rename_i hw
    exact not_framed_wide (by have := hwide.mp hw; omega)
  · rename_i hw
    rw [hwide] at hw
    have hfield : (h.contentSize + 4).toNat = h.encodeFields.length + 4 := by
      simp only [hsize, UInt32.toNat_add, UInt32.toNat_ofNat', UInt32.reduceToNat]
      omega
    intro hframed
    simp only [encode_code, toBE_one, List.cons_append, List.nil_append] at hframed
    cases hframed with
    | narrow size number content hsize hcount =>
      rw [UInt8.toNat_ofNat', hfield] at hsize
      omega

theorem properties_fields_length (p : Properties) : 13 ≤ p.encodeFields.length := by
  have h1 := option_length_pos p.messageId
  have h2 := option_length_pos p.userId
  have h3 := option_length_pos p.to
  have h4 := option_length_pos p.subject
  have h5 := option_length_pos p.replyTo
  have h6 := option_length_pos p.correlationId
  have h7 := option_length_pos p.contentType
  have h8 := option_length_pos p.contentEncoding
  have h9 := option_length_pos p.absoluteExpiryTime
  have h10 := option_length_pos p.creationTime
  have h11 := option_length_pos p.groupId
  have h12 := option_length_pos p.groupSequence
  have h13 := option_length_pos p.replyToGroupId
  simp only [Properties.encodeFields, List.length_append]
  omega

theorem properties_framed_iff {p : Properties} (hl : p.LeavesExact)
    (hlt : (encode p).length < 2 ^ 32) :
    (∃ body, encode p = encode messageProperties ++ body ∧ Framed .list8 .list32 13 body) ↔
      p.encodeFields.length ≤ 254 := by
  have henc : encode p = encode messageProperties ++
      (Compound.frame .list8 .list8 p.contentSize 13 ++ p.encodeFields) := List.append_assoc _ _ _
  have hsize : p.contentSize = UInt32.ofNat p.encodeFields.length :=
    (announces_propertiesContent hl).eq_ofNat
  have hbody : (∃ body, encode p = encode messageProperties ++ body ∧
      Framed .list8 .list32 13 body) ↔
        Framed .list8 .list32 13 (Compound.frame .list8 .list8 p.contentSize 13 ++
          p.encodeFields) := by
    constructor
    · rintro ⟨body, hbody, hframed⟩
      rw [henc] at hbody
      rw [List.append_cancel_left hbody]
      exact hframed
    · exact fun hframed => ⟨_, henc, hframed⟩
  rw [hbody]
  rw [henc, List.length_append] at hlt
  exact list8_framed_iff hsize (by omega) (properties_fields_length p)

/-- **The size and the count in front of a list are right exactly when it is short**, and those of
a header never are.

By cases on what is written as a list.  For a list and for properties the frame is the one of a
short content or of a long one, and behind the constructor of the narrow form no long content has
a right size.  For a header the size is wrong by a constant. -/
theorem listLike_framed_iff (x : ListLike) (hx : x.ElementsExact)
    (hlt : x.encoded.length < 2 ^ 32) : x.SizeFields ↔ x.Narrow := by
  cases x with
  | list l => exact list_framed_iff l hx hlt
  | header h =>
    constructor
    · rintro ⟨body, hbody, hframed⟩
      exact absurd hframed (header_not_framed hx hlt hbody)
    · exact fun hnarrow => absurd hnarrow (by simp [ListLike.Narrow])
  | properties p => exact properties_framed_iff hx hlt

/-- The rule at a list of two short items. -/
theorem listLike_framed_iff_short :
    (ListLike.list ⟨[.simple (.uint 5), .simple (.boolean true)]⟩).SizeFields :=
  (listLike_framed_iff _ (by simp only [ListLike.ElementsExact]; decide) (by decide)).mpr
    (by simp only [ListLike.Narrow]; decide)

/-- The default header: behind the size of 10 there are 7 bytes. -/
theorem header_default_not_framed :
    (ListLike.header {}).encoded = [0x00, 0x53, 112, 0xc0, 10, 5, 0x42, 0x50, 4, 0x40, 0x42, 0x43] ∧
      Header.LeavesExact {} ∧ ¬ (ListLike.header {}).SizeFields := by
  have hexact : Header.LeavesExact {} := by constructor <;> simp <;> decide
  refine ⟨by decide, hexact, ?_⟩
  rintro ⟨body, hbody, hframed⟩
  exact header_not_framed hexact (by decide) hbody hframed

end RabbitMqStream.Amqp
