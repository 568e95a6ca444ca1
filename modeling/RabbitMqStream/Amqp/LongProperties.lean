/-
# Long properties do not come back

`Properties::encode` writes the constructor of the one-byte form in front of both forms.  When
the fields pass 254 bytes the decoder takes the second byte of the four-byte size for the count
and reads the fields six bytes early: in front of the first field it finds the last two bytes of
the size and the count `0 0 0 13`.

Could such bytes spell the same properties after all?  They do not, and the reason is in the
first three fields.  The message id is read from a window of six bytes followed by its own
encoding.  What is left of that reading is again a window of six bytes in front of the user id,
and it starts with a rotation of the first window, because the content of a binary that is equal
to itself shifted by six bytes is periodic (`shift_eq`).  Hardly any window starts with a code
that an optional binary may have, and after the user id none starts with a code that an optional
string may have.

* `properties_long_not_read`: long properties are never read as themselves.
* `record_roundTrips_iff`: a header always comes back, properties exactly when they are short.
-/
import RabbitMqStream.Amqp.Records
import Mathlib.Data.List.Rotate

namespace RabbitMqStream.Amqp

open Wire

/-! ## 1. A list that is a shifted copy of itself

If `bs` can be read off the front of `q ++ bs`, then it repeats with the length of `q` as its
period, and what is left over is a rotation of `q`. -/

/-- What is left of `q` and a copy of `bs` behind `bs` is a rotation of `q`. -/
theorem shift_rotate {α : Type} : ∀ {bs q b tail : List α}, bs ++ b = q ++ (bs ++ tail) →
    b = q.rotate bs.length ++ tail
  | [], q, b, tail, h => by rw [List.length_nil, List.rotate_zero]; exact h
  | x :: bs, [], b, tail, h => by
    rw [List.rotate_nil]
    exact List.append_cancel_left h
  | x :: bs, y :: q, b, tail, h => by
    simp only [List.cons_append, List.cons.injEq] at h
    obtain ⟨rfl, h⟩ := h
    rw [List.length_cons, List.rotate_cons_succ]
    exact shift_rotate (by simpa using h)

/-! ## 2. Contents behind a length

Which bytes make a binary or a string decoder succeed: a code, a length that fits the code, and
that many bytes. -/

/-- `bs` behind a length of one byte or of four. -/
inductive Lengthed (code8 code32 : UInt8) (bs rest : Bytes) : Bytes → Prop where
  | narrow (n : UInt8) (hn : bs.length = n.toNat) :
      Lengthed code8 code32 bs rest (code8 :: n :: (bs ++ rest))
  | wide (p q r s : UInt8) (hn : bs.length = ofBE [p, q, r, s]) :
      Lengthed code8 code32 bs rest (code32 :: p :: q :: r :: s :: (bs ++ rest))

theorem Lengthed.length_lt {code8 code32 : UInt8} {bs rest b : Bytes}
    (h : Lengthed code8 code32 bs rest b) : bs.length < 2 ^ 32 := by
  cases h with
  | narrow n hn =>
    have hlt := n.toNat_lt
    omega
  | wide p q r s hn =>
    have hlt := ofBE_lt [p, q, r, s]
    rw [hn]
    simpa using hlt

section Lengthed

variable {α : Type} {g : ℕ → AmqpReader α} {b rest : Bytes} {x : α} {content : α → Bytes}

theorem length8_eq_ok (hg : ∀ n b, g n b = .ok (x, rest) →
      b = content x ++ rest ∧ (content x).length = n)
    (h : (do let len ← readU8; g len.toNat : AmqpReader α) b = .ok (x, rest)) :
    ∃ n : UInt8, b = n :: (content x ++ rest) ∧ (content x).length = n.toNat := by
  obtain ⟨n, mid, hread, hrest⟩ := Reader.bind_eq_ok.mp h
  obtain ⟨rfl, hcontent⟩ := hg _ _ hrest
  exact ⟨n, readU8_eq_ok hread, hcontent⟩

theorem length32_eq_ok (hg : ∀ n b, g n b = .ok (x, rest) →
      b = content x ++ rest ∧ (content x).length = n)
    (h : (do let len ← readU32; g len.toNat : AmqpReader α) b = .ok (x, rest)) :
    ∃ p q r s : UInt8, b = p :: q :: r :: s :: (content x ++ rest) ∧
      (content x).length = ofBE [p, q, r, s] := by
  obtain ⟨n, mid, hread, hrest⟩ := Reader.bind_eq_ok.mp h
  obtain ⟨rfl, hcontent⟩ := hg _ _ hrest
  obtain ⟨len, rfl, hlen, hn⟩ := readU32_eq_ok hread
  obtain ⟨p, q, r, s, rfl⟩ := List.length_eq_four.mp hlen
  exact ⟨p, q, r, s, rfl, hcontent.trans hn⟩

end Lengthed

theorem binary_eq_ok {bs b rest : Bytes} (h : decode b = .ok (bs, rest)) :
    Lengthed 0xa0 0xb0 bs rest b := by
  have hg : ∀ (n : ℕ) (b : Bytes), (readExact n : AmqpReader Bytes) b = .ok (bs, rest) →
      b = id bs ++ rest ∧ (id bs).length = n := fun n b hread => Reader.takeN_eq_ok.mp hread
  obtain ⟨c, tail, rfl, hc⟩ := afterCode_eq_ok h
  split at hc
  · obtain ⟨n, rfl, hn⟩ := length8_eq_ok hg hc
    exact .narrow n hn
  · obtain ⟨p, q, r, s, rfl, hn⟩ := length32_eq_ok hg hc
    exact .wide p q r s hn
  · exact absurd hc (by simp [invalidTypeCode])

theorem readText_eq_ok {n : ℕ} {s : String} {b rest : Bytes} (h : readText n b = .ok (s, rest)) :
    b = asBytes s ++ rest ∧ (asBytes s).length = n := by
  obtain ⟨bs, mid, htake, htext⟩ := Reader.bind_eq_ok.mp h
  obtain ⟨rfl, hlen⟩ := Reader.takeN_eq_ok.mp htake
  cases hs : fromUtf8 bs with
  | none => simp [hs] at htext
  | some s' =>
    simp only [hs, Reader.pure_apply, Except.ok.injEq, Prod.mk.injEq] at htext
    obtain ⟨rfl, rfl⟩ := htext
    have hbs := asBytes_of_fromUtf8 hs
    rw [hbs]
    exact ⟨rfl, hlen⟩

theorem string_eq_ok {s : String} {b rest : Bytes} (h : decode b = .ok (s, rest)) :
    Lengthed 0xa1 0xb1 (asBytes s) rest b := by
  have hg : ∀ (n : ℕ) (b : Bytes), readText n b = .ok (s, rest) →
      b = asBytes s ++ rest ∧ (asBytes s).length = n := fun n b hread => readText_eq_ok hread
  obtain ⟨c, tail, rfl, hc⟩ := afterCode_eq_ok h
  split at hc
  · obtain ⟨n, rfl, hn⟩ := length8_eq_ok hg hc
    exact .narrow n hn
  · obtain ⟨p, q, r, s, rfl, hn⟩ := length32_eq_ok hg hc
    exact .wide p q r s hn
  · exact absurd hc (by simp [invalidTypeCode])

/-! ## 3. The window in front of the message id

By the type of the message id.  The numbers and the identifier have contents of a fixed width
that the window does not fit; the texts leave a rotated window in front of the next field. -/

/-- Something is left in front of `R`, and it starts with none of the codes. -/
def Stuck (codes : List UInt8) (R b : Bytes) : Prop :=
  ∃ t w, b = t :: (w ++ R) ∧ t ∉ codes

/-- Six bytes in front of the user id that are no better than the ones in front of the message
id. -/
inductive Window (R : Bytes) : Bytes → Prop where
  | stuck {b : Bytes} (h : Stuck [0x40, 0xa0, 0xb0] R b) : Window R b
  | moved (s t : UInt8) : Window R (s :: 0 :: 0 :: 0 :: 13 :: t :: R)
  | turned (n : UInt8) (hn : n.toNat % 6 = 4) : Window R (0xa0 :: n :: 0 :: 0 :: 0 :: 13 :: R)

theorem Window.length_lt {R b : Bytes} (h : Window R b) : R.length < b.length := by
  cases h with
  | stuck h =>
    obtain ⟨t, w, rfl, -⟩ := h
    simp only [List.length_cons, List.length_append]
    omega
  | moved s t => simp only [List.length_cons]; omega
  | turned n hn => simp only [List.length_cons]; omega

theorem withLength_narrow {code8 code32 : TypeCode} {bs : Bytes} {n : UInt8}
    (h : bs.length = n.toNat) : withLength code8 code32 bs = code8.toU8 :: n :: bs := by
  have hlt := n.toNat_lt
  rw [withLength, if_neg (by omega), h, toBE_one, UInt8.ofNat_toNat]
  rfl

theorem withLength_wide {code8 code32 : TypeCode} {bs len : Bytes} (hlen : len.length = 4)
    (h : bs.length = ofBE len) (hw : 255 < bs.length) :
    withLength code8 code32 bs = code32.toU8 :: (len ++ bs) := by
  have hback := toBE_ofBE len
  rw [hlen] at hback
  rw [withLength, if_pos hw, h, hback]
  rfl

theorem rotate_six {α : Type} {q : List α} (hq : q.length = 6) {m r : ℕ} (h : m % 6 = r % 6) :
    q.rotate m = q.rotate r := by
  rw [← List.rotate_mod, hq, h, ← hq, List.rotate_mod]

/-- A binary or a string that is read from six bytes in front of its own encoding.  A length of one
byte is the fourth byte of the size.  A length of four bytes has it in front of three zeros, so the
content is empty or takes a multiple of `2 ^ 24` bytes.  In each case what was read is the content
shifted by six bytes, and what is left is a rotation of these. -/
theorem lengthed_shift (code8 code32 : TypeCode) {bs b R : Bytes} {s2 s3 : UInt8}
    (h : Lengthed code8.toU8 code32.toU8 bs b
      (s2 :: s3 :: 0 :: 0 :: 0 :: 13 :: (withLength code8 code32 bs ++ R))) :
    b = [0, 0, 0, 13, code8.toU8, s3].rotate s3.toNat ++ R ∨
      b = 13 :: code8.toU8 :: 0 :: R ∨
      b = [13, code32.toU8, s3, 0, 0, 0].rotate (s3.toNat * 4) ++ R := by
  generalize hin : s2 :: s3 :: 0 :: 0 :: 0 :: 13 :: (withLength code8 code32 bs ++ R) = input at h
  cases h with
  | narrow n hn =>
    simp only [List.cons.injEq] at hin
    obtain ⟨-, rfl, htail⟩ := hin
    rw [withLength_narrow hn] at htail
    refine Or.inl ?_
    rw [← hn]
    exact shift_rotate htail.symm
  | wide p q r s hn =>
    simp only [List.cons.injEq] at hin
    obtain ⟨-, rfl, rfl, rfl, rfl, htail⟩ := hin
    have hlen : bs.length = s3.toNat * 2 ^ 24 := by
      rw [hn]
      simp [ofBE]
      omega
    rcases Nat.eq_zero_or_pos s3.toNat with h0 | hpos
    · have hnil : bs = [] := List.eq_nil_of_length_eq_zero (by omega)
      subst hnil
      exact Or.inr (Or.inl htail.symm)
    · rw [withLength_wide (show [s3, 0, 0, 0].length = 4 from rfl) hn (by omega)] at htail
      refine Or.inr (Or.inr ?_)
      rw [rotate_six (m := s3.toNat * 4) (r := bs.length) rfl (by omega)]
      exact shift_rotate htail.symm

/-- The six bytes behind a binary or a string that was read as a message id.  The rotation is by a
number modulo 6, which gives six windows for the first form and three for the third.  Most of them
start with a byte that no field starts with. -/
theorem window_of_lengthed {code8 code32 : TypeCode} {b R : Bytes} {s3 : UInt8}
    (hcodes : code8 = .binary8 ∨ code8 = .string8)
    (h : b = [0, 0, 0, 13, code8.toU8, s3].rotate s3.toNat ++ R ∨
      b = 13 :: code8.toU8 :: 0 :: R ∨
      b = [13, code32.toU8, s3, 0, 0, 0].rotate (s3.toNat * 4) ++ R) : Window R b := by
  rcases h with rfl | rfl | rfl
  · have hr := Nat.mod_lt s3.toNat (show 0 < 6 by decide)
    generalize hm : s3.toNat % 6 = m at hr
    rw [rotate_six (r := m) rfl (by omega)]
    interval_cases m
    · exact .stuck ⟨0, _, rfl, by decide⟩
    · exact .stuck ⟨0, _, rfl, by decide⟩
    · exact .stuck ⟨0, _, rfl, by decide⟩
    · exact .stuck ⟨13, _, rfl, by decide⟩
    · rcases hcodes with rfl | rfl
      · exact .turned s3 hm
      · exact .stuck ⟨0xa1, _, rfl, by decide⟩
    · refine .stuck ⟨s3, _, rfl, ?_⟩
      rintro hmem
      simp only [List.mem_cons, List.not_mem_nil, or_false] at hmem
      rcases hmem with rfl | rfl | rfl <;> exact absurd hm (by decide)
  · exact .stuck ⟨13, [code8.toU8, 0], rfl, by decide⟩
  · have hr : s3.toNat * 4 % 6 = 0 ∨ s3.toNat * 4 % 6 = 2 ∨ s3.toNat * 4 % 6 = 4 := by omega
    rcases hr with hm | hm | hm
    · rw [rotate_six (r := 0) rfl hm]
      exact .stuck ⟨13, _, rfl, by decide⟩
    · rw [rotate_six (r := 2) rfl hm]
      exact .moved s3 code32.toU8
    · rw [rotate_six (r := 4) rfl hm]
      exact .stuck ⟨0, _, rfl, by decide⟩

/-- Eight bytes from the window are a large number. -/
theorem ofBE_window {s3 : UInt8} {T bs b : Bytes} (h : s3 :: 0 :: 0 :: 0 :: 13 :: T = bs ++ b)
    (hlen : bs.length = 8) :
    ∃ low < 256 ^ 3, ofBE bs = s3.toNat * 256 ^ 7 + 13 * 256 ^ 3 + low := by
  have htake : bs = s3 :: 0 :: 0 :: 0 :: 13 :: T.take 3 := by
    have htake := congrArg (List.take 8) h
    rw [List.take_left' hlen] at htake
    exact htake.symm
  have hthree : (T.take 3).length = 3 := by
    rw [htake] at hlen
    simpa using hlen
  refine ⟨ofBE (T.take 3), ?_, ?_⟩
  · have hlt := ofBE_lt (T.take 3)
    rwa [hthree] at hlt
  · rw [htake]
    simp only [ofBE_cons, List.length_cons, hthree]
    simp
    omega

/-- A number of eight bytes read from there is a large one, so it was written with eight bytes as
well, and its encoding is a shifted copy of itself.  A shorter form reads bytes that are not those
of a number. -/
theorem ulong_shift {s2 s3 : UInt8} {n : UInt64} {R b : Bytes}
    (h : decode (s2 :: s3 :: 0 :: 0 :: 0 :: 13 :: (encode n ++ R)) = .ok (n, b)) :
    Window R b := by
  obtain ⟨c, tail, hb, hc⟩ := afterCode_eq_ok h
  obtain ⟨-, rfl⟩ := List.cons.inj hb
  split at hc
  · obtain ⟨bs, hbs, hlen, hn⟩ := readNumber_eq_ok hc
    obtain ⟨low, hlow, hvalue⟩ := ofBE_window hbs hlen
    have hlt := ofBE_lt bs
    rw [hlen] at hlt
    have hnat : n.toNat = ofBE bs := by
      rw [hn, UInt64.toNat_ofNat', Nat.mod_eq_of_lt (by omega)]
    have hwide : n > 255 := by
      rw [gt_iff_lt, UInt64.lt_iff_toNat_lt, hnat, hvalue]
      simp only [UInt64.reduceToNat]
      omega
    have hne : n ≠ 0 := by
      rintro rfl
      exact absurd hwide (by decide)
    have henc : encode n = 0x80 :: bs := by
      have hback := toBE_ofBE bs
      rw [hlen] at hback
      simp only [AmqpEncoder.encode, if_neg hne, if_pos hwide]
      rw [hnat, hback]
      rfl
    rw [henc] at hbs
    rw [shift_rotate (q := [s3, 0, 0, 0, 13, 0x80]) hbs.symm, hlen,
      rotate_six (m := 8) (r := 2) rfl rfl]
    exact .stuck ⟨0, _, rfl, by decide⟩
  · obtain ⟨x, mid, hread, hpure⟩ := Reader.bind_eq_ok.mp hc
    simp only [Reader.pure_apply, Except.ok.injEq, Prod.mk.injEq] at hpure
    obtain ⟨-, rfl⟩ := List.cons.inj (readU8_eq_ok hread)
    rw [← hpure.2]
    exact .stuck ⟨0, 0 :: 0 :: 13 :: encode n, rfl, by decide⟩
  · simp only [Reader.pure_apply, Except.ok.injEq, Prod.mk.injEq] at hc
    obtain ⟨rfl, rfl⟩ := hc
    exact .moved s3 0x44
  · exact absurd hc (by simp [invalidTypeCode])

/-- As for the unsigned number.  That it is written with eight bytes is a question about its sign,
too. -/
theorem long_shift {s2 s3 : UInt8} {n : Int64} {R b : Bytes}
    (h : decode (s2 :: s3 :: 0 :: 0 :: 0 :: 13 :: (encode n ++ R)) = .ok (n, b)) :
    Window R b := by
  obtain ⟨c, tail, hb, hc⟩ := afterCode_eq_ok h
  obtain ⟨-, rfl⟩ := List.cons.inj hb
  split at hc
  · obtain ⟨bs, hbs, hlen, hn⟩ := readNumber_eq_ok hc
    obtain ⟨low, hlow, hvalue⟩ := ofBE_window hbs hlen
    have hlt := ofBE_lt bs
    rw [hlen] at hlt
    have hs3 := s3.toNat_lt
    have hnat : n.toUInt64.toNat = ofBE bs := by
      rw [hn]
      change (UInt64.ofNat (ofBE bs)).toNat = _
      rw [UInt64.toNat_ofNat', Nat.mod_eq_of_lt (by omega)]
    have hwide : Long.isWide n := by
      have h127 : (127 : Int64).toInt = 127 := by decide
      have h128 : (-128 : Int64).toInt = -128 := by decide
      have hint : n.toInt = (n.toUInt64.toNat : ℤ).bmod (2 ^ 64) :=
        BitVec.toInt_eq_toNat_bmod n.toBitVec
      rw [hnat, hvalue, Int.bmod] at hint
      rw [Long.isWide, gt_iff_lt, Int64.lt_iff_toInt_lt, Int64.lt_iff_toInt_lt, h127, h128]
      split at hint <;> omega
    have henc : encode n = 0x81 :: bs := by
      have hback := toBE_ofBE bs
      rw [hlen] at hback
      simp only [AmqpEncoder.encode, if_pos hwide]
      rw [hnat, hback]
      rfl
    rw [henc] at hbs
    rw [shift_rotate (q := [s3, 0, 0, 0, 13, 0x81]) hbs.symm, hlen,
      rotate_six (m := 8) (r := 2) rfl rfl]
    exact .stuck ⟨0, _, rfl, by decide⟩
  · obtain ⟨x, mid, hread, hpure⟩ := Reader.bind_eq_ok.mp hc
    obtain ⟨bs, hbs, hlen, -⟩ := readNumber_eq_ok hread
    obtain ⟨y, rfl⟩ := List.length_eq_one_iff.mp hlen
    simp only [Reader.pure_apply, Except.ok.injEq, Prod.mk.injEq] at hpure
    obtain ⟨-, rfl⟩ := List.cons.inj hbs
    rw [← hpure.2]
    exact .stuck ⟨0, 0 :: 0 :: 13 :: encode n, rfl, by decide⟩
  · exact absurd hc (by simp [invalidTypeCode])

theorem uuid_shift {s2 s3 : UInt8} {u : Uuid} {R b : Bytes}
    (h : decode (s2 :: s3 :: 0 :: 0 :: 0 :: 13 :: (encode u ++ R)) = .ok (u, b)) :
    Window R b := by
  obtain ⟨c, tail, hb, hc⟩ := afterCode_eq_ok h
  obtain ⟨-, rfl⟩ := List.cons.inj hb
  split at hc
  · obtain ⟨bs, mid, htake, hslice⟩ := Reader.bind_eq_ok.mp hc
    obtain ⟨hbs, hlen⟩ := Reader.takeN_eq_ok.mp htake
    rw [Uuid.fromSlice, dif_pos hlen] at hslice
    simp only [Reader.pure_apply, Except.ok.injEq, Prod.mk.injEq] at hslice
    obtain ⟨rfl, rfl⟩ := hslice
    rw [shift_rotate (q := [s3, 0, 0, 0, 13, 0x98]) hbs.symm, hlen,
      rotate_six (m := 16) (r := 4) rfl rfl]
    exact .stuck ⟨13, _, rfl, by decide⟩
  · exact absurd hc (by simp [invalidTypeCode])

/-- A message id is read by the decoder of its own type. -/
theorem messageId_eq_ok {id : MessageId} {b rest : Bytes} (h : decode b = .ok (id, rest)) :
    match id with
    | .ulong n => decode b = .ok (n, rest)
    | .long n => decode b = .ok (n, rest)
    | .uuid u => decode b = .ok (u, rest)
    | .binary bs => decode b = .ok (bs, rest)
    | .string s => decode b = .ok (s, rest) := by
  obtain ⟨c, tail, -, hc⟩ := afterLookahead_eq_ok h
  split at hc
  case h_11 => exact absurd hc (by simp [invalidTypeCode])
  all_goals
    obtain ⟨x, rfl, hx⟩ := decodeAs_eq_ok hc
    exact hx

/-- **The window in front of the message id.**  If the message id is read from six bytes in front
of its own encoding, there are such six bytes in front of the user id. -/
theorem messageId_shift {s2 s3 : UInt8} {o : Option MessageId} {R b : Bytes}
    (h : decode (s2 :: s3 :: 0 :: 0 :: 0 :: 13 :: (encode o ++ R)) = .ok (o, b)) :
    Window R b := by
  rcases option_eq_ok h with ⟨rfl, hb⟩ | ⟨id, rfl, hid⟩
  · obtain ⟨-, rfl⟩ := List.cons.inj hb
    exact .moved s3 0x40
  · have hread := messageId_eq_ok hid
    cases id with
    | ulong n => exact ulong_shift hread
    | long n => exact long_shift hread
    | uuid u => exact uuid_shift hread
    | binary bs =>
      have hlen := binary_eq_ok hread
      have hin : encode (some (MessageId.binary bs)) = withLength .binary8 .binary32 bs :=
        encode_binary hlen.length_lt
      rw [hin] at hlen
      exact window_of_lengthed (Or.inl rfl)
        (lengthed_shift .binary8 .binary32 hlen)
    | string s =>
      exact window_of_lengthed (Or.inr rfl)
        (lengthed_shift .string8 .string32 (string_eq_ok hread))

/-! ## 4. The window in front of the user id

The same step once more, with the windows that the first one can leave.  None of those that it
leaves can be the beginning of a string. -/

/-- **The window in front of the user id** leaves nothing a string can start with.  By cases on what
is left by the message id, and on the form of the user id.  Where the user id is a binary, its
content is again a shifted copy of itself, and the rotation starts with a byte that is none of the
three codes. -/
theorem userId_shift {o : Option Bytes} {R b b' : Bytes} (hw : Window (encode o ++ R) b)
    (h : decode b = .ok (o, b')) : Stuck [0x40, 0xa1, 0xb1] R b' := by
  rcases option_eq_ok h with ⟨rfl, rfl⟩ | ⟨bs, rfl, hbs⟩
  · generalize hin : (0x40 :: b' : Bytes) = input at hw
    cases hw with
    | stuck hs =>
      obtain ⟨t, w, rfl, ht⟩ := hs
      obtain ⟨rfl, -⟩ := List.cons.inj hin
      exact absurd ht (by decide)
    | moved s t =>
      obtain ⟨-, rfl⟩ := List.cons.inj hin
      exact ⟨0, [0, 0, 13, t, 0x40], rfl, by decide⟩
    | turned n hn => exact absurd (List.cons.inj hin).1 (by decide)
  · have hread := binary_eq_ok hbs
    have henc : encode (some bs) = withLength .binary8 .binary32 bs :=
      encode_binary hread.length_lt
    rw [henc] at hw
    cases hread with
    | narrow n hn =>
      rw [withLength_narrow hn] at hw
      generalize hin : (0xa0 :: n :: (bs ++ b') : Bytes) = input at hw
      cases hw with
      | stuck hs =>
        obtain ⟨t, w, rfl, ht⟩ := hs
        obtain ⟨rfl, -⟩ := List.cons.inj hin
        exact absurd ht (by decide)
      | moved s t =>
        simp only [List.cons.injEq] at hin
        obtain ⟨-, rfl, hin⟩ := hin
        obtain rfl : bs = [] := List.eq_nil_of_length_eq_zero hn
        exact ⟨0, [0, 13, t, 0xa0, 0], hin, by decide⟩
      | turned m hm =>
        simp only [List.cons.injEq] at hin
        obtain ⟨-, rfl, hin⟩ := hin
        rw [shift_rotate (q := [0, 0, 0, 13, 0xa0, n]) hin,
          rotate_six (m := bs.length) (r := 4) rfl (by omega)]
        exact ⟨0xa0, _, rfl, by decide⟩
    | wide p q r s hn =>
      generalize hin : (0xb0 :: p :: q :: r :: s :: (bs ++ b') : Bytes) = input at hw
      cases hw with
      | stuck hs =>
        obtain ⟨t, w, rfl, ht⟩ := hs
        obtain ⟨rfl, -⟩ := List.cons.inj hin
        exact absurd ht (by decide)
      | moved s t =>
        simp only [List.cons.injEq] at hin
        obtain ⟨-, rfl, rfl, rfl, rfl, hin⟩ := hin
        rw [withLength_narrow (n := 13) hn] at hin
        have hlen : bs.length = 13 := hn
        have hthree : bs.length % [t, 0xa0, 13].length = 1 := by
          simp only [hlen, List.length_cons, List.length_nil]
        rw [shift_rotate (q := [t, 0xa0, 13]) hin, ← List.rotate_mod, hthree]
        exact ⟨0xa0, [13, t], rfl, by decide⟩
      | turned m hm => exact absurd (List.cons.inj hin).1 (by decide)

/-! ## 5. Properties

The first three fields decide.  If the properties came back, the message id and the user id
would have been read from the shifted places, and behind them there is nothing that a third
field can be read from. -/

section Keeps

variable {T β : Type} {f : ℕ → T → AmqpReader T} {g : T → β} {k : ℕ}

/-- The later fields leave an earlier one as it is. -/
theorem fields_keeps (hkeep : ∀ i x b x' rest, k ≤ i → f i x b = .ok (x', rest) → g x' = g x) :
    ∀ {n i : ℕ} {x x' : T} {b rest : Bytes}, k ≤ i →
      AmqpList.fields f n i x b = .ok (x', rest) → g x' = g x := by
  intro n
  induction n with
  | zero =>
    intro i x x' b rest _ h
    simp only [AmqpList.fields, Reader.pure_apply, Except.ok.injEq, Prod.mk.injEq] at h
    rw [h.1]
  | succ n ih =>
    intro i x x' b rest hi h
    obtain ⟨y, mid, hfield, hrest⟩ := Reader.bind_eq_ok.mp h
    rw [ih (by omega) hrest, hkeep i x b y mid hi hfield]

/-- A list of fields that is read to the end of `R` or further does not stop at a field that
cannot be read. -/
theorem fields_stuck {codes : List UInt8} {R rest b : Bytes} {n i : ℕ} {x x' : T}
    (hfield : ∀ t tail y r, f i x (t :: tail) = .ok (y, r) → t ∈ codes)
    (hs : Stuck codes R b) (hle : rest.length ≤ R.length) :
    AmqpList.fields f n i x b ≠ .ok (x', rest) := by
  obtain ⟨t, w, rfl, ht⟩ := hs
  intro h
  cases n with
  | zero =>
    simp only [AmqpList.fields, Reader.pure_apply, Except.ok.injEq, Prod.mk.injEq] at h
    have hlen := congrArg List.length h.2
    simp only [List.length_cons, List.length_append] at hlen
    omega
  | succ n =>
    obtain ⟨y, mid, hread, -⟩ := Reader.bind_eq_ok.mp h
    exact ht (hfield _ _ _ _ hread)

end Keeps

theorem optionString_code {t : UInt8} {tail rest : Bytes} {o : Option String}
    (h : decode (t :: tail) = .ok (o, rest)) : t ∈ [0x40, 0xa1, 0xb1] := by
  rcases option_eq_ok h with ⟨-, hb⟩ | ⟨s, -, hs⟩
  · rw [(List.cons.inj hb).1]
    decide
  · generalize hin : t :: tail = input at hs
    cases string_eq_ok hs with
    | narrow n hn => rw [(List.cons.inj hin).1]; decide
    | wide p q r s hn => rw [(List.cons.inj hin).1]; decide

section Chrono

variable [Chrono]

theorem listDecoderProperties_messageId {i : ℕ} {p p' : Properties} {b rest : Bytes} (hi : 1 ≤ i)
    (h : listDecoderProperties i p b = .ok (p', rest)) : p'.messageId = p.messageId := by
  unfold listDecoderProperties at h
  split at h
  case h_1 => exact absurd hi (by decide)
  case h_14 =>
    simp only [Reader.pure_apply, Except.ok.injEq, Prod.mk.injEq] at h
    rw [h.1]
  all_goals
    obtain ⟨o, rfl⟩ := listField_eq_ok h
    rfl

theorem listDecoderProperties_userId {i : ℕ} {p p' : Properties} {b rest : Bytes} (hi : 2 ≤ i)
    (h : listDecoderProperties i p b = .ok (p', rest)) : p'.userId = p.userId := by
  unfold listDecoderProperties at h
  split at h
  case h_1 => exact absurd hi (by decide)
  case h_2 => exact absurd hi (by decide)
  case h_14 =>
    simp only [Reader.pure_apply, Except.ok.injEq, Prod.mk.injEq] at h
    rw [h.1]
  all_goals
    obtain ⟨o, rfl⟩ := listField_eq_ok h
    rfl

/-- Read from six bytes in front of them, the fields are not the ones that were written: either the
message id and the user id differ, or there is no third field.  If they were the same, the message
id would be read as itself from the window, and the user id from what that has left
(`messageId_shift`, `userId_shift`).  Then the third field, if one is read, fails at its code; and
if none is, the input is not used up. -/
theorem fields_shifted (p : Properties) (s2 s3 : UInt8) (n : ℕ) (rest : Bytes) :
    AmqpList.fields listDecoderProperties n 0 {}
      (s2 :: s3 :: 0 :: 0 :: 0 :: 13 :: (p.encodeFields ++ rest)) ≠ .ok (p, rest) := by
  obtain ⟨R, hR, hle⟩ : ∃ R, p.encodeFields ++ rest =
      encode p.messageId ++ (encode p.userId ++ R) ∧ rest.length ≤ R.length := by
    refine ⟨encode p.to ++ (encode p.subject ++ (encode p.replyTo ++ (encode p.correlationId ++
      (encode p.contentType ++ (encode p.contentEncoding ++ (encode p.absoluteExpiryTime ++
      (encode p.creationTime ++ (encode p.groupId ++ (encode p.groupSequence ++
      (encode p.replyToGroupId ++ rest)))))))))), ?_, ?_⟩
    · simp only [Properties.encodeFields, List.append_assoc]
    · simp only [List.length_append]
      omega
  rw [hR]
  intro h
  cases n with
  | zero =>
    simp only [AmqpList.fields, Reader.pure_apply, Except.ok.injEq, Prod.mk.injEq] at h
    have hlen := congrArg List.length h.2
    simp only [List.length_cons, List.length_append] at hlen
    omega
  | succ n =>
    obtain ⟨p1, b1, hfirst, h1⟩ := Reader.bind_eq_ok.mp h
    obtain ⟨o1, rfl, ho1⟩ := decodeAs_eq_ok hfirst
    have hid := fields_keeps (fun i _ _ _ _ hi => listDecoderProperties_messageId hi)
      (Nat.le_refl 1) h1
    obtain rfl : p.messageId = o1 := hid
    have hwindow := messageId_shift ho1
    cases n with
    | zero =>
      simp only [AmqpList.fields, Reader.pure_apply, Except.ok.injEq, Prod.mk.injEq] at h1
      have hlen := hwindow.length_lt
      rw [h1.2, List.length_append] at hlen
      omega
    | succ n =>
      obtain ⟨p2, b2, hsecond, h2⟩ := Reader.bind_eq_ok.mp h1
      obtain ⟨o2, rfl, ho2⟩ := decodeAs_eq_ok hsecond
      have huser := fields_keeps (fun i _ _ _ _ hi => listDecoderProperties_userId hi)
        (Nat.le_refl 2) h2
      obtain rfl : p.userId = o2 := huser
      refine fields_stuck (fun t tail y r hread => ?_) (userId_shift hwindow ho2) hle h2
      obtain ⟨o3, -, ho3⟩ := decodeAs_eq_ok hread
      exact optionString_code ho3

/-- **Long properties do not come back**, whatever is behind them.

The frame is taken apart first.  What the decoder reads as fields begins six bytes in front of
them, and from there they are not the ones that were written (`fields_shifted`). -/
theorem properties_long_not_read {p : Properties} (hlt : (encode p).length < 2 ^ 32)
    (hlong : 254 < p.bulk) (rest : Bytes) : decode (encode p ++ rest) ≠ .ok (p, rest) := by
  have hbulk : p.bulk = p.encodeFields.length + p.excess := rfl
  have hexcess := p.excess_le
  rw [encode_properties, List.length_append, List.length_append] at hlt
  have hframe : 3 ≤ (Compound.frame .list8 .list8 p.contentSize 13).length := by
    unfold Compound.frame
    split <;> simp
  have hsize := properties_contentSize (p := p) (by omega)
  have hdesc : (encode messageProperties).length = 3 := rfl
  have hwide : Compound.isWide p.contentSize := by
    rw [isWide_iff hsize (by omega)]
    exact hlong
  have hfield : (p.contentSize + 4).toNat = p.bulk + 4 := by
    simp only [hsize, UInt32.toNat_add, UInt32.toNat_ofNat', UInt32.reduceToNat]
    omega
  have hcount : toBE 4 13 = [0, 0, 0, 13] := by decide
  have hread : decode (encode p ++ rest) =
      AmqpList.fields listDecoderProperties ((p.bulk + 4) / 65536 % 256) 0 {}
        (toBE 2 (p.bulk + 4) ++ ([0, 0, 0, 13] ++ (p.encodeFields ++ rest))) := by
    rw [encode_properties, Compound.frame, if_pos hwide, hfield, hcount]
    simp only [List.append_assoc]
    exact (properties_decode _).trans ((afterCode_encode _ .list8 _).trans
      (Reader.bind_of_ok (count8_size _ _)))
  rw [hread]
  exact fields_shifted p _ _ _ rest

/-- A header or a properties section. -/
inductive Record : Type where
  | header (val : Header)
  | properties (val : Properties)

namespace Record

omit [Chrono] in
def encoded : Record → Bytes
  | .header h => encode h
  | .properties p => encode p

/-- The fields come back on their own. -/
def FieldsRoundTrip : Record → Prop
  | .header h => h.FieldsRoundTrip
  | .properties p => p.FieldsRoundTrip

def ReadsBack : Record → Prop
  | .header h => RoundTrips h
  | .properties p => RoundTrips p

/-- The record takes the one-byte form. -/
def Short : Record → Prop
  | .header _ => True
  | .properties p => p.bulk ≤ 254

end Record

/-- **A header always comes back, properties exactly when they are short.**

From right to left the fields are read back one after the other.  From left to right is the rest
of this module: long properties are read six bytes early, and that is never the same
(`properties_long_not_read`). -/
theorem record_roundTrips_iff (x : Record) (hf : x.FieldsRoundTrip)
    (hlt : x.encoded.length < 2 ^ 32) : x.ReadsBack ↔ x.Short := by
  cases x with
  | header h => exact ⟨fun _ => trivial, fun _ => header_roundTrips hf⟩
  | properties p =>
    constructor
    · intro hread
      by_contra hlong
      have h254 : 254 < p.bulk := Nat.lt_of_not_le hlong
      exact properties_long_not_read hlt h254 [] (hread [])
    · intro hshort
      exact properties_roundTrips hf hshort

end Chrono

def shortProperties : Properties where
  messageId := some (.long 3)
  userId := some [1, 2]
  groupSequence := some 300

/-- The rule at a header, and at properties with a message id, a user id and a group sequence. -/
theorem record_roundTrips_iff_short : letI := Chrono.range
    (Record.header { durable := true, ttl := some 70 }).ReadsBack ∧
      (Record.properties shortProperties).ReadsBack := by
  let _ := Chrono.range
  refine ⟨(record_roundTrips_iff _ ?_ (by decide)).mpr trivial,
    (record_roundTrips_iff _ ?_ (by decide)).mpr (show _ ≤ 254 by decide)⟩
  · exact ⟨fun _ => rfl, fun _ => rfl, fun x _ => uint_roundTrips x, fun _ => rfl, fun _ => rfl⟩
  · refine ⟨?_, ?_, nofun, nofun, nofun, nofun, nofun, nofun, nofun, nofun, nofun,
      fun n _ => uint_roundTrips n, nofun⟩
    · rintro _ ⟨⟩
      exact fun _ => rfl
    · rintro _ ⟨⟩
      exact binary_roundTrips (by decide)

/-- Properties with a user id of 254 bytes. -/
def longUserId : Properties := { userId := some (List.replicate 254 7) }

/-- They are read as properties without any field. -/
theorem longUserId_not_roundTrips : letI := Chrono.range
    longUserId.FieldsRoundTrip ∧ (encode longUserId).length < 2 ^ 32 ∧
      (decode (encode longUserId)).map Prod.fst = .ok ({} : Properties) ∧
      ¬ RoundTrips longUserId := by
  let _ := Chrono.range
  have hread : (decode (encode longUserId)).map Prod.fst = .ok ({} : Properties) := by
    decide +kernel
  refine ⟨⟨nofun, ?_, nofun, nofun, nofun, nofun, nofun, nofun, nofun, nofun, nofun, nofun,
    nofun⟩, by decide +kernel, hread, fun h => ?_⟩
  · rintro _ ⟨⟩
    exact binary_roundTrips (by decide +kernel)
  · have hback := h []
    rw [List.append_nil] at hback
    rw [hback] at hread
    exact absurd hread (by decide +kernel)

end RabbitMqStream.Amqp
