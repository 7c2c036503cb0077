import Mathlib.Tactic
import Hygiene.Proofs.Except
import Hygiene.Text.Utf8

/-!
Reading back what UTF-8 writes. The decoder takes the bytes of one character off the front of any
byte sequence, so the bytes that spell a text decode to that text and no two texts share their
bytes. Nothing else is read: whatever the decoder accepts is spelled by the text that it gives.
-/

namespace Hygiene.Text.Utf8

private theorem between_iff {low high b : UInt8} :
    (decide (low ≤ b) && decide (b ≤ high)) = true ↔
      low.toNat ≤ b.toNat ∧ b.toNat ≤ high.toNat := by
  rw [Bool.and_eq_true, decide_eq_true_eq, decide_eq_true_eq, UInt8.le_iff_toNat_le,
    UInt8.le_iff_toNat_le]

/-- A byte made of six bits is a continuation byte. -/
theorem isTail_ofNat {n : Nat} (h : n < 64) : isTail (UInt8.ofNat (n + 0x80)) = true := by
  simp only [isTail, between_iff, UInt8.toNat_ofNat', UInt8.reduceToNat]
  omega

/-- The six bits of a continuation byte are those that it was made of. -/
theorem tailBits_ofNat {n : Nat} (h : n < 64) : tailBits (UInt8.ofNat (n + 0x80)) = n := by
  simp only [tailBits, UInt8.toNat_ofNat']
  omega

/-- The byte behind the first of three. A first byte of `E0` or `ED` narrows the range, and the
code points that are left out are overlong or surrogates. -/
theorem allowsSecond3_ofNat {v : Nat} (hlow : 0x7ff < v) (hhigh : v ≤ 0xffff)
    (hscalar : v < 0xD800 ∨ 0xDFFF < v) :
    allowsSecond3 (UInt8.ofNat (v / 4096 % 16 + 0xe0)) (UInt8.ofNat (v / 64 % 64 + 0x80)) =
      true := by
  simp only [allowsSecond3, ← UInt8.toNat_inj, UInt8.toNat_ofNat', UInt8.reduceToNat]
  split
  · simp only [between_iff, UInt8.toNat_ofNat', UInt8.reduceToNat]
    omega
  · split
    · simp only [between_iff, UInt8.toNat_ofNat', UInt8.reduceToNat]
      omega
    · exact isTail_ofNat (by omega)

/-- The byte behind the first of four. A first byte of `F0` or `F4` narrows the range to what is
neither overlong nor beyond the last code point. -/
theorem allowsSecond4_ofNat {v : Nat} (hlow : 0xffff < v) (hhigh : v < 0x110000) :
    allowsSecond4 (UInt8.ofNat (v / 262144 % 8 + 0xf0)) (UInt8.ofNat (v / 4096 % 64 + 0x80)) =
      true := by
  simp only [allowsSecond4, ← UInt8.toNat_inj, UInt8.toNat_ofNat', UInt8.reduceToNat]
  split
  · simp only [between_iff, UInt8.toNat_ofNat', UInt8.reduceToNat]
    omega
  · split
    · simp only [between_iff, UInt8.toNat_ofNat', UInt8.reduceToNat]
      omega
    · exact isTail_ofNat (by omega)

private theorem decodeFrom_one (index : Nat) {v : Nat} (h : v ≤ 0x7f) (rest : List UInt8) :
    decodeFrom index (UInt8.ofNat v :: rest) =
      (decodeFrom (index + 1) rest).map (Char.ofNat v :: ·) := by
  have hfirst : UInt8.ofNat v < 0x80 := by
    simp only [UInt8.lt_iff_toNat_lt, UInt8.toNat_ofNat', UInt8.reduceToNat]
    omega
  have hvalue : (UInt8.ofNat v).toNat = v := by
    simp only [UInt8.toNat_ofNat']
    omega
  rw [decodeFrom.eq_def]
  simp only [if_pos hfirst, hvalue]

private theorem decodeFrom_two (index : Nat) {v : Nat} (hlow : 0x7f < v) (hhigh : v ≤ 0x7ff)
    (rest : List UInt8) :
    decodeFrom index
        (UInt8.ofNat (v / 64 % 32 + 0xc0) :: UInt8.ofNat (v % 64 + 0x80) :: rest) =
      (decodeFrom (index + 2) rest).map (Char.ofNat v :: ·) := by
  have hfirst : (UInt8.ofNat (v / 64 % 32 + 0xc0)).toNat = v / 64 + 0xc0 := by
    simp only [UInt8.toNat_ofNat']
    omega
  rw [decodeFrom.eq_def]
  dsimp only
  rw [if_neg, if_pos]
  · simp only [isTail_ofNat (Nat.mod_lt v (by omega : 0 < 64)),
      tailBits_ofNat (Nat.mod_lt v (by omega : 0 < 64)), if_true, hfirst]
    rw [show (v / 64 + 0xc0 - 0xc0) * 64 + v % 64 = v by omega]
  · simp only [between_iff, hfirst, UInt8.reduceToNat]
    omega
  · simp only [UInt8.lt_iff_toNat_lt, hfirst, UInt8.reduceToNat]
    omega

private theorem decodeFrom_three (index : Nat) {v : Nat} (hlow : 0x7ff < v) (hhigh : v ≤ 0xffff)
    (hscalar : v < 0xD800 ∨ 0xDFFF < v) (rest : List UInt8) :
    decodeFrom index (UInt8.ofNat (v / 4096 % 16 + 0xe0) ::
        UInt8.ofNat (v / 64 % 64 + 0x80) :: UInt8.ofNat (v % 64 + 0x80) :: rest) =
      (decodeFrom (index + 3) rest).map (Char.ofNat v :: ·) := by
  have hfirst : (UInt8.ofNat (v / 4096 % 16 + 0xe0)).toNat = v / 4096 + 0xe0 := by
    simp only [UInt8.toNat_ofNat']
    omega
  rw [decodeFrom.eq_def]
  dsimp only
  rw [if_neg, if_neg, if_pos]
  · simp only [allowsSecond3_ofNat hlow hhigh hscalar, Bool.not_true, Bool.false_eq_true, if_false,
      isTail_ofNat (Nat.mod_lt v (by omega : 0 < 64)),
      tailBits_ofNat (Nat.mod_lt v (by omega : 0 < 64)),
      tailBits_ofNat (Nat.mod_lt (v / 64) (by omega : 0 < 64)), if_true, hfirst]
    rw [show (v / 4096 + 0xe0 - 0xe0) * 4096 + v / 64 % 64 * 64 + v % 64 = v by omega]
  · simp only [between_iff, hfirst, UInt8.reduceToNat]
    omega
  · simp only [between_iff, hfirst, UInt8.reduceToNat]
    omega
  · simp only [UInt8.lt_iff_toNat_lt, hfirst, UInt8.reduceToNat]
    omega

private theorem decodeFrom_four (index : Nat) {v : Nat} (hlow : 0xffff < v) (hhigh : v < 0x110000)
    (rest : List UInt8) :
    decodeFrom index (UInt8.ofNat (v / 262144 % 8 + 0xf0) ::
        UInt8.ofNat (v / 4096 % 64 + 0x80) :: UInt8.ofNat (v / 64 % 64 + 0x80) ::
          UInt8.ofNat (v % 64 + 0x80) :: rest) =
      (decodeFrom (index + 4) rest).map (Char.ofNat v :: ·) := by
  have hfirst : (UInt8.ofNat (v / 262144 % 8 + 0xf0)).toNat = v / 262144 + 0xf0 := by
    simp only [UInt8.toNat_ofNat']
    omega
  rw [decodeFrom.eq_def]
  dsimp only
  rw [if_neg, if_neg, if_neg, if_pos]
  · simp only [allowsSecond4_ofNat hlow hhigh, Bool.not_true, Bool.false_eq_true, if_false,
      isTail_ofNat (Nat.mod_lt v (by omega : 0 < 64)),
      isTail_ofNat (Nat.mod_lt (v / 64) (by omega : 0 < 64)),
      tailBits_ofNat (Nat.mod_lt v (by omega : 0 < 64)),
      tailBits_ofNat (Nat.mod_lt (v / 64) (by omega : 0 < 64)),
      tailBits_ofNat (Nat.mod_lt (v / 4096) (by omega : 0 < 64)), if_true, hfirst]
    rw [show (v / 262144 + 0xf0 - 0xf0) * 262144 + v / 4096 % 64 * 4096 + v / 64 % 64 * 64 +
      v % 64 = v by omega]
  · simp only [between_iff, hfirst, UInt8.reduceToNat]
    omega
  · simp only [between_iff, hfirst, UInt8.reduceToNat]
    omega
  · simp only [between_iff, hfirst, UInt8.reduceToNat]
    omega
  · simp only [UInt8.lt_iff_toNat_lt, hfirst, UInt8.reduceToNat]
    omega

/-- The bytes of a character are read as that character, whatever follows them. -/
theorem decodeFrom_utf8EncodeChar (index : Nat) (c : Char) (rest : List UInt8) :
    decodeFrom index (String.utf8EncodeChar c ++ rest) =
      (decodeFrom (index + c.utf8Size) rest).map (c :: ·) := by
  have hscalar : c.val.toNat < 0xD800 ∨ 0xDFFF < c.val.toNat ∧ c.val.toNat < 0x110000 := c.valid
  have hchar : Char.ofNat c.val.toNat = c := Char.ofNat_toNat c
  simp only [String.utf8EncodeChar, Char.utf8Size, UInt32.le_iff_toNat_le,
    UInt32.toNat_ofNatLT]
  generalize c.val.toNat = v at hscalar hchar
  subst hchar
  split
  next h => exact decodeFrom_one index h rest
  next hone =>
    split
    next h => exact decodeFrom_two index (by omega) h rest
    next htwo =>
      split
      next h => exact decodeFrom_three index (by omega) h (by omega) rest
      next hthree => exact decodeFrom_four index (by omega) (by omega) rest

theorem decodeFrom_encode (index : Nat) (cs : List Char) :
    decodeFrom index (cs.flatMap String.utf8EncodeChar) = .ok cs := by
  induction cs generalizing index with
  | nil => rfl
  | cons c cs ih =>
      rw [List.flatMap_cons, decodeFrom_utf8EncodeChar, ih]
      rfl

/-- The bytes that spell a text are read as that text. -/
theorem decode_encode (s : String) : decode (encode s) = .ok s := by
  simp only [decode, encode, decodeFrom_encode, Except.map, String.ofList_toList]

private theorem val_ofNat {v : Nat} (h : v < 0xD800 ∨ 0xDFFF < v ∧ v < 0x110000) :
    (Char.ofNat v).val.toNat = v := by
  have hvalid : v.isValidChar := h
  rw [Char.ofNat, dif_pos hvalid]
  rfl

theorem bounds_of_isTail {b : UInt8} (h : isTail b = true) : 0x80 ≤ b.toNat ∧ b.toNat ≤ 0xBF :=
  between_iff.mp h

/-- The byte behind the first of three continues a character, and it stays clear of overlong forms
and of surrogates. -/
theorem bounds_of_allowsSecond3 {a b : UInt8} (h : allowsSecond3 a b = true) :
    0x80 ≤ b.toNat ∧ b.toNat ≤ 0xBF ∧ (a.toNat = 0xE0 → 0xA0 ≤ b.toNat) ∧
      (a.toNat = 0xED → b.toNat ≤ 0x9F) := by
  simp only [allowsSecond3, isTail, ← UInt8.toNat_inj, UInt8.reduceToNat] at h
  split at h
  · have hb := between_iff.mp h
    simp only [UInt8.reduceToNat] at hb
    omega
  · split at h
    · have hb := between_iff.mp h
      simp only [UInt8.reduceToNat] at hb
      omega
    · have hb := bounds_of_isTail h
      omega

/-- The byte behind the first of four continues a character, and it stays clear of overlong forms
and of what lies beyond the last code point. -/
theorem bounds_of_allowsSecond4 {a b : UInt8} (h : allowsSecond4 a b = true) :
    0x80 ≤ b.toNat ∧ b.toNat ≤ 0xBF ∧ (a.toNat = 0xF0 → 0x90 ≤ b.toNat) ∧
      (a.toNat = 0xF4 → b.toNat ≤ 0x8F) := by
  simp only [allowsSecond4, isTail, ← UInt8.toNat_inj, UInt8.reduceToNat] at h
  split at h
  · have hb := between_iff.mp h
    simp only [UInt8.reduceToNat] at hb
    omega
  · split at h
    · have hb := between_iff.mp h
      simp only [UInt8.reduceToNat] at hb
      omega
    · have hb := bounds_of_isTail h
      omega

private theorem encodeChar_one {a : UInt8} (ha : a < 0x80) :
    String.utf8EncodeChar (Char.ofNat a.toNat) = [a] := by
  have ha : a.toNat < 0x80 := UInt8.lt_iff_toNat_lt.mp ha
  have hval := val_ofNat (v := a.toNat) (by omega)
  simp only [String.utf8EncodeChar, hval]
  rw [if_pos (by omega), UInt8.ofNat_toNat]

private theorem encodeChar_two {a b : UInt8} (ha : 0xC2 ≤ a.toNat ∧ a.toNat ≤ 0xDF)
    (hb : isTail b = true) :
    String.utf8EncodeChar (Char.ofNat ((a.toNat - 0xC0) * 64 + tailBits b)) = [a, b] := by
  have hb := bounds_of_isTail hb
  have hval := val_ofNat (v := (a.toNat - 0xC0) * 64 + b.toNat % 64) (by omega)
  simp only [String.utf8EncodeChar, tailBits, hval]
  rw [if_neg (by omega), if_pos (by omega)]
  simp only [List.cons.injEq, ← UInt8.toNat_inj, UInt8.toNat_ofNat', and_true]
  omega

private theorem encodeChar_three {a b c : UInt8} (ha : 0xE0 ≤ a.toNat ∧ a.toNat ≤ 0xEF)
    (hb : allowsSecond3 a b = true) (hc : isTail c = true) :
    String.utf8EncodeChar
        (Char.ofNat ((a.toNat - 0xE0) * 4096 + tailBits b * 64 + tailBits c)) = [a, b, c] := by
  have hb := bounds_of_allowsSecond3 hb
  have hc := bounds_of_isTail hc
  have hval := val_ofNat
    (v := (a.toNat - 0xE0) * 4096 + b.toNat % 64 * 64 + c.toNat % 64) (by omega)
  simp only [String.utf8EncodeChar, tailBits, hval]
  rw [if_neg (by omega), if_neg (by omega), if_pos (by omega)]
  simp only [List.cons.injEq, ← UInt8.toNat_inj, UInt8.toNat_ofNat', and_true]
  omega

private theorem encodeChar_four {a b c d : UInt8} (ha : 0xF0 ≤ a.toNat ∧ a.toNat ≤ 0xF4)
    (hb : allowsSecond4 a b = true) (hc : isTail c = true) (hd : isTail d = true) :
    String.utf8EncodeChar (Char.ofNat ((a.toNat - 0xF0) * 262144 + tailBits b * 4096 +
        tailBits c * 64 + tailBits d)) = [a, b, c, d] := by
  have hb := bounds_of_allowsSecond4 hb
  have hc := bounds_of_isTail hc
  have hd := bounds_of_isTail hd
  have hval := val_ofNat (v := (a.toNat - 0xF0) * 262144 + b.toNat % 64 * 4096 +
    c.toNat % 64 * 64 + d.toNat % 64) (by omega)
  simp only [String.utf8EncodeChar, tailBits, hval]
  rw [if_neg (by omega), if_neg (by omega), if_neg (by omega)]
  simp only [List.cons.injEq, ← UInt8.toNat_inj, UInt8.toNat_ofNat', and_true]
  omega

/-- Bytes that are read spell what is read. -/
theorem eq_encode_of_decodeFrom {index : Nat} {bytes : List UInt8} {cs : List Char}
    (h : decodeFrom index bytes = .ok cs) : bytes = cs.flatMap String.utf8EncodeChar := by
  -- One case for each width of the first character; in all others the bytes are at fault.
  fun_induction decodeFrom index bytes generalizing cs with
  | case1 index =>
      obtain rfl := Except.ok.inj h
      rfl
  | case2 index a rest ha ih =>
      obtain ⟨more, hmore, rfl⟩ := Except.map_eq_ok_iff.mp h
      rw [List.flatMap_cons, encodeChar_one ha, ← ih hmore, List.singleton_append]
  | case4 index a _ ha b rest hb ih =>
      obtain ⟨more, hmore, rfl⟩ := Except.map_eq_ok_iff.mp h
      rw [List.flatMap_cons, encodeChar_two (between_iff.mp ha) hb, ← ih hmore]
      rfl
  | case9 index a _ _ ha b hb c rest hc ih =>
      obtain ⟨more, hmore, rfl⟩ := Except.map_eq_ok_iff.mp h
      rw [List.flatMap_cons, encodeChar_three (between_iff.mp ha) (by simpa using hb) hc,
        ← ih hmore]
      rfl
  | case16 index a _ _ _ ha b hb c hc d rest hd ih =>
      obtain ⟨more, hmore, rfl⟩ := Except.map_eq_ok_iff.mp h
      rw [List.flatMap_cons, encodeChar_four (between_iff.mp ha) (by simpa using hb)
        (by simpa using hc) hd, ← ih hmore]
      rfl
  | _ => cases h

/-- Bytes are read as a text exactly when they are those that spell it. -/
theorem decode_eq_ok_iff {bytes : List UInt8} {s : String} :
    decode bytes = .ok s ↔ bytes = encode s := by
  constructor
  · intro h
    obtain ⟨cs, hcs, rfl⟩ := Except.map_eq_ok_iff.mp h
    rw [encode, String.toList_ofList]
    exact eq_encode_of_decodeFrom hcs
  · rintro rfl
    exact decode_encode s

/-- A character of ASCII is the one byte of its code. -/
theorem utf8EncodeChar_of_lt {c : Char} (h : c.toNat < 128) :
    String.utf8EncodeChar c = [UInt8.ofNat c.toNat] := by
  have hone : c.val.toNat ≤ 0x7f := Nat.le_of_lt_succ h
  simp only [String.utf8EncodeChar]
  rw [if_pos hone]
  rfl

/-- No byte of any other character is one of ASCII. -/
theorem le_of_mem_utf8EncodeChar {c : Char} (h : 128 ≤ c.toNat) {b : UInt8}
    (hb : b ∈ String.utf8EncodeChar c) : 128 ≤ b.toNat := by
  have hmany : ¬ c.val.toNat ≤ 0x7f := Nat.not_le.mpr h
  simp only [String.utf8EncodeChar] at hb
  rw [if_neg hmany] at hb
  split at hb
  · simp only [List.mem_cons, List.not_mem_nil, or_false] at hb
    rcases hb with rfl | rfl <;> simp only [UInt8.toNat_ofNat'] <;> omega
  · split at hb
    · simp only [List.mem_cons, List.not_mem_nil, or_false] at hb
      rcases hb with rfl | rfl | rfl <;> simp only [UInt8.toNat_ofNat'] <;> omega
    · simp only [List.mem_cons, List.not_mem_nil, or_false] at hb
      rcases hb with rfl | rfl | rfl | rfl <;> simp only [UInt8.toNat_ofNat'] <;> omega

private theorem toList_loop (bytes : ByteArray) (i : Nat) (read : List UInt8) :
    ByteArray.toList.loop bytes i read = read.reverse ++ bytes.data.toList.drop i := by
  rw [ByteArray.toList.loop.eq_def]
  split
  next h =>
    have hi : i < bytes.data.toList.length := h
    rw [toList_loop bytes (i + 1), List.drop_eq_getElem_cons hi, List.reverse_cons,
      List.append_assoc, List.singleton_append]
    have hget : bytes.get! i = bytes.data.toList[i] := by
      rw [Array.getElem_toList]
      exact getElem!_pos bytes.data i h
    rw [hget]
  next h =>
    rw [List.drop_eq_nil_of_le (Nat.le_of_not_lt h), List.append_nil]
termination_by bytes.size - i

/-- The bytes of a text, taken as an array, are those that spell it. -/
theorem toList_toUTF8 (s : String) : s.toUTF8.toList = encode s := by
  have hloop := toList_loop s.toByteArray 0 []
  rw [List.reverse_nil, List.nil_append, List.drop_zero] at hloop
  rw [String.toUTF8_eq_toByteArray, ByteArray.toList, hloop, ← String.utf8Encode_toList,
    List.utf8Encode, List.toList_data_toByteArray]
  rfl

end Hygiene.Text.Utf8
