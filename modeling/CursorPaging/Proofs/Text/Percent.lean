import CursorPaging.Proofs.Text.Utf8
import CursorPaging.Text.Percent

/-!
# Undoing percent escapes

Escaped bytes and texts are read back, and consist of plain characters and `%` only, so that a
delimiter never occurs in them.

* `unescape_escape`: escaped bytes are read back;
* `mem_escape`: the characters of escaped bytes;
* **`decode?_encode`**: an escaped text is read back;
* `decode?_eq_some_iff`: the texts that are read with their escapes undone;
* `Broken`: what a cut leaves of an escape; `exists_of_prefix_escape`, `unescape_escape_append`:
  escaped bytes that are cut off, and what they are read as.
-/

namespace CursorPaging

namespace Percent

theorem toNat_ofNat (byte : UInt8) : (Char.ofNat byte.toNat).toNat = byte.toNat := by
  have hvalid : byte.toNat.isValidChar := Or.inl (by have := byte.toNat_lt; omega)
  rw [Char.ofNat, dif_pos hvalid]
  rfl

theorem lt_of_isPlain {c : Char} (h : isPlain c = true) : c.toNat < 128 := by
  change (decide ('A'.val ≤ c.val ∧ c.val ≤ 'Z'.val) ||
    (decide ('a'.val ≤ c.val) && decide (c.val ≤ 'z'.val)) ||
      (decide ('0'.val ≤ c.val) && decide (c.val ≤ '9'.val))) = true at h
  simp only [Bool.or_eq_true, Bool.and_eq_true, decide_eq_true_eq, UInt32.le_iff_toNat_le] at h
  change (65 ≤ c.toNat ∧ c.toNat ≤ 90 ∨ 97 ≤ c.toNat ∧ c.toNat ≤ 122) ∨
    48 ≤ c.toNat ∧ c.toNat ≤ 57 at h
  omega

theorem isPlain_hexDigit : ∀ n < 16, isPlain (hexDigit n) = true := by decide

theorem digitValue?_hexDigit : ∀ n < 16, digitValue? (hexDigit n) = some n := by decide

theorem escapedByte?_hexDigits (byte : UInt8) :
    escapedByte? (hexDigit (byte.toNat / 16)) (hexDigit (byte.toNat % 16)) = some byte := by
  have hbyte := byte.toNat_lt
  rw [escapedByte?, digitValue?_hexDigit _ (by omega), digitValue?_hexDigit _ (by omega)]
  change some (UInt8.ofNat (byte.toNat / 16 * 16 + byte.toNat % 16)) = some byte
  rw [show byte.toNat / 16 * 16 + byte.toNat % 16 = byte.toNat by omega, UInt8.ofNat_toNat]

theorem escapeByte_eq (byte : UInt8) : escapeByte byte =
    if isPlain (Char.ofNat byte.toNat) then [Char.ofNat byte.toNat]
    else ['%', hexDigit (byte.toNat / 16), hexDigit (byte.toNat % 16)] := rfl

/-! ## Characters of escaped bytes -/

theorem mem_escapeByte {byte : UInt8} {c : Char} (h : c ∈ escapeByte byte) :
    isPlain c = true ∨ c = '%' := by
  have hbyte := byte.toNat_lt
  rw [escapeByte_eq] at h
  split_ifs at h with hplain
  · rw [List.mem_singleton.1 h]
    exact Or.inl hplain
  · simp only [List.mem_cons, List.not_mem_nil, or_false] at h
    rcases h with rfl | rfl | rfl
    · exact Or.inr rfl
    · exact Or.inl (isPlain_hexDigit _ (by omega))
    · exact Or.inl (isPlain_hexDigit _ (by omega))

theorem mem_escape {bytes : List UInt8} {c : Char} (h : c ∈ escape bytes) :
    isPlain c = true ∨ c = '%' := by
  obtain ⟨byte, _, hc⟩ := List.mem_flatMap.1 h
  exact mem_escapeByte hc

theorem escapeByte_ne_nil (byte : UInt8) : escapeByte byte ≠ [] := by
  rw [escapeByte_eq]
  split_ifs
  · exact List.cons_ne_nil _ _
  · exact List.cons_ne_nil _ _

theorem encode_ne_nil {c : Char} {text : List Char} : encode (c :: text) ≠ [] := by
  intro h
  rw [encode, escape, List.flatMap_eq_nil_iff] at h
  obtain ⟨byte, rest, hbytes⟩ := List.exists_cons_of_ne_nil (String.utf8EncodeChar_ne_nil (c := c))
  refine escapeByte_ne_nil byte (h byte ?_)
  rw [Utf8.encode_cons, hbytes]
  exact List.mem_cons_self

/-! ## Reading back -/

theorem unescape_cons {c : Char} (h : c ≠ '%') (rest : List Char) :
    unescape (c :: rest) = String.utf8EncodeChar c ++ unescape rest := by
  match rest with
  | [] => exact (List.append_nil _).symm
  | [_] => rfl
  | _ :: _ :: _ => rw [unescape, if_neg h]

theorem unescape_escapeByte (byte : UInt8) (rest : List Char) :
    unescape (escapeByte byte ++ rest) = byte :: unescape rest := by
  rw [escapeByte_eq]
  split_ifs with hplain
  · have hne : Char.ofNat byte.toNat ≠ '%' := by
      intro h
      rw [h] at hplain
      exact absurd hplain (by decide)
    rw [List.singleton_append, unescape_cons hne, Utf8.encodeChar_ascii (lt_of_isPlain hplain),
      toNat_ofNat, UInt8.ofNat_toNat, List.singleton_append]
  · simp only [List.cons_append, List.nil_append]
    rw [unescape, if_pos rfl, escapedByte?_hexDigits]

theorem unescape_escape : ∀ bytes : List UInt8, unescape (escape bytes) = bytes
  | [] => rfl
  | byte :: bytes => by
    rw [escape, List.flatMap_cons, unescape_escapeByte, ← escape, unescape_escape bytes]

/-- **An escaped text is read back.** -/
theorem decode?_encode (text : List Char) : decode? (encode text) = some text := by
  rw [decode?, encode, unescape_escape, Utf8.decode_encode]
  rfl

theorem decode?_eq_some_iff {text decoded : List Char} :
    decode? text = some decoded ↔ unescape text = Utf8.encode decoded := by
  rw [← Utf8.decode_eq_ok_iff, decode?]
  cases Utf8.decode (unescape text) <;> simp [Except.toOption]

/-! ## Cut escapes -/

/-- What a cut can leave of an escape in its middle. -/
inductive Broken : List Char → Prop
  | none : Broken []
  | mark : Broken ['%']
  | digit (n : Nat) : Broken ['%', hexDigit n]

theorem Broken.eq_nil : ∀ {tail : List Char}, Broken tail → 37 ∉ Utf8.encode tail → tail = []
  | _, .none, _ => rfl
  | _, .mark, h | _, .digit _, h => absurd (List.mem_cons_self : (37 : UInt8) ∈ 37 :: _) h

/-- The first characters of escaped bytes are the first bytes escaped, and what is left of an escape
that was cut. -/
theorem exists_of_prefix_escape :
    ∀ {bytes : List UInt8} {front : List Char}, front <+: escape bytes →
    ∃ n tail, Broken tail ∧ front = escape (bytes.take n) ++ tail
  | [], front, h => ⟨0, [], .none, List.prefix_nil.1 h⟩
  | byte :: bytes, front, h => by
    have hnext : ∀ {rest}, rest <+: escape bytes → ∃ n tail, Broken tail ∧
        escapeByte byte ++ rest = escape ((byte :: bytes).take n) ++ tail := by
      intro rest hrest
      obtain ⟨n, tail, hbroken, rfl⟩ := exists_of_prefix_escape hrest
      refine ⟨n + 1, tail, hbroken, ?_⟩
      rw [List.take_succ_cons, escape, escape, List.flatMap_cons, List.append_assoc]
    rw [escape, List.flatMap_cons, ← escape] at h
    by_cases hplain : isPlain (Char.ofNat byte.toNat) = true
    · rw [escapeByte_eq, if_pos hplain, List.singleton_append, List.prefix_cons_iff] at h
      rcases h with rfl | ⟨rest, rfl, hrest⟩
      · exact ⟨0, [], .none, rfl⟩
      · have hwhole := hnext hrest
        rwa [escapeByte_eq, if_pos hplain] at hwhole
    · rw [escapeByte_eq, if_neg hplain] at h
      simp only [List.cons_append, List.nil_append, List.prefix_cons_iff] at h
      rcases h with rfl | ⟨_, rfl, rfl | ⟨_, rfl, rfl | ⟨rest, rfl, hrest⟩⟩⟩
      · exact ⟨0, [], .none, rfl⟩
      · exact ⟨0, _, .mark, rfl⟩
      · exact ⟨0, _, .digit _, rfl⟩
      · have hwhole := hnext hrest
        rwa [escapeByte_eq, if_neg hplain] at hwhole

theorem unescape_escape_append : ∀ (bytes : List UInt8) {tail : List Char}, Broken tail →
    unescape (escape bytes ++ tail) = bytes ++ Utf8.encode tail
  | [], _, .none | [], _, .mark => rfl
  | [], _, .digit n => by
    change String.utf8EncodeChar '%' ++ String.utf8EncodeChar (hexDigit n) = _
    rw [List.nil_append, Utf8.encode_cons, Utf8.encode_cons]
    exact congrArg _ (List.append_nil _).symm
  | byte :: bytes, tail, h => by
    rw [escape, List.flatMap_cons, List.append_assoc, unescape_escapeByte, ← escape,
      unescape_escape_append bytes h, List.cons_append]

end Percent

end CursorPaging
