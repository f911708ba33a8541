import Mathlib.Tactic.SplitIfs
import CursorPaging.Text.Utf8

/-!
# Reading UTF-8 back

The bytes of a text are read as that text, and no other bytes are read as it.

* `encode_ascii`, `encode_lt_encode`: the bytes of ASCII texts, and their order;
* `lead?_two`, `lead?_three`, `lead?_four`: what the first byte of a longer character announces;
* `read_encodeChar`: one character is read off the front, whatever follows it;
* **`decode_encode`**: every text is read back from its bytes;
* `Announces`: what first bytes can announce; `exists_char_of_read`: what is read begins with the
  bytes of a character;
* **`decode_eq_ok_iff`**: some bytes are read as a text exactly when they are its bytes;
* `encode_injective`, `encode_take`: texts by their bytes, also when they are cut off.
-/

namespace CursorPaging

namespace Utf8

theorem encode_cons (c : Char) (text : List Char) :
    encode (c :: text) = String.utf8EncodeChar c ++ encode text := rfl

theorem encodeChar_ascii {c : Char} (h : c.toNat < 128) :
    String.utf8EncodeChar c = [UInt8.ofNat c.toNat] := by
  have hv : c.val.toNat ≤ 0x7f := Nat.le_of_lt_succ h
  simp only [String.utf8EncodeChar, if_pos hv]
  rfl

theorem encode_ascii : ∀ {text : List Char}, (∀ c ∈ text, c.toNat < 128) →
    encode text = text.map fun c => UInt8.ofNat c.toNat
  | [], _ => rfl
  | c :: rest, h => by
    rw [encode_cons, encodeChar_ascii (h c List.mem_cons_self),
      encode_ascii fun d hd => h d (List.mem_cons_of_mem _ hd)]
    rfl

theorem toNat_ofNat_of_lt {n : Nat} (h : n < 256) : (UInt8.ofNat n).toNat = n := by
  rw [UInt8.toNat_ofNat']
  exact Nat.mod_eq_of_lt h

theorem encode_lt_encode : ∀ {a b : List Char}, (∀ c ∈ a, c.toNat < 128) →
    (∀ c ∈ b, c.toNat < 128) → a < b → encode a < encode b
  | [], d :: b, _, hb, _ => by
    rw [encode_ascii hb]
    exact List.nil_lt_cons _ _
  | c :: a, d :: b, ha, hb, h => by
    have hc : c.toNat < 128 := ha c List.mem_cons_self
    have hd : d.toNat < 128 := hb d List.mem_cons_self
    rw [encode_cons, encode_cons, encodeChar_ascii hc, encodeChar_ascii hd]
    rcases List.cons_lt_cons_iff.1 h with hlt | ⟨rfl, hrest⟩
    · refine List.cons_lt_cons_iff.2 (.inl ?_)
      rw [UInt8.lt_iff_toNat_lt, toNat_ofNat_of_lt (by omega), toNat_ofNat_of_lt (by omega)]
      exact UInt32.lt_iff_toNat_lt.1 hlt
    · exact List.cons_lt_cons_iff.2 (.inr ⟨rfl, encode_lt_encode
        (fun e he => ha e (List.mem_cons_of_mem _ he))
        (fun e he => hb e (List.mem_cons_of_mem _ he)) hrest⟩)

theorem size_ofList (text : List Char) : size (String.ofList text) = (encode text).length := by
  rw [size, String.utf8ByteSize, String.toByteArray_ofList, List.utf8Encode]
  exact List.size_toByteArray

/-! ## First bytes -/

theorem lead?_one {v : Nat} (h : v ≤ 0x7f) : lead? v = some ⟨0, 0, 0, v⟩ := by
  unfold lead?
  rw [if_pos (by omega)]

theorem lead?_two {v : Nat} (h1 : 0x7f < v) (h2 : v ≤ 0x7ff) :
    lead? (v / 64 % 32 + 0xC0) = some ⟨1, 0x80, 0xBF, v / 64⟩ := by
  unfold lead?
  rw [if_neg (by omega), if_neg (by omega), if_pos (by omega),
    show v / 64 % 32 + 0xC0 - 0xC0 = v / 64 by omega]

/-- The second byte is in a narrower range after the least and the surrogate first byte. -/
theorem lead?_three {v : Nat} (h1 : 0x7ff < v) (h2 : v ≤ 0xffff) (hv : v < 0xD800 ∨ 0xDFFF < v) :
    ∃ low high, lead? (v / 64 / 64 % 16 + 0xE0) = some ⟨2, low, high, v / 64 / 64⟩ ∧
      low ≤ v / 64 % 64 + 0x80 ∧ v / 64 % 64 + 0x80 ≤ high := by
  unfold lead?
  rw [if_neg (by omega), if_neg (by omega), if_neg (by omega)]
  split_ifs with ha hb hc
  · exact ⟨0xA0, 0xBF, by rw [show v / 64 / 64 = 0 by omega], by omega, by omega⟩
  · exact ⟨0x80, 0x9F, by rw [show v / 64 / 64 = 0xD by omega], by omega, by omega⟩
  · exact ⟨0x80, 0xBF, by rw [show v / 64 / 64 % 16 + 0xE0 - 0xE0 = v / 64 / 64 by omega],
      by omega, by omega⟩
  all_goals omega

theorem lead?_four {v : Nat} (h1 : 0xffff < v) (h2 : v < 0x110000) :
    ∃ low high, lead? (v / 64 / 64 / 64 % 8 + 0xF0) = some ⟨3, low, high, v / 64 / 64 / 64⟩ ∧
      low ≤ v / 64 / 64 % 64 + 0x80 ∧ v / 64 / 64 % 64 + 0x80 ≤ high := by
  unfold lead?
  rw [if_neg (by omega), if_neg (by omega), if_neg (by omega), if_neg (by omega),
    if_neg (by omega), if_neg (by omega)]
  split_ifs with ha hb hc
  · exact ⟨0x90, 0xBF, by rw [show v / 64 / 64 / 64 = 0 by omega], by omega, by omega⟩
  · exact ⟨0x80, 0xBF, by rw [show v / 64 / 64 / 64 % 8 + 0xF0 - 0xF0 = v / 64 / 64 / 64 by omega],
      by omega, by omega⟩
  · exact ⟨0x80, 0x8F, by rw [show v / 64 / 64 / 64 = 4 by omega], by omega, by omega⟩
  · omega

/-! ## Reading -/

theorem read_single {v : Nat} (h : v ≤ 0x7f) (index : Nat) (rest : List UInt8) :
    read none index (UInt8.ofNat v :: rest) =
      (read none (index + 1) rest).map (Char.ofNat v :: ·) := by
  rw [read, toNat_ofNat_of_lt (by omega), lead?_one h]
  rfl

theorem read_first {byte owed low high bits : Nat} (hb : byte < 256)
    (h : lead? byte = some ⟨owed + 1, low, high, bits⟩) (index : Nat) (rest : List UInt8) :
    read none index (UInt8.ofNat byte :: rest) =
      read (some ⟨index, 1, ⟨owed + 1, low, high, bits⟩⟩) (index + 1) rest := by
  rw [read, toNat_ofNat_of_lt hb, h]
  rfl

theorem read_middle {start seen owed low high n : Nat} (hl : low ≤ n % 64 + 0x80)
    (hh : n % 64 + 0x80 ≤ high) (index : Nat) (rest : List UInt8) :
    read (some ⟨start, seen, ⟨owed + 2, low, high, n / 64⟩⟩) index
        (UInt8.ofNat (n % 64 + 0x80) :: rest) =
      read (some ⟨start, seen + 1, ⟨owed + 1, 0x80, 0xBF, n⟩⟩) (index + 1) rest := by
  rw [read, toNat_ofNat_of_lt (by omega), if_pos ⟨hl, hh⟩,
    show n / 64 * 64 + (n % 64 + 0x80) % 64 = n by omega]
  exact if_neg (by simp)

theorem read_last {start seen low high n : Nat} (hl : low ≤ n % 64 + 0x80)
    (hh : n % 64 + 0x80 ≤ high) (index : Nat) (rest : List UInt8) :
    read (some ⟨start, seen, ⟨1, low, high, n / 64⟩⟩) index
        (UInt8.ofNat (n % 64 + 0x80) :: rest) =
      (read none (index + 1) rest).map (Char.ofNat n :: ·) := by
  rw [read, toNat_ofNat_of_lt (by omega), if_pos ⟨hl, hh⟩,
    show n / 64 * 64 + (n % 64 + 0x80) % 64 = n by omega]
  exact if_pos rfl

/-- **One character is read off the front.** -/
theorem read_encodeChar (c : Char) (index : Nat) (rest : List UInt8) :
    read none index (String.utf8EncodeChar c ++ rest) =
      (read none (index + (String.utf8EncodeChar c).length) rest).map (c :: ·) := by
  have hc : Char.ofNat c.val.toNat = c := Char.ofNat_toNat c
  have hvalid : c.val.toNat < 0xD800 ∨ 0xDFFF < c.val.toNat ∧ c.val.toNat < 0x110000 := c.valid
  unfold String.utf8EncodeChar
  generalize c.val.toNat = v at hc hvalid
  have h4096 : v / 4096 = v / 64 / 64 := (Nat.div_div_eq_div_mul v 64 64).symm
  have h262144 : v / 262144 = v / 64 / 64 / 64 := by omega
  simp only [h4096, h262144]
  split_ifs with h1 h2 h3
  · rw [List.cons_append, read_single h1, hc]
    rfl
  · rw [List.cons_append, read_first (by omega) (lead?_two (by omega) h2), List.cons_append,
      read_last (by omega) (by omega), hc]
    rfl
  · obtain ⟨low, high, hlead, hlow, hhigh⟩ := @lead?_three v (by omega) h3 (by omega)
    rw [List.cons_append, read_first (by omega) hlead, List.cons_append, read_middle hlow hhigh,
      List.cons_append, read_last (by omega) (by omega), hc]
    rfl
  · obtain ⟨low, high, hlead, hlow, hhigh⟩ := @lead?_four v (by omega) (by omega)
    rw [List.cons_append, read_first (by omega) hlead, List.cons_append, read_middle hlow hhigh,
      List.cons_append, read_middle (by omega) (by omega), List.cons_append,
      read_last (by omega) (by omega), hc]
    rfl

theorem read_encode : ∀ (text : List Char) (index : Nat),
    read none index (encode text) = .ok text
  | [], _ => rfl
  | c :: text, index => by
    rw [encode_cons, read_encodeChar, read_encode text]
    rfl

/-- **Every text is read back from its bytes.** -/
theorem decode_encode (text : List Char) : decode (encode text) = .ok text := read_encode text 0

/-! ## What is read -/

/-- What a first byte can announce. The second byte is bounded so that no character has a longer
form, no surrogate is read, and nothing beyond the last character. -/
inductive Announces (byte : Nat) : Lead → Prop
  | one (h : byte < 0x80) : Announces byte ⟨0, 0, 0, byte⟩
  | two (h1 : 0xC2 ≤ byte) (h2 : byte < 0xE0) : Announces byte ⟨1, 0x80, 0xBF, byte - 0xC0⟩
  | three {low high : Nat} (h1 : 0xE0 ≤ byte) (h2 : byte < 0xF0) (hlow : 0x80 ≤ low)
      (hhigh : high ≤ 0xBF) (least : byte = 0xE0 → 0xA0 ≤ low)
      (surrogates : byte = 0xED → high ≤ 0x9F) : Announces byte ⟨2, low, high, byte - 0xE0⟩
  | four {low high : Nat} (h1 : 0xF0 ≤ byte) (h2 : byte ≤ 0xF4) (hlow : 0x80 ≤ low)
      (hhigh : high ≤ 0xBF) (least : byte = 0xF0 → 0x90 ≤ low)
      (largest : byte = 0xF4 → high ≤ 0x8F) : Announces byte ⟨3, low, high, byte - 0xF0⟩

theorem announces_of_lead? {byte : Nat} {lead : Lead} (h : lead? byte = some lead) :
    Announces byte lead := by
  unfold lead? at h
  split_ifs at h with h1 h2 h3 h4 h5 h6 h7 h8 h9 <;> cases h
  · exact .one h1
  · exact .two (by omega) h3
  · subst h4
    exact .three (by omega) (by omega) (by omega) (by omega) (by omega) (by omega)
  · subst h5
    exact .three (by omega) (by omega) (by omega) (by omega) (by omega) (by omega)
  · exact .three (by omega) h6 (by omega) (by omega) (by omega) (by omega)
  · subst h7
    exact .four (by omega) (by omega) (by omega) (by omega) (by omega) (by omega)
  · exact .four (by omega) (by omega) (by omega) (by omega) (by omega) (by omega)
  · subst h9
    exact .four (by omega) (by omega) (by omega) (by omega) (by omega) (by omega)

section

variable {start seen owed low high bits index : Nat} {bytes : List UInt8} {text : List Char}

theorem read_last_ok (h : read (some ⟨start, seen, ⟨1, low, high, bits⟩⟩) index bytes = .ok text) :
    ∃ byte rest more, bytes = byte :: rest ∧ low ≤ byte.toNat ∧ byte.toNat ≤ high ∧
      text = Char.ofNat (bits * 64 + byte.toNat % 64) :: more ∧
      read none (index + 1) rest = .ok more := by
  cases bytes with
  | nil => cases h
  | cons byte rest =>
    rw [read] at h
    split_ifs at h with hrange hone
    · cases hmore : read none (index + 1) rest with
      | error fault => rw [hmore] at h; cases h
      | ok more =>
        rw [hmore] at h
        cases h
        exact ⟨byte, rest, more, rfl, hrange.1, hrange.2, rfl, hmore⟩
    · exact absurd rfl hone

theorem read_middle_ok
    (h : read (some ⟨start, seen, ⟨owed + 2, low, high, bits⟩⟩) index bytes = .ok text) :
    ∃ byte rest, bytes = byte :: rest ∧ low ≤ byte.toNat ∧ byte.toNat ≤ high ∧
      read (some ⟨start, seen + 1, ⟨owed + 1, 0x80, 0xBF, bits * 64 + byte.toNat % 64⟩⟩)
        (index + 1) rest = .ok text := by
  cases bytes with
  | nil => cases h
  | cons byte rest =>
    rw [read] at h
    split_ifs at h with hrange hone
    · exact absurd hone (by simp)
    · exact ⟨byte, rest, rfl, hrange.1, hrange.2, h⟩

theorem toNat_val_ofNat {v : Nat} (h : v.isValidChar) : (Char.ofNat v).val.toNat = v := by
  rw [Char.ofNat, dif_pos h]
  rfl

theorem encodeChar_two {v : Nat} (h1 : 0x7f < v) (h2 : v ≤ 0x7ff) :
    String.utf8EncodeChar (Char.ofNat v) =
      [UInt8.ofNat (v / 64 % 32 + 0xC0), UInt8.ofNat (v % 64 + 0x80)] := by
  have hv : (Char.ofNat v).val.toNat = v := toNat_val_ofNat (Or.inl (by omega))
  simp only [String.utf8EncodeChar, hv, if_neg (Nat.not_le.2 h1), if_pos h2]

theorem encodeChar_three {v : Nat} (h1 : 0x7ff < v) (h2 : v ≤ 0xffff)
    (hv : v < 0xD800 ∨ 0xDFFF < v) : String.utf8EncodeChar (Char.ofNat v) =
      [UInt8.ofNat (v / 4096 % 16 + 0xE0), UInt8.ofNat (v / 64 % 64 + 0x80),
        UInt8.ofNat (v % 64 + 0x80)] := by
  have hval : (Char.ofNat v).val.toNat = v := toNat_val_ofNat (hv.imp_right fun h => ⟨h, by omega⟩)
  have h0 : ¬ v ≤ 0x7f := by omega
  simp only [String.utf8EncodeChar, hval, if_neg h0, if_neg (Nat.not_le.2 h1), if_pos h2]

theorem encodeChar_four {v : Nat} (h1 : 0xffff < v) (h2 : v < 0x110000) :
    String.utf8EncodeChar (Char.ofNat v) =
      [UInt8.ofNat (v / 262144 % 8 + 0xF0), UInt8.ofNat (v / 4096 % 64 + 0x80),
        UInt8.ofNat (v / 64 % 64 + 0x80), UInt8.ofNat (v % 64 + 0x80)] := by
  have hval : (Char.ofNat v).val.toNat = v := toNat_val_ofNat (Or.inr ⟨by omega, h2⟩)
  have h0 : ¬ v ≤ 0x7f := by omega
  have h0' : ¬ v ≤ 0x7ff := by omega
  simp only [String.utf8EncodeChar, hval, if_neg h0, if_neg h0', if_neg (Nat.not_le.2 h1)]

theorem ofNat_eq_of_toNat (byte : UInt8) {n : Nat} (h : byte.toNat = n) : UInt8.ofNat n = byte := by
  rw [← h, UInt8.ofNat_toNat]

/-- **Bytes that are read begin with the bytes of a character**, and the others are read on. -/
theorem exists_char_of_read (h : read none index bytes = .ok text) (hne : bytes ≠ []) :
    ∃ c rest more index', bytes = String.utf8EncodeChar c ++ rest ∧ text = c :: more ∧
      read none index' rest = .ok more := by
  cases bytes with
  | nil => exact absurd rfl hne
  | cons a rest =>
    rw [read] at h
    cases hlead : lead? a.toNat with
    | none => rw [hlead] at h; cases h
    | some lead =>
      simp only [hlead] at h
      -- a case for each length; the bounds of the second byte keep the number within that length
      cases announces_of_lead? hlead with
      | one h1 =>
        cases hmore : read none (index + 1) rest with
        | error fault => rw [hmore] at h; cases h
        | ok more =>
          rw [hmore] at h
          cases h
          refine ⟨Char.ofNat a.toNat, rest, more, _, ?_, rfl, hmore⟩
          have hval : (Char.ofNat a.toNat).toNat = a.toNat := toNat_val_ofNat (Or.inl (by omega))
          rw [encodeChar_ascii (by omega), hval, UInt8.ofNat_toNat]
          rfl
      | two h1 h2 =>
        obtain ⟨b, rest, more, rfl, hb1, hb2, rfl, hmore⟩ := read_last_ok h
        refine ⟨_, rest, more, _, ?_, rfl, hmore⟩
        rw [encodeChar_two (by omega) (by omega), ofNat_eq_of_toNat a (by omega),
          ofNat_eq_of_toNat b (by omega)]
        rfl
      | three h1 h2 hlow hhigh least surrogates =>
        obtain ⟨b, rest, rfl, hb1, hb2, h⟩ := read_middle_ok h
        obtain ⟨c, rest, more, rfl, hc1, hc2, rfl, hmore⟩ := read_last_ok h
        refine ⟨_, rest, more, _, ?_, rfl, hmore⟩
        rw [encodeChar_three (by omega) (by omega) (by omega),
          ofNat_eq_of_toNat a (by omega), ofNat_eq_of_toNat b (by omega),
          ofNat_eq_of_toNat c (by omega)]
        rfl
      | four h1 h2 hlow hhigh least largest =>
        obtain ⟨b, rest, rfl, hb1, hb2, h⟩ := read_middle_ok h
        obtain ⟨c, rest, rfl, hc1, hc2, h⟩ := read_middle_ok h
        obtain ⟨d, rest, more, rfl, hd1, hd2, rfl, hmore⟩ := read_last_ok h
        refine ⟨_, rest, more, _, ?_, rfl, hmore⟩
        rw [encodeChar_four (by omega) (by omega),
          ofNat_eq_of_toNat a (by omega), ofNat_eq_of_toNat b (by omega),
          ofNat_eq_of_toNat c (by omega), ofNat_eq_of_toNat d (by omega)]
        rfl

theorem eq_encode_of_read : ∀ {text : List Char} {index : Nat} {bytes : List UInt8},
    read none index bytes = .ok text → bytes = encode text
  | text, index, [], h => by
    cases h
    rfl
  | text, index, byte :: rest, h => by
    obtain ⟨c, tail, more, index', hbytes, rfl, hmore⟩ :=
      exists_char_of_read h (List.cons_ne_nil _ _)
    rw [hbytes, eq_encode_of_read hmore, encode_cons]

end

/-- **Some bytes are read as a text exactly when they are its bytes.** -/
theorem decode_eq_ok_iff {bytes : List UInt8} {text : List Char} :
    decode bytes = .ok text ↔ bytes = encode text :=
  ⟨eq_encode_of_read, fun h => h ▸ decode_encode text⟩

theorem encode_injective {a b : List Char} (h : encode a = encode b) : a = b :=
  Except.ok.inj ((decode_encode a).symm.trans (h ▸ decode_encode b))

theorem encode_take {text : List Char} (h : ∀ c ∈ text, c.toNat < 128) (n : Nat) :
    encode (text.take n) = (encode text).take n := by
  rw [encode_ascii h, encode_ascii fun c hc => h c (List.mem_of_mem_take hc), List.map_take]

end Utf8

end CursorPaging
