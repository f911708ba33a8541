import CursorPaging.Proofs.Text.Utf8
import CursorPaging.Text.Base64

/-!
# Reading base64 back

All bytes are read back from their symbols, and no other symbols are read as them: padding is whole
and the bits left over are zero.

* `symbolByte`: the byte of a symbol, with the alphabet read back in `value?_symbolByte`;
* `decodeFrom_encode`: groups are read back one by one, the last with its padding;
* **`decode_encode`**: all bytes are read back from their symbols;
* `valueAt_ok`, `group_ok`, `splitPadding_ok`, `lastGroup_ok`: what the passes accept;
* **`decode_eq_ok_iff`**: symbols are read as some bytes exactly when they are the symbols of these;
* `encodeBytes_injective`, `encodeBytes_take`: whole groups in front are those of the bytes in
  front.
-/

namespace CursorPaging

namespace Base64

/-- The byte of the symbol of a number below 64. -/
def symbolByte (n : Nat) : UInt8 := UInt8.ofNat (symbol n).toNat

theorem symbol_lt : ∀ n < 64, (symbol n).toNat < 128 := by decide

theorem value?_symbolByte : ∀ n < 64, value? (symbolByte n) = some n := by decide

theorem symbolByte_ne_padding : ∀ n < 64, symbolByte n ≠ padding := by decide

theorem valueAt_symbolByte {n : Nat} (h : n < 64) (offset : Nat) :
    valueAt offset (symbolByte n) = .ok n := by
  rw [valueAt, value?_symbolByte n h]

/-! ## Groups -/

theorem group_symbolBytes {a b c d : Nat} (ha : a < 64) (hb : b < 64) (hc : c < 64) (hd : d < 64)
    (offset : Nat) :
    group offset (symbolByte a) (symbolByte b) (symbolByte c) (symbolByte d) =
      .ok (bytesOf a b c d) := by
  simp only [group, valueAt_symbolByte ha, valueAt_symbolByte hb, valueAt_symbolByte hc,
    valueAt_symbolByte hd]

theorem splitPadding_symbolByte {n : Nat} (h : n < 64) (offset seen : Nat) {rest : List UInt8}
    {values : List Nat} {count : Nat}
    (hrest : splitPadding offset (seen + 1) none rest = .ok (values, count)) :
    splitPadding offset seen none (symbolByte n :: rest) = .ok (n :: values, count) := by
  rw [splitPadding, if_neg (symbolByte_ne_padding n h), valueAt_symbolByte h, hrest]

theorem bytesOf_split (x y z : UInt8) :
    bytesOf (x.toNat / 4) (x.toNat % 4 * 16 + y.toNat / 16) (y.toNat % 16 * 4 + z.toNat / 64)
      (z.toNat % 64) = [x, y, z] := by
  have hx := x.toNat_lt
  have hy := y.toNat_lt
  have hz := z.toNat_lt
  rw [bytesOf, show x.toNat / 4 * 4 + (x.toNat % 4 * 16 + y.toNat / 16) / 16 = x.toNat by omega,
    show (x.toNat % 4 * 16 + y.toNat / 16) % 16 * 16 + (y.toNat % 16 * 4 + z.toNat / 64) / 4 =
      y.toNat by omega,
    show (y.toNat % 16 * 4 + z.toNat / 64) % 4 * 64 + z.toNat % 64 = z.toNat by omega]
  simp only [UInt8.ofNat_toNat]

theorem lastGroup_four {a b c d : Nat} (ha : a < 64) (hb : b < 64) (hc : c < 64) (hd : d < 64)
    (offset : Nat) :
    lastGroup offset [symbolByte a, symbolByte b, symbolByte c, symbolByte d] =
      .ok (bytesOf a b c d) := by
  have hsplit : splitPadding offset 0 none
      [symbolByte a, symbolByte b, symbolByte c, symbolByte d] = .ok ([a, b, c, d], 0) :=
    splitPadding_symbolByte ha _ _ (splitPadding_symbolByte hb _ _ (splitPadding_symbolByte hc _ _
      (splitPadding_symbolByte hd _ _ rfl)))
  rw [lastGroup, hsplit]
  rfl

theorem lastGroup_three {a b c : Nat} (ha : a < 64) (hb : b < 64) (hc : c < 64)
    (h : c % 4 = 0) (offset : Nat) :
    lastGroup offset [symbolByte a, symbolByte b, symbolByte c, padding] =
      .ok ((bytesOf a b c 0).take 2) := by
  have hsplit : splitPadding offset 0 none [symbolByte a, symbolByte b, symbolByte c, padding] =
      .ok ([a, b, c], 1) :=
    splitPadding_symbolByte ha _ _ (splitPadding_symbolByte hb _ _ (splitPadding_symbolByte hc _ _
      rfl))
  rw [lastGroup, hsplit]
  exact if_pos h

theorem lastGroup_two {a b : Nat} (ha : a < 64) (hb : b < 64) (h : b % 16 = 0) (offset : Nat) :
    lastGroup offset [symbolByte a, symbolByte b, padding, padding] =
      .ok ((bytesOf a b 0 0).take 1) := by
  have hsplit : splitPadding offset 0 none [symbolByte a, symbolByte b, padding, padding] =
      .ok ([a, b], 2) :=
    splitPadding_symbolByte ha _ _ (splitPadding_symbolByte hb _ _ rfl)
  rw [lastGroup, hsplit]
  exact if_pos h

/-! ## Whole texts -/

theorem mem_encode_cases : ∀ {bytes : List UInt8} {c : Char}, c ∈ encode bytes →
    c = '=' ∨ ∃ n < 64, c = symbol n
  | [a], c, h => by
    have ha := a.toNat_lt
    simp only [encode, List.mem_cons, List.not_mem_nil, or_false] at h
    rcases h with rfl | rfl | rfl | rfl
    · exact .inr ⟨_, by omega, rfl⟩
    · exact .inr ⟨_, by omega, rfl⟩
    · exact .inl rfl
    · exact .inl rfl
  | [a, b], c, h => by
    have ha := a.toNat_lt
    have hb := b.toNat_lt
    simp only [encode, List.mem_cons, List.not_mem_nil, or_false] at h
    rcases h with rfl | rfl | rfl | rfl
    · exact .inr ⟨_, by omega, rfl⟩
    · exact .inr ⟨_, by omega, rfl⟩
    · exact .inr ⟨_, by omega, rfl⟩
    · exact .inl rfl
  | x :: y :: z :: rest, c, h => by
    have hx := x.toNat_lt
    have hy := y.toNat_lt
    have hz := z.toNat_lt
    simp only [encode, List.mem_cons] at h
    rcases h with rfl | rfl | rfl | rfl | h
    · exact .inr ⟨_, by omega, rfl⟩
    · exact .inr ⟨_, by omega, rfl⟩
    · exact .inr ⟨_, by omega, rfl⟩
    · exact .inr ⟨_, by omega, rfl⟩
    · exact mem_encode_cases h

theorem mem_encode {bytes : List UInt8} {c : Char} (h : c ∈ encode bytes) : c.toNat < 128 := by
  rcases mem_encode_cases h with rfl | ⟨n, hn, rfl⟩
  · decide
  · exact symbol_lt n hn

theorem length_encode_mod : ∀ bytes : List UInt8, (encode bytes).length % 4 = 0
  | [] | [_] | [_, _] => by simp [encode]
  | _ :: _ :: _ :: rest => by
    have h := length_encode_mod rest
    simp only [encode, List.length_cons]
    omega

/-- The bytes of the symbols of some bytes. -/
def encodeBytes (bytes : List UInt8) : List UInt8 :=
  (encode bytes).map fun c => UInt8.ofNat c.toNat

theorem encodeBytes_cons (x y z : UInt8) (rest : List UInt8) :
    encodeBytes (x :: y :: z :: rest) =
      symbolByte (x.toNat / 4) :: symbolByte (x.toNat % 4 * 16 + y.toNat / 16) ::
        symbolByte (y.toNat % 16 * 4 + z.toNat / 64) :: symbolByte (z.toNat % 64) ::
          encodeBytes rest := rfl

theorem encodeBytes_ne_nil : ∀ {bytes : List UInt8}, bytes ≠ [] → encodeBytes bytes ≠ []
  | [_], _ => List.cons_ne_nil _ _
  | [_, _], _ => List.cons_ne_nil _ _
  | _ :: _ :: _ :: _, _ => List.cons_ne_nil _ _

/-- Groups are read back one by one; the last of them is told by what follows, which is nothing. -/
theorem decodeFrom_encode : ∀ (bytes : List UInt8) (offset : Nat),
    decodeFrom offset (encodeBytes bytes) = .ok bytes
  | [], _ => rfl
  | [a], offset => by
    have ha := a.toNat_lt
    change lastGroup offset [symbolByte (a.toNat / 4), symbolByte (a.toNat % 4 * 16), padding,
      padding] = _
    rw [lastGroup_two (by omega) (by omega) (by omega), ← Nat.add_zero (a.toNat % 4 * 16)]
    exact congrArg (fun bytes => Except.ok (List.take 1 bytes)) (bytesOf_split a 0 0)
  | [a, b], offset => by
    have ha := a.toNat_lt
    have hb := b.toNat_lt
    change lastGroup offset [symbolByte (a.toNat / 4), symbolByte (a.toNat % 4 * 16 + b.toNat / 16),
      symbolByte (b.toNat % 16 * 4), padding] = _
    rw [lastGroup_three (by omega) (by omega) (by omega) (by omega),
      ← Nat.add_zero (b.toNat % 16 * 4)]
    exact congrArg (fun bytes => Except.ok (List.take 2 bytes)) (bytesOf_split a b 0)
  | x :: y :: z :: rest, offset => by
    have hx := x.toNat_lt
    have hy := y.toNat_lt
    have hz := z.toNat_lt
    rw [encodeBytes_cons]
    by_cases hrest : rest = []
    · subst hrest
      change lastGroup offset [_, _, _, _] = _
      rw [lastGroup_four (by omega) (by omega) (by omega) (by omega), bytesOf_split]
    · obtain ⟨e, more, hmore⟩ := List.exists_cons_of_ne_nil (encodeBytes_ne_nil hrest)
      have ih := decodeFrom_encode rest (offset + 4)
      rw [hmore] at ih ⊢
      rw [decodeFrom, group_symbolBytes (by omega) (by omega) (by omega) (by omega), bytesOf_split,
        ih]
      rfl

theorem length_encodeBytes_mod (bytes : List UInt8) : (encodeBytes bytes).length % 4 = 0 := by
  rw [encodeBytes, List.length_map]
  exact length_encode_mod bytes

theorem strayLast?_encode (bytes : List UInt8) : strayLast? (encodeBytes bytes) = none := by
  have hlength := length_encodeBytes_mod bytes
  rw [strayLast?]
  split
  · rw [if_neg (fun h => absurd h.1 (by omega))]
  · rfl

theorem utf8_encode (bytes : List UInt8) : Utf8.encode (encode bytes) = encodeBytes bytes :=
  Utf8.encode_ascii fun _ hc => mem_encode hc

/-- **All bytes are read back from their symbols.** -/
theorem decode_encode (bytes : List UInt8) : decode (Utf8.encode (encode bytes)) = .ok bytes := by
  rw [utf8_encode, decode, strayLast?_encode]
  exact decodeFrom_encode bytes 0

/-! ## What is read -/

theorem symbolByte_of_value? : ∀ n < 256, ∀ v ∈ value? (UInt8.ofNat n),
    v < 64 ∧ UInt8.ofNat n = symbolByte v := by decide +kernel

theorem valueAt_ok {offset v : Nat} {byte : UInt8} (h : valueAt offset byte = .ok v) :
    v < 64 ∧ byte = symbolByte v := by
  unfold valueAt at h
  split at h
  · rename_i n hn
    cases h
    have hbyte := symbolByte_of_value? byte.toNat byte.toNat_lt v
    rw [UInt8.ofNat_toNat] at hbyte
    exact hbyte hn
  · cases h

theorem encodeBytes_bytesOf {x y z w : Nat} (hx : x < 64) (hy : y < 64) (hz : z < 64) (hw : w < 64)
    (rest : List UInt8) : encodeBytes (bytesOf x y z w ++ rest) =
      symbolByte x :: symbolByte y :: symbolByte z :: symbolByte w :: encodeBytes rest := by
  rw [bytesOf, List.cons_append, List.cons_append, List.cons_append, List.nil_append,
    encodeBytes_cons, Utf8.toNat_ofNat_of_lt (by omega), Utf8.toNat_ofNat_of_lt (by omega),
    Utf8.toNat_ofNat_of_lt (by omega), show (x * 4 + y / 16) / 4 = x by omega,
    show (x * 4 + y / 16) % 4 * 16 + (y % 16 * 16 + z / 4) / 16 = y by omega,
    show (y % 16 * 16 + z / 4) % 16 * 4 + (z % 4 * 64 + w) / 64 = z by omega,
    show (z % 4 * 64 + w) % 64 = w by omega]

theorem group_ok {offset : Nat} {a b c d : UInt8} {bytes : List UInt8}
    (h : group offset a b c d = .ok bytes) (rest : List UInt8) :
    encodeBytes (bytes ++ rest) = a :: b :: c :: d :: encodeBytes rest := by
  unfold group at h
  cases ha : valueAt offset a with
  | error fault => rw [ha] at h; cases h
  | ok x =>
    cases hb : valueAt (offset + 1) b with
    | error fault => rw [ha, hb] at h; cases h
    | ok y =>
      cases hc : valueAt (offset + 2) c with
      | error fault => rw [ha, hb, hc] at h; cases h
      | ok z =>
        cases hd : valueAt (offset + 3) d with
        | error fault => rw [ha, hb, hc, hd] at h; cases h
        | ok w =>
          rw [ha, hb, hc, hd] at h
          cases h
          obtain ⟨hx, rfl⟩ := valueAt_ok ha
          obtain ⟨hy, rfl⟩ := valueAt_ok hb
          obtain ⟨hz, rfl⟩ := valueAt_ok hc
          obtain ⟨hw, rfl⟩ := valueAt_ok hd
          exact encodeBytes_bytesOf hx hy hz hw rest

theorem splitPadding_padding (first : Nat) : ∀ {symbols : List UInt8} {offset seen count : Nat}
    {values : List Nat}, splitPadding offset seen (some first) symbols = .ok (values, count) →
      values = [] ∧ symbols = List.replicate count padding
  | [], offset, seen, count, values, h => by
    cases h
    exact ⟨rfl, rfl⟩
  | byte :: rest, offset, seen, count, values, h => by
    rw [splitPadding] at h
    split_ifs at h with hpadding hseen
    cases hrest : splitPadding offset (seen + 1) (some first <|> some (offset + seen)) rest with
    | error fault => rw [hrest] at h; cases h
    | ok r =>
      rw [hrest] at h
      cases h
      obtain ⟨hvalues, hsymbols⟩ := splitPadding_padding first hrest
      exact ⟨hvalues, by rw [hpadding, hsymbols]; rfl⟩

/-- A last group that can be split has symbols of the alphabet first and padding after them. -/
theorem splitPadding_ok : ∀ {symbols : List UInt8} {offset seen count : Nat} {values : List Nat},
    splitPadding offset seen none symbols = .ok (values, count) →
      (∀ v ∈ values, v < 64) ∧ symbols = values.map symbolByte ++ List.replicate count padding
  | [], offset, seen, count, values, h => by
    cases h
    exact ⟨fun _ hv => absurd hv List.not_mem_nil, rfl⟩
  | byte :: rest, offset, seen, count, values, h => by
    rw [splitPadding] at h
    split_ifs at h with hpadding hseen
    · cases hrest : splitPadding offset (seen + 1) (none <|> some (offset + seen)) rest with
      | error fault => rw [hrest] at h; cases h
      | ok r =>
        rw [hrest] at h
        cases h
        obtain ⟨hvalues, hsymbols⟩ := splitPadding_padding (offset + seen) hrest
        rw [hvalues]
        exact ⟨fun _ hv => absurd hv List.not_mem_nil, by rw [hpadding, hsymbols]; rfl⟩
    · cases hvalue : valueAt (offset + seen) byte with
      | error fault => rw [hvalue] at h; cases h
      | ok v =>
        rw [hvalue] at h
        cases hrest : splitPadding offset (seen + 1) none rest with
        | error fault => rw [hrest] at h; cases h
        | ok r =>
          rw [hrest] at h
          cases h
          obtain ⟨hvalues, hsymbols⟩ := splitPadding_ok hrest
          obtain ⟨hv, rfl⟩ := valueAt_ok hvalue
          exact ⟨List.forall_mem_cons.2 ⟨hv, hvalues⟩, by rw [hsymbols]; rfl⟩

theorem encodeBytes_take_one {x y : Nat} (hx : x < 64) (hy : y < 64) (h : y % 16 = 0) :
    encodeBytes ((bytesOf x y 0 0).take 1) = [symbolByte x, symbolByte y, padding, padding] := by
  change [symbolByte ((UInt8.ofNat (x * 4 + y / 16)).toNat / 4),
    symbolByte ((UInt8.ofNat (x * 4 + y / 16)).toNat % 4 * 16), padding, padding] = _
  rw [Utf8.toNat_ofNat_of_lt (by omega), show (x * 4 + y / 16) / 4 = x by omega,
    show (x * 4 + y / 16) % 4 * 16 = y by omega]

theorem encodeBytes_take_two {x y z : Nat} (hx : x < 64) (hy : y < 64) (hz : z < 64)
    (h : z % 4 = 0) : encodeBytes ((bytesOf x y z 0).take 2) =
      [symbolByte x, symbolByte y, symbolByte z, padding] := by
  change [symbolByte ((UInt8.ofNat (x * 4 + y / 16)).toNat / 4),
    symbolByte ((UInt8.ofNat (x * 4 + y / 16)).toNat % 4 * 16 +
      (UInt8.ofNat (y % 16 * 16 + z / 4)).toNat / 16),
    symbolByte ((UInt8.ofNat (y % 16 * 16 + z / 4)).toNat % 16 * 4), padding] = _
  rw [Utf8.toNat_ofNat_of_lt (by omega), Utf8.toNat_ofNat_of_lt (by omega),
    show (x * 4 + y / 16) / 4 = x by omega,
    show (x * 4 + y / 16) % 4 * 16 + (y % 16 * 16 + z / 4) / 16 = y by omega,
    show (y % 16 * 16 + z / 4) % 16 * 4 = z by omega]

theorem lastGroup_ok {offset : Nat} {symbols bytes : List UInt8}
    (h : lastGroup offset symbols = .ok bytes) : symbols = encodeBytes bytes := by
  unfold lastGroup at h
  cases hsplit : splitPadding offset 0 none symbols with
  | error fault => rw [hsplit] at h; cases h
  | ok r =>
    obtain ⟨values, count⟩ := r
    rw [hsplit] at h
    obtain ⟨hvalues, hsymbols⟩ := splitPadding_ok hsplit
    dsimp only at h
    split_ifs at h with hshort hlength
    split at h
    · rename_i x y
      obtain rfl : count = 2 := by simp at hlength; omega
      simp only [List.forall_mem_cons] at hvalues
      split_ifs at h with hbits
      cases h
      rw [hsymbols, encodeBytes_take_one hvalues.1 hvalues.2.1 hbits]
      rfl
    · rename_i x y z
      obtain rfl : count = 1 := by simp at hlength; omega
      simp only [List.forall_mem_cons] at hvalues
      split_ifs at h with hbits
      cases h
      rw [hsymbols, encodeBytes_take_two hvalues.1 hvalues.2.1 hvalues.2.2.1 hbits]
      rfl
    · rename_i x y z w
      obtain rfl : count = 0 := by simp at hlength; omega
      simp only [List.forall_mem_cons] at hvalues
      cases h
      rw [hsymbols, ← List.append_nil (bytesOf x y z w),
        encodeBytes_bytesOf hvalues.1 hvalues.2.1 hvalues.2.2.1 hvalues.2.2.2.1]
      rfl
    · cases h

theorem decodeFrom_ok : ∀ {symbols : List UInt8} {offset : Nat} {bytes : List UInt8},
    decodeFrom offset symbols = .ok bytes → symbols = encodeBytes bytes
  | a :: b :: c :: d :: e :: rest, offset, bytes, h => by
    rw [decodeFrom] at h
    cases hgroup : group offset a b c d with
    | error fault => rw [hgroup] at h; cases h
    | ok first =>
      cases hmore : decodeFrom (offset + 4) (e :: rest) with
      | error fault => rw [hgroup, hmore] at h; cases h
      | ok more =>
        rw [hgroup, hmore] at h
        cases h
        rw [group_ok hgroup, ← decodeFrom_ok hmore]
  | [], offset, bytes, h => by
    cases h
    rfl
  | [a], offset, bytes, h => lastGroup_ok h
  | [a, b], offset, bytes, h => lastGroup_ok h
  | [a, b, c], offset, bytes, h => lastGroup_ok h
  | [a, b, c, d], offset, bytes, h => lastGroup_ok h

/-- **Symbols are read as some bytes exactly when they are the symbols of these.** -/
theorem decode_eq_ok_iff {symbols bytes : List UInt8} :
    decode symbols = .ok bytes ↔ symbols = Utf8.encode (encode bytes) := by
  refine ⟨fun h => ?_, fun h => h ▸ decode_encode bytes⟩
  rw [decode] at h
  split at h
  · cases h
  · rw [utf8_encode]
    exact decodeFrom_ok h

/-! ## First groups -/

theorem encodeBytes_injective {a b : List UInt8} (h : encodeBytes a = encodeBytes b) : a = b :=
  Except.ok.inj ((decodeFrom_encode a 0).symm.trans (h ▸ decodeFrom_encode b 0))

theorem symbolByte_ne_percent : ∀ n < 64, symbolByte n ≠ 37 := by decide

theorem percent_notMem_encodeBytes (bytes : List UInt8) : 37 ∉ encodeBytes bytes := by
  intro h
  obtain ⟨c, hc, hbyte⟩ := List.mem_map.1 h
  rcases mem_encode_cases hc with rfl | ⟨n, hn, rfl⟩
  · exact absurd hbyte (by decide)
  · exact symbolByte_ne_percent n hn hbyte

theorem encodeBytes_take : ∀ {bytes : List UInt8} {groups : Nat},
    4 * groups < (encodeBytes bytes).length → 3 * groups < bytes.length ∧
      (encodeBytes bytes).take (4 * groups) = encodeBytes (bytes.take (3 * groups))
  | [], groups, h => absurd h (Nat.not_lt_zero _)
  | [_], 0, _ | [_, _], 0, _ | _ :: _ :: _ :: _, 0, _ => ⟨Nat.succ_pos _, rfl⟩
  | [_], groups + 1, h | [_, _], groups + 1, h => by
    simp only [encodeBytes, encode, List.length_map, List.length_cons, List.length_nil] at h
    omega
  | x :: y :: z :: rest, groups + 1, h => by
    rw [encodeBytes_cons] at h ⊢
    simp only [List.length_cons] at h
    have hrest : 4 * groups < (encodeBytes rest).length := by omega
    obtain ⟨hlength, htake⟩ := encodeBytes_take hrest
    refine ⟨by simp only [List.length_cons]; omega, ?_⟩
    rw [show 4 * (groups + 1) = 4 * groups + 4 by omega,
      show 3 * (groups + 1) = 3 * groups + 3 by omega]
    simp only [List.take_succ_cons, htake, encodeBytes_cons]

end Base64

end CursorPaging
