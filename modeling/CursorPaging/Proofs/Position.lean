import Mathlib.Tactic.ByContra
import CursorPaging.Position
import CursorPaging.Proofs.FieldMap
import CursorPaging.Proofs.Scalar
import CursorPaging.Proofs.Text.Base64
import CursorPaging.Proofs.Text.Percent
import CursorPaging.Proofs.Text.Pieces

/-!
# Tokens read back

A key is written exactly when it has a field and every value is a text or spells a finite number;
its token is then read as that key. What is read from any token can be written again.

* `taggedText`, `entryText`, `tokenOf`: the texts that writing goes through;
* `encode_ok`, `encode_eq_ok`, `encode_eq_error`: when a key is written, and which field it is
  refused for;
* `decodeEntry_entryText`, `decodeEntries_entryTexts`, `unwrap_wrap`: reading undoes each pass;
* `decode_tokenOf`, `decode_of_encode`; `decode_ok`: what any token is read as;
* **`encode_decode_correct`**: the round trip, both ways.
-/

namespace CursorPaging

namespace PositionCodec

/-! ## Writing -/

/-- The tag and text of a value that positions can carry. -/
def taggedText : Scalar → List Char
  | .text value => 'S' :: value.toList
  | .number digits => 'N' :: digits.toList
  | _ => []

/-- Why a field with some value is no part of a position. -/
def refusal (field : String) : Scalar → PagingError
  | .number digits => .invalidNumber field digits
  | value => .unsupportedKind field value.kind

theorem tagged_of_isKey {field : String} : ∀ {value : Scalar}, value.IsKey →
    tagged field value = .ok (taggedText value)
  | .text _, _ => rfl
  | .number _, h => if_pos h

theorem tagged_of_not_isKey {field : String} : ∀ {value : Scalar}, ¬ value.IsKey →
    tagged field value = .error (refusal field value)
  | .null, _ => rfl
  | .boolean _, _ => rfl
  | .number _, h => if_neg h
  | .text _, h => absurd trivial h
  | .bytes _, _ => rfl

/-- A field as it is written. -/
def entryText (entry : String × Scalar) : List Char :=
  Percent.encode entry.1.toList ++ '=' :: Percent.encode (taggedText entry.2)

theorem encodeEntry_of_isKey {entry : String × Scalar} (h : entry.2.IsKey) :
    encodeEntry entry = .ok (entryText entry) := by
  rw [encodeEntry, tagged_of_isKey h]
  rfl

theorem encodeEntries_of_isKey : ∀ {entries : List (String × Scalar)},
    (∀ e ∈ entries, e.2.IsKey) → encodeEntries entries = .ok (entries.map entryText)
  | [], _ => rfl
  | e :: rest, h => by
    rw [encodeEntries, encodeEntry_of_isKey (h e List.mem_cons_self),
      encodeEntries_of_isKey fun e he => h e (List.mem_cons_of_mem _ he)]
    rfl

theorem isKey_of_encodeEntries : ∀ {entries : List (String × Scalar)} {texts : List (List Char)},
    encodeEntries entries = .ok texts → ∀ e ∈ entries, e.2.IsKey
  | [], _, _, _, he => absurd he List.not_mem_nil
  | first :: rest, texts, h, e, he => by
    have hfirst : first.2.IsKey := by
      by_contra hnot
      rw [encodeEntries, encodeEntry, tagged_of_not_isKey hnot] at h
      cases h
    rw [encodeEntries, encodeEntry_of_isKey hfirst] at h
    cases hrest : encodeEntries rest with
    | error e => rw [hrest] at h; cases h
    | ok more =>
      rcases List.mem_cons.1 he with rfl | he
      · exact hfirst
      · exact isKey_of_encodeEntries hrest e he

theorem encodeEntries_of_not_isKey {field : String} {value : Scalar} (h : ¬ value.IsKey)
    (after : List (String × Scalar)) : ∀ {before : List (String × Scalar)},
    (∀ e ∈ before, e.2.IsKey) →
      encodeEntries (before ++ (field, value) :: after) = .error (refusal field value)
  | [], _ => by
    rw [List.nil_append, encodeEntries, encodeEntry, tagged_of_not_isKey h]
    rfl
  | e :: before, hb => by
    rw [List.cons_append, encodeEntries, encodeEntry_of_isKey (hb e List.mem_cons_self),
      encodeEntries_of_not_isKey h after fun e he => hb e (List.mem_cons_of_mem _ he)]
    rfl

/-- The token of a key whose values can all be written. -/
def tokenOf (key : ResumeKey) : String :=
  String.ofList (wrap (List.intercalate ['&'] (key.fields.entries.map entryText)))

theorem isEmpty_eq_false_iff {m : FieldMap} : m.isEmpty = false ↔ m.entries ≠ [] :=
  List.isEmpty_eq_false_iff

theorem encode_eq_ok (codec : PositionCodec) {key : ResumeKey} (hne : key.fields.entries ≠ [])
    (h : ∀ e ∈ key.fields.entries, e.2.IsKey) : codec.encode key = .ok (tokenOf key) := by
  rw [encode, isEmpty_eq_false_iff.2 hne, encodeEntries_of_isKey h]
  rfl

theorem encode_ok {codec : PositionCodec} {key : ResumeKey} {token : String}
    (h : codec.encode key = .ok token) :
    key.fields.entries ≠ [] ∧ ∀ e ∈ key.fields.entries, e.2.IsKey := by
  rw [encode] at h
  split_ifs at h with hempty
  cases htexts : encodeEntries key.fields.entries with
  | error e => rw [htexts] at h; cases h
  | ok texts =>
    exact ⟨isEmpty_eq_false_iff.1 (Bool.eq_false_iff.2 hempty), isKey_of_encodeEntries htexts⟩

theorem tokenOf_of_encode {codec : PositionCodec} {key : ResumeKey} {token : String}
    (h : codec.encode key = .ok token) : tokenOf key = token := by
  obtain ⟨hne, hkey⟩ := encode_ok h
  exact Except.ok.inj ((encode_eq_ok codec hne hkey).symm.trans h)

theorem encode_eq_error (codec : PositionCodec) {key : ResumeKey} {field : String} {value : Scalar}
    (hfield : key.fields.get? field = some value) (h : ¬ value.IsKey)
    (hfirst : ∀ name other, key.fields.get? name = some other → ¬ other.IsKey → field ≤ name) :
    codec.encode key = .error (refusal field value) := by
  have hmem := FieldMap.get?_eq_some_iff.1 hfield
  obtain ⟨before, after, hsplit⟩ := List.append_of_mem hmem
  have hbefore : ∀ e ∈ before, e.2.IsKey := by
    intro e he
    by_contra hnot
    -- an entry before this one has a smaller name
    have hlt : e.1 < field := by
      have hasc := key.fields.ascending
      rw [FieldMap.Ascending, hsplit] at hasc
      exact (List.pairwise_append.1 hasc).2.2 e he (field, value) List.mem_cons_self
    have hget : key.fields.get? e.1 = some e.2 :=
      FieldMap.get?_eq_some_iff.2 (hsplit ▸ List.mem_append_left _ he)
    exact String.not_le.2 hlt (hfirst e.1 e.2 hget hnot)
  rw [encode, isEmpty_eq_false_iff.2 (List.ne_nil_of_mem hmem), hsplit,
    encodeEntries_of_not_isKey h after hbefore]
  rfl

/-! ## The characters of a token -/

theorem isTokenChar_of_mem_wrap {joined : List Char} {c : Char} (h : c ∈ wrap joined) :
    isTokenChar c = true := by
  rcases Percent.mem_escape h with hplain | rfl
  · rw [isTokenChar, hplain, Bool.true_or]
  · rfl

theorem wrap_ne_nil {joined : List Char} (h : joined ≠ []) : wrap joined ≠ [] := by
  obtain ⟨c, rest, rfl⟩ := List.exists_cons_of_ne_nil h
  obtain ⟨byte, more, hbytes⟩ := List.exists_cons_of_ne_nil (String.utf8EncodeChar_ne_nil (c := c))
  have hsymbols : Base64.encode (Utf8.encode (c :: rest)) ≠ [] := by
    intro hnil
    have hne : Utf8.encode (c :: rest) ≠ [] := by
      rw [Utf8.encode_cons, hbytes]
      exact List.cons_ne_nil _ _
    refine Base64.encodeBytes_ne_nil hne ?_
    rw [Base64.encodeBytes, hnil]
    rfl
  obtain ⟨s, symbols, hs⟩ := List.exists_cons_of_ne_nil hsymbols
  rw [wrap, hs]
  exact Percent.encode_ne_nil

theorem notMem_encode {c : Char} (hplain : isTokenChar c = false) (text : List Char) :
    c ∉ Percent.encode text := by
  intro h
  rw [isTokenChar, Bool.or_eq_false_iff] at hplain
  rcases Percent.mem_escape h with h | rfl
  · rw [hplain.1] at h
    exact Bool.noConfusion h
  · exact Bool.noConfusion hplain.2

theorem amp_notMem_entryText (entry : String × Scalar) : '&' ∉ entryText entry := by
  rw [entryText, List.mem_append, List.mem_cons]
  rintro (h | h | h)
  · exact notMem_encode (by decide) _ h
  · exact absurd h (by decide)
  · exact notMem_encode (by decide) _ h

theorem entryText_ne_nil (entry : String × Scalar) : entryText entry ≠ [] :=
  List.append_ne_nil_of_right_ne_nil _ (List.cons_ne_nil _ _)

theorem pieces_joined {entries : List (String × Scalar)} (h : entries ≠ []) :
    pieces '&' (List.intercalate ['&'] (entries.map entryText)) = entries.map entryText := by
  refine pieces_intercalate (fun hnil => h (List.map_eq_nil_iff.1 hnil)) fun part hpart => ?_
  obtain ⟨e, _, rfl⟩ := List.mem_map.1 hpart
  exact amp_notMem_entryText e

theorem joined_ne_nil {entries : List (String × Scalar)} (h : entries ≠ []) :
    List.intercalate ['&'] (entries.map entryText) ≠ [] := by
  intro hnil
  have hpieces := pieces_joined h
  rw [hnil] at hpieces
  -- a single empty piece is no entry
  have hmem : [] ∈ entries.map entryText := hpieces ▸ List.mem_singleton_self []
  obtain ⟨e, _, he⟩ := List.mem_map.1 hmem
  exact entryText_ne_nil e he

theorem tokenOf_ne_empty {key : ResumeKey} (h : key.fields.entries ≠ []) : tokenOf key ≠ "" := by
  intro hempty
  have hlist := congrArg String.toList hempty
  rw [tokenOf, String.toList_ofList] at hlist
  exact wrap_ne_nil (joined_ne_nil h) hlist

theorem isTokenChar_of_mem_tokenOf {key : ResumeKey} {c : Char} (h : c ∈ (tokenOf key).toList) :
    isTokenChar c = true := by
  rw [tokenOf, String.toList_ofList] at h
  exact isTokenChar_of_mem_wrap h

/-! ## Reading -/

theorem decodeEntry_entryText {entry : String × Scalar} (h : entry.2.IsKey) :
    decodeEntry (entryText entry) = .ok entry := by
  obtain ⟨field, value⟩ := entry
  have hpieces : pieces '=' (entryText (field, value)) =
      [Percent.encode field.toList, Percent.encode (taggedText value)] := by
    rw [entryText, pieces_append (notMem_encode (by decide) _),
      pieces_of_notMem (notMem_encode (by decide) _)]
  rw [decodeEntry, hpieces]
  simp only [Percent.decode?_encode, String.ofList_toList]
  match value, h with
  | .text value, _ => simp only [taggedText, String.ofList_toList]
  | .number digits, h =>
    simp only [taggedText, String.ofList_toList]
    exact if_pos h

theorem decodeEntries_entryTexts : ∀ {entries : List (String × Scalar)} {fields whole : FieldMap},
    whole.entries = fields.entries ++ entries → (∀ e ∈ entries, e.2.IsKey) →
      decodeEntries fields (entries.map entryText) = .ok whole
  | [], fields, whole, hwhole, _ => by
    rw [List.append_nil] at hwhole
    rw [FieldMap.ext hwhole]
    rfl
  | (field, value) :: rest, fields, whole, hwhole, h => by
    have hlt : ∀ e ∈ fields.entries, e.1 < field := by
      intro e he
      have hasc := whole.ascending
      rw [FieldMap.Ascending, hwhole] at hasc
      exact (List.pairwise_append.1 hasc).2.2 e he (field, value) List.mem_cons_self
    have hnew : fields.contains field = false := by
      rw [FieldMap.contains, FieldMap.get?_of_lt hlt]
      rfl
    have hinsert : whole.entries = (fields.insert field value).entries ++ rest := by
      rw [FieldMap.entries_insert_of_lt value hlt, hwhole, List.append_assoc]
      rfl
    rw [List.map_cons, decodeEntries, decodeEntry_entryText (h _ List.mem_cons_self)]
    simp only [hnew, Bool.false_eq_true, if_false]
    exact decodeEntries_entryTexts hinsert fun e he => h e (List.mem_cons_of_mem _ he)

theorem unwrap_wrap (joined : List Char) : unwrap (wrap joined) = .ok joined := by
  have hunescape : Percent.unescape (wrap joined) =
      Utf8.encode (Base64.encode (Utf8.encode joined)) := Percent.unescape_escape _
  rw [unwrap]
  simp only [hunescape, Utf8.decode_encode, Base64.decode_encode]

theorem size_le_of_decode {reader : PositionCodec} {token : String} {key : ResumeKey}
    (h : reader.decode token = .ok key) : Utf8.size token ≤ reader.maxTokenLength := by
  by_contra hsize
  have hlong : reader.maxTokenLength < Utf8.size token := Nat.lt_of_not_le hsize
  have hparse : ∃ fault, reader.parse token = .error fault := by
    unfold parse
    split_ifs <;> exact ⟨_, rfl⟩
  obtain ⟨fault, hfault⟩ := hparse
  rw [decode, hfault] at h
  cases h

/-- **A token is read as the key that it was made of**, if its length is accepted. -/
theorem decode_tokenOf {reader : PositionCodec} {key : ResumeKey}
    (hne : key.fields.entries ≠ []) (h : ∀ e ∈ key.fields.entries, e.2.IsKey)
    (hsize : Utf8.size (tokenOf key) ≤ reader.maxTokenLength) :
    reader.decode (tokenOf key) = .ok key := by
  have hchars : (tokenOf key).toList.find? (!isTokenChar ·) = none :=
    List.find?_eq_none.2 fun c hc => by rw [isTokenChar_of_mem_tokenOf hc]; decide
  have hparse : reader.parse (tokenOf key) = .ok key.fields := by
    rw [parse, if_neg (tokenOf_ne_empty hne), if_neg (Nat.not_lt.2 hsize), hchars]
    simp only [tokenOf, String.toList_ofList, unwrap_wrap, pieces_joined hne]
    exact decodeEntries_entryTexts (List.nil_append _).symm h
  rw [decode, hparse]

theorem decode_of_encode {writer reader : PositionCodec} {key : ResumeKey} {token : String}
    (h : writer.encode key = .ok token) (hsize : Utf8.size token ≤ reader.maxTokenLength) :
    reader.decode token = .ok key := by
  obtain ⟨hne, hkey⟩ := encode_ok h
  obtain rfl := tokenOf_of_encode h
  exact decode_tokenOf hne hkey hsize

/-! ## What is read from any token -/

theorem isKey_of_decodeEntry {text : List Char} {entry : String × Scalar}
    (h : decodeEntry text = .ok entry) : entry.2.IsKey := by
  unfold decodeEntry at h
  split at h
  · split at h
    · cases h
    · dsimp only at h
      split at h
      · cases h
      · cases h
        trivial
      · split_ifs at h with hfinite
        cases h
        exact hfinite
      · cases h
  · cases h

theorem decodeEntries_isKey : ∀ {texts : List (List Char)} {fields whole : FieldMap},
    decodeEntries fields texts = .ok whole → (∀ e ∈ fields.entries, e.2.IsKey) →
      ∀ e ∈ whole.entries, e.2.IsKey
  | [], fields, whole, h, hfields => by
    cases h
    exact hfields
  | text :: rest, fields, whole, h, hfields => by
    rw [decodeEntries] at h
    split at h
    · cases h
    · rename_i field value hentry
      split_ifs at h
      refine decodeEntries_isKey h fun e he => ?_
      rcases FieldMap.mem_insert he with rfl | he
      · exact isKey_of_decodeEntry hentry
      · exact hfields e he

theorem decodeEntries_ne_nil : ∀ {texts : List (List Char)} {fields whole : FieldMap},
    decodeEntries fields texts = .ok whole → texts ≠ [] ∨ fields.entries ≠ [] →
      whole.entries ≠ []
  | [], fields, whole, h, hne => by
    cases h
    exact hne.resolve_left fun h => h rfl
  | text :: rest, fields, whole, h, _ => by
    rw [decodeEntries] at h
    split at h
    · cases h
    · split_ifs at h
      exact decodeEntries_ne_nil h (.inr (FieldMap.insert_ne_nil _ _ _))

theorem decode_ok {reader : PositionCodec} {token : String} {key : ResumeKey}
    (h : reader.decode token = .ok key) :
    key.fields.entries ≠ [] ∧ ∀ e ∈ key.fields.entries, e.2.IsKey := by
  have hparse : reader.parse token = .ok key.fields := by
    rw [decode] at h
    split at h
    · rename_i fields hfields
      cases h
      exact hfields
    · cases h
  unfold parse at hparse
  split_ifs at hparse
  split at hparse
  · cases hparse
  · split at hparse
    · cases hparse
    · exact ⟨decodeEntries_ne_nil hparse (.inl (pieces_ne_nil _)),
        decodeEntries_isKey hparse fun _ he => absurd he List.not_mem_nil⟩

/-! ## The round trip -/

theorem forall_isKey_iff {m : FieldMap} : (∀ e ∈ m.entries, e.2.IsKey) ↔
    ∀ field value, m.get? field = some value → value.IsKey :=
  ⟨fun h field value hget => h (field, value) (FieldMap.get?_eq_some_iff.1 hget),
    fun h e he => h e.1 e.2 (FieldMap.get?_eq_some_iff.2 he)⟩

/-- **The round trip, both ways.** A key is written exactly when it has a field and only texts and
finite numbers, and its token is read as the key wherever its length is accepted. What is read from
any token is written and read again. -/
theorem encode_decode_correct (codec : PositionCodec) (key : ResumeKey) :
    ((∃ token, codec.encode key = .ok token) ↔ key.fields.isEmpty = false ∧
      ∀ field value, key.fields.get? field = some value → value.IsKey) ∧
    (key.fields.isEmpty = true → codec.encode key = .error (.corruptPosition .noFields)) ∧
    (∀ field value, key.fields.get? field = some value → ¬ value.IsKey →
      (∀ name other, key.fields.get? name = some other → ¬ other.IsKey → field ≤ name) →
      codec.encode key = .error (refusal field value)) ∧
    (∀ token, codec.encode key = .ok token →
      token ≠ "" ∧ (∀ c ∈ token.toList, c.isAlphanum = true ∨ c = '%') ∧
      ∀ reader : PositionCodec, Utf8.size token ≤ reader.maxTokenLength →
        reader.decode token = .ok key) ∧
    ∀ (reader : PositionCodec) (token : String), reader.decode token = .ok key →
      ∃ canonical, codec.encode key = .ok canonical ∧
        ∀ other : PositionCodec, Utf8.size canonical ≤ other.maxTokenLength →
          other.decode canonical = .ok key := by
  refine ⟨⟨?_, ?_⟩, fun hempty => if_pos hempty,
    fun field value hget hnot hfirst => encode_eq_error codec hget hnot hfirst, ?_, ?_⟩
  · rintro ⟨token, htoken⟩
    obtain ⟨hne, hkey⟩ := encode_ok htoken
    exact ⟨isEmpty_eq_false_iff.2 hne, forall_isKey_iff.1 hkey⟩
  · rintro ⟨hne, hkey⟩
    exact ⟨_, encode_eq_ok codec (isEmpty_eq_false_iff.1 hne) (forall_isKey_iff.2 hkey)⟩
  · intro token htoken
    obtain ⟨hne, hkey⟩ := encode_ok htoken
    obtain rfl : tokenOf key = token :=
      Except.ok.inj ((encode_eq_ok codec hne hkey).symm.trans htoken)
    refine ⟨tokenOf_ne_empty hne, fun c hc => ?_, fun reader hsize => decode_tokenOf hne hkey hsize⟩
    simpa [isTokenChar, Percent.isPlain] using isTokenChar_of_mem_tokenOf hc
  · intro reader token htoken
    obtain ⟨hne, hkey⟩ := decode_ok htoken
    exact ⟨_, encode_eq_ok codec hne hkey, fun other hsize => decode_tokenOf hne hkey hsize⟩

end PositionCodec

end CursorPaging
