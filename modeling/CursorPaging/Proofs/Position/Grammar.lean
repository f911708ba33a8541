import CursorPaging.Proofs.Position

/-!
# The grammar of tokens

Which texts are read as which keys, written down pass by pass from the outside in, and that reading
accepts these and no others.

* `Tags`, `Entry`, `Lists`: a tagged value, an entry and the joined text;
* **`IsToken`**: a text that is a token of a key;
* `decodeEntry_eq_ok_iff`, `decodeEntries_eq_ok_iff`, `unwrap_eq_ok_iff`, `parse_eq_ok_iff`: each
  pass accepts exactly its part;
* **`decode_eq_ok_iff_isToken`**: so does reading, and every other text is a corrupt position.
-/

namespace CursorPaging

namespace PositionCodec

/-! ## The grammar -/

/-- A tagged value: any text after `S`, or what spells a finite number after `N`. -/
inductive Tags : List Char → Scalar → Prop
  | text (value : List Char) : Tags ('S' :: value) (.text (String.ofList value))
  | number {digits : List Char}
      (finite : (Binary64.finite? (String.ofList digits)).isSome = true) :
      Tags ('N' :: digits) (.number (String.ofList digits))

/-- A field: its name and its tagged value around the only `=`, each with escapes. -/
inductive Entry : List Char → String × Scalar → Prop
  | pair {left right name tagged : List Char} {value : Scalar} (left_mark : '=' ∉ left)
      (right_mark : '=' ∉ right) (spells_name : Percent.unescape left = Utf8.encode name)
      (spells_value : Percent.unescape right = Utf8.encode tagged) (tags : Tags tagged value) :
      Entry (left ++ '=' :: right) (String.ofList name, value)

/-- At least one entry, joined with `&`. -/
def Lists (joined : List Char) (entries : List (String × Scalar)) : Prop :=
  ∃ texts : List (List Char), texts ≠ [] ∧ (∀ text ∈ texts, '&' ∉ text) ∧
    joined = List.intercalate ['&'] texts ∧ List.Forall₂ Entry texts entries

/-- A text that is a token of a key. -/
structure IsToken (codec : PositionCodec) (token : String) (key : ResumeKey) : Prop where
  length : 1 ≤ Utf8.size token ∧ Utf8.size token ≤ codec.maxTokenLength
  chars : ∀ c ∈ token.toList, c.isAlphanum = true ∨ c = '%'
  /-- Behind escapes and base64 is joined text whose entries, no two of one name, are the fields of
  the key. -/
  fields : ∃ joined entries,
    Percent.unescape token.toList = Utf8.encode (Base64.encode (Utf8.encode joined)) ∧
      Lists joined entries ∧ (entries.map Prod.fst).Nodup ∧
        ∀ name value, key.fields.get? name = some value ↔ (name, value) ∈ entries

/-! ## Entries -/

theorem decodeEntry_of_entry {text : List Char} {entry : String × Scalar} (h : Entry text entry) :
    decodeEntry text = .ok entry := by
  cases h with
  | @pair left right name tagged value left_mark right_mark spells_name spells_value tags =>
    rw [decodeEntry, pieces_append left_mark, pieces_of_notMem right_mark]
    simp only [Percent.decode?_eq_some_iff.2 spells_name,
      Percent.decode?_eq_some_iff.2 spells_value]
    cases tags with
    | text value => rfl
    | number finite => exact if_pos finite

/-- **An entry is read** exactly as the field that it spells. -/
theorem decodeEntry_eq_ok_iff {text : List Char} {entry : String × Scalar} :
    decodeEntry text = .ok entry ↔ Entry text entry := by
  refine ⟨fun h => ?_, decodeEntry_of_entry⟩
  unfold decodeEntry at h
  split at h
  · rename_i left right hpieces
    obtain ⟨-, hmark, rfl⟩ := pieces_eq_iff.1 hpieces
    -- two pieces are two halves without the mark
    have hleft := hmark left List.mem_cons_self
    have hright := hmark right (List.mem_cons_of_mem _ List.mem_cons_self)
    have htext : List.intercalate ['='] [left, right] = left ++ '=' :: right := by
      rw [List.intercalate_cons_cons, List.intercalate_singleton, List.append_assoc,
        List.singleton_append]
    rw [htext]
    split at h
    · cases h
    · rename_i name hname
      rw [Percent.decode?_eq_some_iff] at hname
      dsimp only at h
      split at h
      · cases h
      · rename_i value hvalue
        cases h
        exact .pair hleft hright hname (Percent.decode?_eq_some_iff.1 hvalue) (.text value)
      · rename_i digits hvalue
        split_ifs at h with hfinite
        cases h
        exact .pair hleft hright hname (Percent.decode?_eq_some_iff.1 hvalue) (.number hfinite)
      · cases h
  · cases h

/-! ## Fields one after the other -/

/-- `whole` holds some fields besides those of `fields`, all of different names. -/
structure Adds (fields : FieldMap) (entries : List (String × Scalar)) (whole : FieldMap) :
    Prop where
  distinct : (entries.map Prod.fst).Nodup
  fresh : ∀ e ∈ entries, fields.get? e.1 = none
  holds : ∀ name value,
    whole.get? name = some value ↔ fields.get? name = some value ∨ (name, value) ∈ entries

theorem adds_nil {fields whole : FieldMap} : Adds fields [] whole ↔ whole = fields := by
  refine ⟨fun h => FieldMap.ext_get? fun name value => ?_, ?_⟩
  · simpa using h.holds name value
  · rintro rfl
    exact ⟨List.nodup_nil, fun _ he => absurd he List.not_mem_nil, fun _ _ => by simp⟩

theorem adds_cons {fields whole : FieldMap} {field : String} {value : Scalar}
    {rest : List (String × Scalar)} : Adds fields ((field, value) :: rest) whole ↔
      fields.contains field = false ∧ Adds (fields.insert field value) rest whole := by
  have hself : (fields.insert field value).get? field = some value := by
    rw [FieldMap.get?_insert, if_pos rfl]
  have hother {name : String} (hname : name ≠ field) :
      (fields.insert field value).get? name = fields.get? name := by
    rw [FieldMap.get?_insert, if_neg hname]
  rw [FieldMap.contains_eq_false_iff]
  constructor
  · rintro ⟨hdistinct, hfresh, hholds⟩
    obtain ⟨hfield, hrest⟩ := List.nodup_cons.1 hdistinct
    have hnew : fields.get? field = none := hfresh _ List.mem_cons_self
    refine ⟨hnew, hrest, fun e he => ?_, fun name other => ?_⟩
    · rw [hother fun h => hfield (List.mem_map.2 ⟨e, he, h⟩)]
      exact hfresh e (List.mem_cons_of_mem _ he)
    · rw [hholds, FieldMap.get?_insert_eq_some_iff value hnew, or_assoc, List.mem_cons]
  · rintro ⟨hnew, hdistinct, hfresh, hholds⟩
    have hne : ∀ e ∈ rest, e.1 ≠ field := fun e he h => by
      have hnone := hfresh e he
      rw [h, hself] at hnone
      cases hnone
    refine ⟨List.nodup_cons.2 ⟨fun hmem => ?_, hdistinct⟩, fun e he => ?_, fun name other => ?_⟩
    · obtain ⟨e, he, heq⟩ := List.mem_map.1 hmem
      exact hne e he heq
    · rcases List.mem_cons.1 he with rfl | he
      · exact hnew
      · rw [← hother (hne e he)]
        exact hfresh e he
    · rw [hholds, FieldMap.get?_insert_eq_some_iff value hnew, or_assoc, List.mem_cons]

theorem decodeEntries_eq_ok_iff : ∀ {texts : List (List Char)} {fields whole : FieldMap},
    decodeEntries fields texts = .ok whole ↔
      ∃ entries, List.Forall₂ Entry texts entries ∧ Adds fields entries whole
  | [], fields, whole => by
    simp only [decodeEntries, Except.ok.injEq, List.forall₂_nil_left_iff, exists_eq_left, adds_nil]
    exact eq_comm
  | text :: rest, fields, whole => by
    rw [decodeEntries]
    constructor
    · intro h
      split at h
      · cases h
      · rename_i field value hentry
        split_ifs at h with hcontains
        obtain ⟨entries, hentries, hadds⟩ := decodeEntries_eq_ok_iff.1 h
        exact ⟨(field, value) :: entries, .cons (decodeEntry_eq_ok_iff.1 hentry) hentries,
          adds_cons.2 ⟨Bool.eq_false_iff.2 hcontains, hadds⟩⟩
    · rintro ⟨_, hentries, hadds⟩
      cases hentries with
      | @cons _ entry _ entries hentry hentries =>
        obtain ⟨hnew, hadds⟩ := adds_cons.1 hadds
        rw [decodeEntry_eq_ok_iff.2 hentry]
        simp only [hnew, Bool.false_eq_true, if_false]
        exact decodeEntries_eq_ok_iff.2 ⟨entries, hentries, hadds⟩

/-! ## Whole tokens -/

/-- **A token is unwrapped** exactly as the text whose bytes its symbols stand for. -/
theorem unwrap_eq_ok_iff {token joined : List Char} : unwrap token = .ok joined ↔
    Percent.unescape token = Utf8.encode (Base64.encode (Utf8.encode joined)) := by
  constructor
  · intro h
    unfold unwrap at h
    dsimp only at h
    split at h
    · cases h
    · split at h
      · cases h
      · rename_i bytes hbytes
        split at h
        · cases h
        · rename_i text htext
          cases h
          rw [Base64.decode_eq_ok_iff.1 hbytes, ← Utf8.decode_eq_ok_iff.1 htext]
  · intro h
    rw [unwrap]
    simp only [h, Utf8.decode_encode, Base64.decode_encode]

theorem one_le_size_iff {token : String} : 1 ≤ Utf8.size token ↔ token ≠ "" := by
  rw [Utf8.size, Nat.one_le_iff_ne_zero, ne_eq, String.utf8ByteSize_eq_zero_iff]

theorem find?_eq_none_iff {token : List Char} : token.find? (!isTokenChar ·) = none ↔
    ∀ c ∈ token, c.isAlphanum = true ∨ c = '%' := by
  simp [List.find?_eq_none, isTokenChar, Percent.isPlain, or_iff_not_imp_left]

theorem decodeEntries_pieces_eq_ok_iff {joined : List Char} {whole : FieldMap} :
    decodeEntries .empty (pieces '&' joined) = .ok whole ↔
      ∃ entries, Lists joined entries ∧ (entries.map Prod.fst).Nodup ∧
        ∀ name value, whole.get? name = some value ↔ (name, value) ∈ entries := by
  have hadds (entries : List (String × Scalar)) : Adds .empty entries whole ↔
      (entries.map Prod.fst).Nodup ∧
        ∀ name value, whole.get? name = some value ↔ (name, value) ∈ entries := by
    have hempty (name : String) : FieldMap.empty.get? name = none := rfl
    refine ⟨fun ⟨hdistinct, _, hholds⟩ => ⟨hdistinct, by simpa [hempty] using hholds⟩,
      fun ⟨hdistinct, hholds⟩ => ⟨hdistinct, fun _ _ => rfl, by simpa [hempty] using hholds⟩⟩
  rw [decodeEntries_eq_ok_iff]
  constructor
  · rintro ⟨entries, hentries, h⟩
    obtain ⟨hne, hmark, hjoined⟩ := pieces_eq_iff.1 (rfl : pieces '&' joined = _)
    exact ⟨entries, ⟨_, hne, hmark, hjoined, hentries⟩, (hadds entries).1 h⟩
  · rintro ⟨entries, ⟨texts, hne, hmark, hjoined, hentries⟩, h⟩
    rw [pieces_eq_iff.2 ⟨hne, hmark, hjoined⟩]
    exact ⟨entries, hentries, (hadds entries).2 h⟩

theorem parse_eq_ok_iff {codec : PositionCodec} {token : String} {fields : FieldMap} :
    codec.parse token = .ok fields ↔ IsToken codec token ⟨fields⟩ := by
  constructor
  · intro h
    unfold parse at h
    split_ifs at h with hempty hlong
    split at h
    · cases h
    · rename_i hchars
      split at h
      · cases h
      · rename_i joined hjoined
        obtain ⟨entries, hentries⟩ := decodeEntries_pieces_eq_ok_iff.1 h
        exact ⟨⟨one_le_size_iff.2 hempty, Nat.not_lt.1 hlong⟩, find?_eq_none_iff.1 hchars,
          joined, entries, unwrap_eq_ok_iff.1 hjoined, hentries⟩
  · rintro ⟨⟨hne, hsize⟩, hchars, joined, entries, hjoined, hentries⟩
    rw [parse, if_neg (one_le_size_iff.1 hne), if_neg (Nat.not_lt.2 hsize),
      find?_eq_none_iff.2 hchars]
    simp only [unwrap_eq_ok_iff.2 hjoined]
    exact decodeEntries_pieces_eq_ok_iff.2 ⟨entries, hentries⟩

/-- **Reading accepts the tokens and nothing else**, whatever the bound. -/
theorem decode_eq_ok_iff_isToken (codec : PositionCodec) (token : String) :
    (∀ key, codec.decode token = .ok key ↔ IsToken codec token key) ∧
      ((∃ fault, codec.decode token = .error (.corruptPosition fault)) ↔
        ¬ ∃ key, IsToken codec token key) := by
  rw [decode]
  cases hparse : codec.parse token with
  | ok fields =>
    have htoken := parse_eq_ok_iff.1 hparse
    refine ⟨fun key => ⟨?_, fun hkey => ?_⟩, ⟨?_, fun hnone => absurd ⟨_, htoken⟩ hnone⟩⟩
    · rintro ⟨⟩
      exact htoken
    · have hkey' := parse_eq_ok_iff.2 hkey
      rw [hparse] at hkey'
      cases hkey'
      rfl
    · rintro ⟨fault, ⟨⟩⟩
  | error fault =>
    have hnone (key : ResumeKey) : ¬ IsToken codec token key := fun hkey => by
      have hkey' := parse_eq_ok_iff.2 hkey
      rw [hparse] at hkey'
      cases hkey'
    refine ⟨fun key => ⟨?_, fun hkey => absurd hkey (hnone key)⟩, fun _ => ?_,
      fun _ => ⟨fault, rfl⟩⟩
    · rintro ⟨⟩
    · exact not_exists.2 hnone

/-- A name is repeated also when it is spelled with other escapes. -/
example : (default.decode (String.ofList (wrap "a=Sx&%61=N1".toList))).toOption = none := by
  decide +kernel

end PositionCodec

end CursorPaging
