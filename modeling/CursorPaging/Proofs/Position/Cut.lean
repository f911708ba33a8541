import CursorPaging.Proofs.Position.Grammar

/-!
# Tokens that are cut off

Base64 groups stand on their own, and joined entries have no end mark. So a token that is cut off is
caught unless the cut lies between two groups and the text before it ends in a value; then the token
is read as the entries before the cut and what is left of that value.

* `joined`: the text behind a token; `unwrap_of_prefix`: what a token that is cut off is unwrapped
  to;
* `decodeEntry_eq_ok_of_field`, `decodeEntry_take_eq_ok_iff`: an entry that is cut off;
* `CutAt`, `decodeEntries_take_eq_ok_iff`: joined text that is cut off, and what it is read as;
* `ShortOf`, `CutAt.shortOf`: what is left of a value;
* **`decode_cut`**: all cuts of all tokens; `decode_not_caught`: one that is not caught.
-/

namespace CursorPaging

namespace PositionCodec

/-! ## Behind the token -/

/-- The text behind the token of a key. -/
def joined (key : ResumeKey) : List Char :=
  List.intercalate ['&'] (key.fields.entries.map entryText)

theorem toNat_lt_of_mem_encode {text : List Char} {c : Char} (h : c ∈ Percent.encode text) :
    c.toNat < 128 := by
  rcases Percent.mem_escape h with hplain | rfl
  · exact Percent.lt_of_isPlain hplain
  · decide

theorem toNat_lt_of_mem_joined {key : ResumeKey} {c : Char} (h : c ∈ joined key) :
    c.toNat < 128 := by
  rcases mem_intercalate h with rfl | ⟨text, htext, hc⟩
  · decide
  · obtain ⟨entry, -, rfl⟩ := List.mem_map.1 htext
    rw [entryText, List.mem_append, List.mem_cons] at hc
    rcases hc with hname | rfl | hvalue
    · exact toNat_lt_of_mem_encode hname
    · decide
    · exact toNat_lt_of_mem_encode hvalue

theorem wrap_eq (text : List Char) :
    wrap text = Percent.escape (Base64.encodeBytes (Utf8.encode text)) := by
  rw [wrap, Percent.encode, Base64.utf8_encode]

/-- **A token that is cut off** is unwrapped only between two groups. -/
theorem unwrap_of_prefix {text rest front : List Char} (hfront : front <+: wrap text)
    (hne : front ≠ wrap text) (h : unwrap front = .ok rest) :
    front = wrap rest ∧ ∃ groups, 3 * groups < (Utf8.encode text).length ∧
      Utf8.encode rest = (Utf8.encode text).take (3 * groups) := by
  rw [wrap_eq] at hfront hne
  obtain ⟨n, tail, hbroken, rfl⟩ := Percent.exists_of_prefix_escape hfront
  have hsymbols := unwrap_eq_ok_iff.1 h
  rw [Percent.unescape_escape_append _ hbroken, Base64.utf8_encode] at hsymbols
  -- no symbol is a `%`, so no escape was cut
  obtain rfl : tail = [] := hbroken.eq_nil fun hpercent =>
    Base64.percent_notMem_encodeBytes (Utf8.encode rest)
      (hsymbols ▸ List.mem_append_right _ hpercent)
  rw [List.append_nil] at hne
  have htake : (Base64.encodeBytes (Utf8.encode text)).take n =
      Base64.encodeBytes (Utf8.encode rest) := by rw [← hsymbols]; exact (List.append_nil _).symm
  have hlt : n < (Base64.encodeBytes (Utf8.encode text)).length := by
    by_contra hge
    exact hne (by rw [List.take_of_length_le (Nat.le_of_not_lt hge)])
  have hmod := Base64.length_encodeBytes_mod (Utf8.encode rest)
  rw [← htake, List.length_take, Nat.min_eq_left hlt.le] at hmod
  obtain ⟨groups, rfl⟩ : ∃ groups, n = 4 * groups := ⟨n / 4, by omega⟩
  obtain ⟨hlength, hgroups⟩ := Base64.encodeBytes_take hlt
  refine ⟨?_, groups, hlength, Base64.encodeBytes_injective (htake.symm.trans hgroups)⟩
  rw [List.append_nil, wrap_eq, htake]

/-! ## Entries -/

theorem tags_iff {tagged : List Char} {value : Scalar} :
    Tags tagged value ↔ tagged = taggedText value ∧ value.IsKey := by
  constructor
  · rintro (text | ⟨finite⟩)
    · exact ⟨by rw [taggedText, String.toList_ofList], trivial⟩
    · exact ⟨by rw [taggedText, String.toList_ofList], finite⟩
  · rintro ⟨rfl, hkey⟩
    cases value with
    | text value =>
      have htags : Tags ('S' :: value.toList) (.text (String.ofList value.toList)) := .text _
      rwa [String.ofList_toList] at htags
    | number digits =>
      have htags : Tags ('N' :: digits.toList) (.number (String.ofList digits.toList)) :=
        .number (by rwa [String.ofList_toList])
      rwa [String.ofList_toList] at htags
    | _ => cases hkey

theorem length_entryText (field : String) (value : Scalar) : (entryText (field, value)).length =
    (Percent.encode field.toList).length + 1 + (Percent.encode (taggedText value)).length := by
  rw [entryText, List.length_append, List.length_cons, Nat.add_assoc, Nat.add_comm 1]

theorem decodeEntry_eq_ok_of_field {field : String} {right : List Char} (hright : '=' ∉ right)
    {entry : String × Scalar} :
    decodeEntry (Percent.encode field.toList ++ '=' :: right) = .ok entry ↔
      ∃ left, Percent.decode? right = some (taggedText left) ∧ left.IsKey ∧
        entry = (field, left) := by
  have hfield : '=' ∉ Percent.encode field.toList := notMem_encode (by decide) _
  rw [decodeEntry_eq_ok_iff]
  constructor
  · intro h
    generalize htext : Percent.encode field.toList ++ '=' :: right = text at h
    cases h with
    | @pair name value spelled tagged left hname hvalue spells_name spells_value tags =>
      have hpieces := congrArg (pieces '=') htext
      rw [pieces_append hfield, pieces_of_notMem hright, pieces_append hname,
        pieces_of_notMem hvalue] at hpieces
      obtain ⟨rfl, rfl⟩ : Percent.encode field.toList = name ∧ right = value := by
        simpa using hpieces
      obtain ⟨rfl, hkey⟩ := tags_iff.1 tags
      obtain rfl : field.toList = spelled :=
        Utf8.encode_injective ((Percent.unescape_escape _).symm.trans spells_name)
      exact ⟨left, Percent.decode?_eq_some_iff.2 spells_value, hkey, by rw [String.ofList_toList]⟩
  · rintro ⟨left, hvalue, hkey, rfl⟩
    have hentry := Entry.pair hfield hright (Percent.unescape_escape (Utf8.encode field.toList))
      (Percent.decode?_eq_some_iff.1 hvalue) (tags_iff.2 ⟨rfl, hkey⟩)
    rwa [String.ofList_toList] at hentry

/-- **An entry that is cut off** is read as its field if the cut is behind the mark. -/
theorem decodeEntry_take_eq_ok_iff {field : String} {value : Scalar} {n : Nat}
    {entry : String × Scalar} : decodeEntry ((entryText (field, value)).take n) = .ok entry ↔
      ∃ m left, n = (Percent.encode field.toList).length + 1 + m ∧
        Percent.decode? ((Percent.encode (taggedText value)).take m) = some (taggedText left) ∧
          left.IsKey ∧ entry = (field, left) := by
  have hfield : '=' ∉ Percent.encode field.toList := notMem_encode (by decide) _
  by_cases hmark : n ≤ (Percent.encode field.toList).length
  · have hcut : '=' ∉ (Percent.encode field.toList).take n := fun h =>
      hfield (List.mem_of_mem_take h)
    rw [entryText, List.take_append_of_le_length hmark, decodeEntry, pieces_of_notMem hcut]
    constructor
    · intro h
      cases h
    · rintro ⟨m, left, rfl, -⟩
      omega
  · obtain ⟨m, rfl⟩ : ∃ m, n = (Percent.encode field.toList).length + (m + 1) :=
      ⟨n - (Percent.encode field.toList).length - 1, by omega⟩
    have hcut : '=' ∉ (Percent.encode (taggedText value)).take m := fun h =>
      notMem_encode (by decide) _ (List.mem_of_mem_take h)
    rw [entryText, List.take_length_add_append, List.take_succ_cons,
      decodeEntry_eq_ok_of_field hcut]
    constructor
    · rintro ⟨left, hread⟩
      exact ⟨m, left, by omega, hread⟩
    · rintro ⟨m', left, hm, hread⟩
      obtain rfl : m = m' := by omega
      exact ⟨left, hread⟩

/-! ## Joined text -/

theorem decodeEntries_append : ∀ {texts more : List (List Char)} {fields mid : FieldMap},
    decodeEntries fields texts = .ok mid →
      decodeEntries fields (texts ++ more) = decodeEntries mid more
  | [], more, fields, mid, h => by
    cases h
    rfl
  | text :: rest, more, fields, mid, h => by
    rw [decodeEntries] at h
    rw [List.cons_append, decodeEntries]
    split at h
    · cases h
    · rename_i field value hentry
      split_ifs at h with hcontains
      simp only [hcontains]
      exact decodeEntries_append h

/-- What a key is read as whose joined text is cut off after `n` characters, in the value of one of
its fields: the fields before this one, and this field with what is left of its value. -/
inductive CutAt (key : ResumeKey) : Nat → ResumeKey → Prop
  | value {before after : List (String × Scalar)} {field : String} {value left : Scalar} {m : Nat}
      {other : ResumeKey} (entries : key.fields.entries = before ++ (field, value) :: after)
      (within : m ≤ (Percent.encode (taggedText value)).length)
      (reads :
        Percent.decode? ((Percent.encode (taggedText value)).take m) = some (taggedText left))
      (isKey : left.IsKey) (kept : other.fields.entries = before ++ [(field, left)]) :
      CutAt key (offsetAfter (before.map entryText) +
        ((Percent.encode field.toList).length + 1 + m)) other

section Joined

variable {key other : ResumeKey} {before after : List (String × Scalar)} {field : String}
  {value : Scalar}

theorem pieces_take (hentries : key.fields.entries = before ++ (field, value) :: after) {n : Nat}
    (hn : n ≤ (entryText (field, value)).length) :
    pieces '&' ((joined key).take (offsetAfter (before.map entryText) + n)) =
      before.map entryText ++ [(entryText (field, value)).take n] := by
  rw [joined, hentries, List.map_append, List.map_cons, take_intercalate hn]
  refine pieces_intercalate (List.append_ne_nil_of_right_ne_nil _ (List.cons_ne_nil _ _))
    fun part hpart hmark => ?_
  rcases List.mem_append.1 hpart with hbefore | hlast
  · obtain ⟨e, -, rfl⟩ := List.mem_map.1 hbefore
    exact amp_notMem_entryText e hmark
  · rw [List.mem_singleton.1 hlast] at hmark
    exact amp_notMem_entryText _ (List.mem_of_mem_take hmark)

theorem decodeEntries_concat_eq_ok_iff
    (hentries : key.fields.entries = before ++ (field, value) :: after)
    (hkey : ∀ e ∈ key.fields.entries, e.2.IsKey) {text : List Char}
    (htext : ∀ e, decodeEntry text = .ok e → e.1 = field) :
    decodeEntries .empty (before.map entryText ++ [text]) = .ok other.fields ↔
      ∃ left, decodeEntry text = .ok (field, left) ∧
        other.fields.entries = before ++ [(field, left)] := by
  have hascending := key.fields.ascending
  rw [FieldMap.Ascending, hentries, List.pairwise_append] at hascending
  obtain ⟨hbefore, -, hlt⟩ := hascending
  let mid : FieldMap := ⟨before, hbefore⟩
  have hmid : decodeEntries .empty (before.map entryText) = .ok mid :=
    decodeEntries_entryTexts (List.nil_append _).symm fun e he =>
      hkey e (hentries ▸ List.mem_append_left _ he)
  have hsmaller : ∀ e ∈ mid.entries, e.1 < field := fun e he =>
    hlt e he (field, value) List.mem_cons_self
  have hnew : mid.contains field = false := by
    rw [FieldMap.contains, FieldMap.get?_of_lt hsmaller]
    rfl
  rw [decodeEntries_append hmid, decodeEntries]
  cases hread : decodeEntry text with
  | error fault => simp
  | ok entry =>
    obtain ⟨name, left⟩ := entry
    obtain rfl : name = field := htext _ hread
    simp only [hnew, Bool.false_eq_true, if_false, decodeEntries]
    constructor
    · intro h
      refine ⟨left, rfl, ?_⟩
      rw [← Except.ok.inj h, FieldMap.entries_insert_of_lt left hsmaller]
    · rintro ⟨left', heq, hother⟩
      cases heq
      rw [Except.ok.injEq]
      exact FieldMap.ext ((FieldMap.entries_insert_of_lt left hsmaller).trans hother.symm)

/-- **Joined text that is cut off** is read if the cut leaves a value that can be read. -/
theorem decodeEntries_take_eq_ok_iff (hne : key.fields.entries ≠ [])
    (hkey : ∀ e ∈ key.fields.entries, e.2.IsKey) {n : Nat} (hn : n ≤ (joined key).length) :
    decodeEntries .empty (pieces '&' ((joined key).take n)) = .ok other.fields ↔
      CutAt key n other := by
  have hfields {field : String} {value : Scalar} {m : Nat} (e : String × Scalar)
      (he : decodeEntry ((entryText (field, value)).take m) = .ok e) : e.1 = field := by
    obtain ⟨_, _, -, -, -, rfl⟩ := decodeEntry_take_eq_ok_iff.1 he
    rfl
  constructor
  · intro h
    obtain ⟨texts, text, rest, m, hsplit, hm, rfl⟩ :=
      exists_piece (fun hnil => hne (List.map_eq_nil_iff.1 hnil)) hn
    obtain ⟨before, tail, hentries, rfl, htail⟩ := List.map_eq_append_iff.1 hsplit
    obtain ⟨⟨field, value⟩, after, rfl, rfl, rfl⟩ := List.map_eq_cons_iff.1 htail
    rw [pieces_take hentries hm, decodeEntries_concat_eq_ok_iff hentries hkey hfields] at h
    obtain ⟨left, hread, hother⟩ := h
    obtain ⟨k, left', rfl, hdecode, hisKey, heq⟩ := decodeEntry_take_eq_ok_iff.1 hread
    cases heq
    refine .value hentries ?_ hdecode hisKey hother
    rw [length_entryText] at hm
    omega
  · rintro ⟨hentries, hwithin, hdecode, hisKey, hother⟩
    rename_i before after field value left m
    have hm : (Percent.encode field.toList).length + 1 + m ≤ (entryText (field, value)).length := by
      rw [length_entryText]
      omega
    rw [pieces_take hentries hm, decodeEntries_concat_eq_ok_iff hentries hkey hfields]
    exact ⟨left, decodeEntry_take_eq_ok_iff.2 ⟨m, left, rfl, hdecode, hisKey, rfl⟩, hother⟩

end Joined

/-! ## What is left of a value -/

/-- A value of the same kind, with a first part of the bytes of another and what a cut leaves of an
escape. -/
structure ShortOf (value left : Scalar) : Prop where
  kind : left.kind = value.kind
  bytes : ∃ kept tail, kept <+: Utf8.encode (taggedText value) ∧ Percent.Broken tail ∧
    Utf8.encode (taggedText left) = kept ++ Utf8.encode tail

theorem taggedText_cases {value : Scalar} (h : value.IsKey) :
    (∃ text, taggedText value = 'S' :: text ∧ value.kind = .text) ∨
      ∃ text, taggedText value = 'N' :: text ∧ value.kind = .number := by
  match value, h with
  | .text value, _ => exact .inl ⟨_, rfl, rfl⟩
  | .number digits, _ => exact .inr ⟨_, rfl, rfl⟩

/-- Values whose tagged texts begin with the same byte are of one kind. -/
theorem kind_eq_of_first {a b : Scalar} (ha : a.IsKey) (hb : b.IsKey) {byte : UInt8}
    {restA restB : List UInt8} (hA : Utf8.encode (taggedText a) = byte :: restA)
    (hB : Utf8.encode (taggedText b) = byte :: restB) : a.kind = b.kind := by
  rcases taggedText_cases ha with ⟨x, hx, hkindA⟩ | ⟨x, hx, hkindA⟩ <;>
    rcases taggedText_cases hb with ⟨y, hy, hkindB⟩ | ⟨y, hy, hkindB⟩ <;>
    rw [hx, Utf8.encode_cons] at hA <;> rw [hy, Utf8.encode_cons] at hB
  · rw [hkindA, hkindB]
  · cases hA
    cases hB
  · cases hA
    cases hB
  · rw [hkindA, hkindB]

theorem shortOf_of_reads {value left : Scalar} (hvalue : value.IsKey) (hleft : left.IsKey) {m : Nat}
    (h : Percent.decode? ((Percent.encode (taggedText value)).take m) = some (taggedText left)) :
    ShortOf value left := by
  obtain ⟨n, tail, hbroken, hcut⟩ := Percent.exists_of_prefix_escape
    (List.take_prefix m (Percent.encode (taggedText value)))
  rw [hcut, Percent.decode?_eq_some_iff, Percent.unescape_escape_append _ hbroken] at h
  refine ⟨?_, _, tail, List.take_prefix n _, hbroken, h.symm⟩
  cases hkept : (Utf8.encode (taggedText value)).take n with
  | nil =>
    -- a tag is no part of a cut escape
    rw [hkept] at h
    have htail : tail = taggedText left := Utf8.encode_injective h
    rcases taggedText_cases hleft with ⟨text, htext, -⟩ | ⟨text, htext, -⟩ <;>
      rw [htext] at htail <;> subst htail <;> cases hbroken
  | cons byte kept =>
    rw [hkept] at h
    obtain ⟨later, hlater⟩ : byte :: kept <+: Utf8.encode (taggedText value) :=
      hkept ▸ List.take_prefix n _
    exact kind_eq_of_first hleft hvalue h.symm hlater.symm

/-! ## All cuts -/

theorem decode_eq_ok_iff_parse {codec : PositionCodec} {token : String} {key : ResumeKey} :
    codec.decode token = .ok key ↔ codec.parse token = .ok key.fields := by
  obtain ⟨fields⟩ := key
  rw [decode]
  cases codec.parse token <;> simp

/-- A token that is cut off between two groups, in the value of a field. -/
def Uncaught (key : ResumeKey) (front : String) (other : ResumeKey) : Prop :=
  ∃ groups, front.toList = wrap ((joined key).take (3 * groups)) ∧ CutAt key (3 * groups) other

theorem CutAt.pos {key other : ResumeKey} {n : Nat} (h : CutAt key n other) : 0 < n := by
  cases h
  omega

section Cuts

variable {key other : ResumeKey} {front : String}

theorem Uncaught.shortOf (h : Uncaught key front other)
    (hkey : ∀ e ∈ key.fields.entries, e.2.IsKey) :
    ∃ before field value after left, key.fields.entries = before ++ (field, value) :: after ∧
      other.fields.entries = before ++ [(field, left)] ∧ ShortOf value left := by
  obtain ⟨groups, -, hcut⟩ := h
  generalize 3 * groups = n at hcut
  obtain ⟨hentries, -, hreads, hisKey, hother⟩ := hcut
  have hvalue := hkey _ (hentries ▸ List.mem_append_right _ List.mem_cons_self)
  exact ⟨_, _, _, _, _, hentries, hother, shortOf_of_reads hvalue hisKey hreads⟩

variable (hne : key.fields.entries ≠ []) (hkey : ∀ e ∈ key.fields.entries, e.2.IsKey)
  (hcut : front.toList ≠ wrap (joined key))
include hne hkey hcut

theorem uncaught_of_decode (hfront : front.toList <+: wrap (joined key)) {reader : PositionCodec}
    (h : reader.decode front = .ok other) : Uncaught key front other := by
  have hparse := decode_eq_ok_iff_parse.1 h
  unfold parse at hparse
  split_ifs at hparse with hempty hlong
  split at hparse
  · cases hparse
  · split at hparse
    · cases hparse
    · rename_i rest hrest
      obtain ⟨hwrap, groups, hgroups, hbytes⟩ := unwrap_of_prefix hfront hcut hrest
      rw [← Utf8.encode_take fun c hc => toNat_lt_of_mem_joined hc] at hbytes
      obtain rfl := Utf8.encode_injective hbytes
      rw [Utf8.encode_ascii fun c hc => toNat_lt_of_mem_joined hc, List.length_map] at hgroups
      exact ⟨groups, hwrap, (decodeEntries_take_eq_ok_iff hne hkey hgroups.le).1 hparse⟩

theorem decode_of_uncaught {reader : PositionCodec} (h : Uncaught key front other)
    (hsize : Utf8.size front ≤ reader.maxTokenLength) : reader.decode front = .ok other := by
  obtain ⟨groups, hwrap, hother⟩ := h
  have hlength : 3 * groups ≤ (joined key).length := by
    by_contra hlong
    exact hcut (by rw [hwrap, List.take_of_length_le (Nat.le_of_not_le hlong)])
  have hsome : (joined key).take (3 * groups) ≠ [] := by
    rw [ne_eq, List.take_eq_nil_iff, not_or]
    exact ⟨hother.pos.ne', joined_ne_nil hne⟩
  have hnonempty : front ≠ "" := fun hempty =>
    wrap_ne_nil hsome (hwrap.symm.trans (congrArg String.toList hempty))
  have hchars : front.toList.find? (!isTokenChar ·) = none :=
    List.find?_eq_none.2 fun c hc => by
      rw [hwrap] at hc
      rw [isTokenChar_of_mem_wrap hc]
      decide
  rw [decode_eq_ok_iff_parse, parse, if_neg hnonempty, if_neg (Nat.not_lt.2 hsize), hchars]
  simp only [hwrap, unwrap_wrap]
  exact (decodeEntries_take_eq_ok_iff hne hkey hlength).2 hother

end Cuts

/-- **Which cuts are caught.** A token that is cut off is a corrupt position, unless the cut lies
between two groups and in the value of a field. Then it is read with a value of the same kind there,
of which the first bytes are left. -/
theorem decode_cut {writer : PositionCodec} {key : ResumeKey} {token front back : String}
    (h : writer.encode key = .ok token) (hsplit : token = front ++ back) (hback : back ≠ "")
    (reader : PositionCodec) :
    (∀ other, reader.decode front = .ok other ↔
      Utf8.size front ≤ reader.maxTokenLength ∧ Uncaught key front other) ∧
    ((∃ fault, reader.decode front = .error (.corruptPosition fault)) ↔
      (Utf8.size front ≤ reader.maxTokenLength → ∀ other, ¬ Uncaught key front other)) ∧
    ∀ other, Uncaught key front other →
      ∃ before field value after left, key.fields.entries = before ++ (field, value) :: after ∧
        other.fields.entries = before ++ [(field, left)] ∧ ShortOf value left := by
  obtain ⟨hne, hkey⟩ := encode_ok h
  obtain rfl := tokenOf_of_encode h
  have hlist : wrap (joined key) = front.toList ++ back.toList := by
    rw [← String.toList_append, ← hsplit, tokenOf, String.toList_ofList, joined]
  have hfront : front.toList <+: wrap (joined key) := ⟨_, hlist.symm⟩
  have hcut : front.toList ≠ wrap (joined key) := by
    intro hwhole
    rw [hlist] at hwhole
    exact hback (String.toList_inj.1 (List.self_eq_append_right.1 hwhole))
  have hok (other : ResumeKey) : reader.decode front = .ok other ↔
      Utf8.size front ≤ reader.maxTokenLength ∧ Uncaught key front other := by
    constructor
    · intro hread
      exact ⟨size_le_of_decode hread, uncaught_of_decode hne hkey hcut hfront hread⟩
    · rintro ⟨hsize, huncaught⟩
      exact decode_of_uncaught hne hkey hcut huncaught hsize
  refine ⟨hok, ⟨?_, fun hcaught => ?_⟩, fun other huncaught => huncaught.shortOf hkey⟩
  · rintro ⟨fault, hfault⟩ hsize other huncaught
    cases hfault.symm.trans ((hok other).2 ⟨hsize, huncaught⟩)
  · cases hread : reader.decode front with
    | ok other => exact absurd ((hok other).1 hread).2 (hcaught ((hok other).1 hread).1 other)
    | error e =>
      rw [decode] at hread
      split at hread
      · cases hread
      · cases hread
        exact ⟨_, rfl⟩

/-- A token that loses its last group, with the end of the last value in it. -/
theorem decode_cut_last_group :
    let key : ResumeKey := ⟨.ofList [("id", .text "H_10"), ("tenant", .text "acme")]⟩
    let other : ResumeKey := ⟨.ofList [("id", .text "H_10"), ("tenant", .text "ac")]⟩
    default.encode key = .ok "aWQ9U0glNUYxMCZ0ZW5hbnQ9U2FjbWU%3D" ∧
      Uncaught key "aWQ9U0glNUYxMCZ0ZW5hbnQ9U2Fj" other ∧
      ∃ before field value after left, key.fields.entries = before ++ (field, value) :: after ∧
        other.fields.entries = before ++ [(field, left)] ∧ ShortOf value left := by
  intro key other
  have hencode : default.encode key = .ok "aWQ9U0glNUYxMCZ0ZW5hbnQ9U2FjbWU%3D" := by decide +kernel
  have hread : default.decode "aWQ9U0glNUYxMCZ0ZW5hbnQ9U2Fj" = .ok other := by decide +kernel
  have hsplit : "aWQ9U0glNUYxMCZ0ZW5hbnQ9U2FjbWU%3D" = "aWQ9U0glNUYxMCZ0ZW5hbnQ9U2Fj" ++ "bWU%3D" :=
    rfl
  obtain ⟨hok, -, hshort⟩ := decode_cut hencode hsplit (by decide) default
  have huncaught := ((hok other).1 hread).2
  exact ⟨hencode, huncaught, hshort other huncaught⟩

/-- Without its last group a token is read as another key. -/
theorem decode_not_caught :
    default.encode ⟨.ofList [("k", .text "ABCDEF")]⟩ = .ok "az1TQUJDREVG" ∧
      "az1TQUJDREVG" = "az1TQUJD" ++ "REVG" ∧
      default.decode "az1TQUJD" = .ok ⟨.ofList [("k", .text "ABC")]⟩ := by
  decide +kernel

end PositionCodec

end CursorPaging
