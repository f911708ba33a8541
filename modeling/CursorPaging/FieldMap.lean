import CursorPaging.Scalar

/-!
# Field maps

A finite map from field names to scalars, kept in ascending order of the names. Two maps that hold
the same fields are equal.

* `FieldMap`, `FieldMap.get?`, `FieldMap.insert`, `FieldMap.erase`, `FieldMap.ofList`;
* `FieldMap.order`: entries compared one by one, a map that ends first coming first.
-/

namespace CursorPaging

namespace FieldMap

/-- Put a field into a list of entries, in place of the field of that name if there is one. -/
def insertEntry (field : String) (value : Scalar) :
    List (String × Scalar) → List (String × Scalar)
  | [] => [(field, value)]
  | (f, v) :: rest =>
    if field < f then (field, value) :: (f, v) :: rest
    else if field = f then (field, value) :: rest
    else (f, v) :: insertEntry field value rest

/-- Ascending names, each once. -/
def Ascending (entries : List (String × Scalar)) : Prop := entries.Pairwise (·.1 < ·.1)

theorem mem_insertEntry {field : String} {value : Scalar} {entries : List (String × Scalar)}
    {entry : String × Scalar} (h : entry ∈ insertEntry field value entries) :
    entry = (field, value) ∨ entry ∈ entries := by
  induction entries with
  | nil => simpa [insertEntry] using h
  | cons head rest ih =>
    obtain ⟨f, v⟩ := head
    simp only [insertEntry] at h
    split at h
    · simpa using h
    · split at h
      · rcases List.mem_cons.1 h with h | h
        · exact .inl h
        · exact .inr (List.mem_cons_of_mem _ h)
      · rcases List.mem_cons.1 h with h | h
        · exact .inr (h ▸ List.mem_cons_self)
        · exact (ih h).imp_right (List.mem_cons_of_mem _)

theorem lt_of_not_lt_of_ne {a b : String} (h : ¬ a < b) (hne : a ≠ b) : b < a := by
  rcases String.le_total a b with hle | hle
  · exact absurd (String.le_antisymm hle (String.not_lt.1 h)) hne
  · exact String.not_le.1 fun hle' => hne (String.le_antisymm hle' hle)

theorem ascending_insertEntry (field : String) (value : Scalar) {entries : List (String × Scalar)}
    (h : Ascending entries) : Ascending (insertEntry field value entries) := by
  induction entries with
  | nil => simp [insertEntry, Ascending]
  | cons head rest ih =>
    obtain ⟨f, v⟩ := head
    obtain ⟨hhead, hrest⟩ := List.pairwise_cons.1 h
    simp only [insertEntry]
    split
    · rename_i hlt
      exact List.pairwise_cons.2 ⟨fun e he => (List.mem_cons.1 he).elim (fun h => h ▸ hlt)
        fun h => String.lt_trans hlt (hhead e h), h⟩
    · rename_i hlt
      split
      · rename_i heq
        exact List.pairwise_cons.2 ⟨fun e he => heq ▸ hhead e he, hrest⟩
      · rename_i hne
        exact List.pairwise_cons.2 ⟨fun e he => (mem_insertEntry he).elim
          (fun h => h ▸ lt_of_not_lt_of_ne hlt hne) (hhead e), ih hrest⟩

end FieldMap

/-- A finite map from field names to scalars. -/
structure FieldMap where
  entries : List (String × Scalar)
  ascending : FieldMap.Ascending entries
  deriving DecidableEq

namespace FieldMap

def empty : FieldMap := ⟨[], List.Pairwise.nil⟩

instance : Inhabited FieldMap := ⟨empty⟩

/-- The value of a field. -/
def get? (m : FieldMap) (field : String) : Option Scalar := m.entries.lookup field

def contains (m : FieldMap) (field : String) : Bool := (m.get? field).isSome

def size (m : FieldMap) : Nat := m.entries.length

def isEmpty (m : FieldMap) : Bool := m.entries.isEmpty

/-- Set a field. -/
def insert (m : FieldMap) (field : String) (value : Scalar) : FieldMap :=
  ⟨insertEntry field value m.entries, ascending_insertEntry field value m.ascending⟩

/-- Leave a field out. -/
def erase (m : FieldMap) (field : String) : FieldMap :=
  ⟨m.entries.filter (·.1 ≠ field), m.ascending.filter _⟩

/-- The map of some fields; of two with one name the later counts. -/
def ofList (fields : List (String × Scalar)) : FieldMap :=
  fields.foldl (fun m f => m.insert f.1 f.2) empty

/-- The order of entry lists. -/
def orderEntries : List (String × Scalar) → List (String × Scalar) → Ordering
  | [], [] => .eq
  | [], _ :: _ => .lt
  | _ :: _, [] => .gt
  | (f, v) :: rest, (g, w) :: more =>
    (compare f g).then ((v.order w).then (orderEntries rest more))

/-- The order of maps. -/
def order (a b : FieldMap) : Ordering := orderEntries a.entries b.entries

/-- The fields of some names, or the first name that is missing. -/
def project (m : FieldMap) : List String → Except String FieldMap
  | [] => .ok empty
  | name :: rest =>
    match m.get? name with
    | none => .error name
    | some value => (m.project rest).map (·.insert name value)

/-- A map as messages show it. -/
def display (m : FieldMap) : String :=
  let fields := m.entries.map fun f => f.1 ++ ": " ++ f.2.display
  "\x7b" ++ ", ".intercalate fields ++ "\x7d"

end FieldMap

end CursorPaging
