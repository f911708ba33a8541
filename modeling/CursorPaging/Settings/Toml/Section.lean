import CursorPaging.Settings.Document

/-!
# TOML sections

A text is a list of sections, each with the members after one header. The tables they belong to are
put together here, and no name may be defined twice.

* `Toml.Item`, `Toml.define?`: members with dotted names;
* `Toml.tableOf?`: members as a table;
* `Toml.Section`, **`Toml.assemble?`**: sections as one table.
-/

namespace CursorPaging

namespace Toml

/-! ## Members -/

/-- The value of a member, or a table that dotted names made, which more of them can add to. -/
inductive Item where
  | value (document : Document)
  | dotted (members : List (String × Item))

/-- Add a member whose name has some parts. A part before the last one names a table that dotted
names made or that is not there yet. -/
def define? : List String → Document → List (String × Item) → Option (List (String × Item))
  | [], _, _ => none
  | [name], value, members => some (members ++ [(name, .value value)])
  | name :: path, value, members =>
    match members.lookup name with
    | some (.dotted inner) =>
      (define? path value inner).map fun inner => setEntry name (.dotted inner) members
    | some (.value _) => none
    | none => (define? path value []).map fun inner => members ++ [(name, .dotted inner)]

/-- Whether every name is there once. -/
def distinct : List String → Bool
  | [] => true
  | name :: rest => !rest.contains name && distinct rest

/-- Members as a table, if their names differ. -/
def tableOf? (members : List (String × Document)) : Option Document :=
  if distinct (members.map (·.1)) then some (.table members) else none

mutual

/-- The document of a member. -/
def Item.document? : Item → Option Document
  | .value document => some document
  | .dotted members => (membersOf? members).bind tableOf?

/-- The documents of members. -/
def membersOf? : List (String × Item) → Option (List (String × Document))
  | [] => some []
  | (name, item) :: rest =>
    match item.document?, membersOf? rest with
    | some document, some members => some ((name, document) :: members)
    | _, _ => none

end

/-! ## Sections -/

/-- The members after a header, the first ones after an empty header. -/
structure Section where
  header : List String
  /-- Whether the header, in double brackets, starts a new table of a list. -/
  listed : Bool
  members : List (String × Item)

/-- Whether a section starts a new table of the list that it stands in. -/
def Section.startsItem (s : Section) : Bool := s.header.isEmpty && s.listed

/-- The sections below a name, their headers without it. -/
def below (name : String) (sections : List Section) : List Section :=
  sections.filterMap fun s => match s.header with
    | first :: rest => if first = name then some { s with header := rest } else none
    | [] => none

/-- The sections of each table of a list. -/
def listedTables (sections : List Section) : List (List Section) :=
  (sections.foldr (fun s (current, items) =>
    if s.startsItem then ([], ({ s with listed := false } :: current) :: items)
    else (s :: current, items)) ([], [])).2

/-- The table of some sections. One section at most has its own members; the others belong to the
tables below. A name whose first section starts a list is one. -/
def assemble? : Nat → List Section → Option Document
  | 0, _ => none
  | fuel + 1, sections =>
    let own := match sections.filter (·.header.isEmpty) with
      | [] => some []
      | [s] => if s.listed then none else membersOf? s.members
      | _ => none
    let names := (sections.filterMap (·.header.head?)).eraseDups
    let inner := names.mapM fun name =>
      let sections := below name sections
      let document :=
        if (sections.head?.any Section.startsItem) then
          ((listedTables sections).mapM (assemble? fuel)).map .list
        else assemble? fuel sections
      document.map fun document => (name, document)
    match own, inner with
    | some own, some inner => tableOf? (own ++ inner)
    | _, _ => none

end Toml

end CursorPaging
