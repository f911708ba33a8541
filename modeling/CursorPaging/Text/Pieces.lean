/-!
# Pieces of a text

* `pieces`: a text cut at every place where a mark stands.
-/

namespace CursorPaging

/-- The pieces of a text between the places where `mark` stands; one more than there are marks. -/
def pieces (mark : Char) : List Char → List (List Char)
  | [] => [[]]
  | c :: rest =>
    if c = mark then [] :: pieces mark rest
    else match pieces mark rest with
      | [] => [[c]]
      | piece :: more => (c :: piece) :: more

end CursorPaging
