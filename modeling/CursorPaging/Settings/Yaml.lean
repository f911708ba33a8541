import CursorPaging.Settings.Yaml.Node

/-!
# Reading YAML

Block and bracketed tables and lists, plain, quoted and block scalars, comments, anchors and
references, tags and directives.

* **`Yaml.parse?`**: the document of a text. Of two members of one name the later counts.
-/

namespace CursorPaging

/-- The document of a text, which ends at a null character. There may not be a second one. -/
def Yaml.parse? (text : String) : Option Document :=
  ((tokens? (text.toList.takeWhile (· ≠ '\x00'))).bind root?).bind Node.document?

end CursorPaging
