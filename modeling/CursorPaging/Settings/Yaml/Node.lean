import CursorPaging.Number.Integer
import CursorPaging.Settings.Document
import CursorPaging.Settings.Yaml.Token

/-!
# YAML nodes

Tokens as a tree of nodes. Only text names members; members of other names are left out.

* `Node`, `Node.document?`;
* `plainNode`, `taggedNode`: what a plain scalar stands for;
* **`root?`**: the node of a text with at most one document.
-/

namespace CursorPaging

-- powers are those of the core library
attribute [local instance (10000)] instPowNat

namespace Yaml

/-- A value in a text. -/
inductive Node where
  /-- A value that does not fit its tag, or a reference to a node that is not complete. -/
  | absent
  | null
  | boolean (value : Bool)
  | integer (value : Int)
  /-- A number, unless it is one by a name that numbers do not have elsewhere. -/
  | float (value : Option Binary64)
  | text (value : String)
  | list (items : List Node)
  | table (members : List (String × Node))
  deriving Inhabited

/-! ## Plain scalars -/

/-- A whole number in a base, with an optional sign. -/
def based? (base : Nat) (text : List Char) : Option Int :=
  let (minus, digits) := Decimal.takeSign text
  if digits.isEmpty || !digits.all (isDigitOf base) then none
  else
    let n : Int := if minus then -(numberOf base digits : Int) else numberOf base digits
    if -2 ^ (63 : Nat) ≤ n ∧ n < 2 ^ (63 : Nat) then some n else none

/-- The whole number that a plain scalar spells: after the mark of a base, after a plus, or in
decimal digits. -/
def integer? (text : String) : Option Int :=
  let marked := match text.toList with
    | '0' :: 'x' :: rest => based? 16 rest
    | '0' :: 'o' :: rest => based? 8 rest
    | '+' :: rest => Integer.signed? 64 (String.ofList rest)
    | _ => none
  marked <|> Integer.signed? 64 text

/-- Names of infinities and of no number that only this notation has. -/
def floatNames : List String :=
  [".inf", ".Inf", ".INF", "+.inf", "+.Inf", "+.INF", "-.inf", "-.Inf", "-.INF", ".nan", ".NAN"]

/-- The number that a plain scalar spells. -/
def float? (text : String) : Option Node :=
  if floatNames.contains text then some (.float none)
  else (Binary64.ofText? text).map fun x => .float (some x)

/-- What a plain scalar stands for. -/
def plainNode (text : String) : Node :=
  match integer? text with
  | some n => .integer n
  | none =>
    if text = "~" || text = "null" then .null
    else if text = "true" then .boolean true
    else if text = "false" then .boolean false
    else (float? text).getD (.text text)

/-- What a plain scalar with a tag stands for. All tags but some known ones make it a text. -/
def taggedNode (known : Option String) (text : String) : Node :=
  match known with
  | some "bool" =>
    if text = "true" then .boolean true else if text = "false" then .boolean false else .absent
  | some "int" => ((Integer.signed? 64 text).map Node.integer).getD .absent
  | some "float" => (float? text).getD .absent
  | some "null" => if text = "~" || text = "null" then .null else .absent
  | _ => .text text

/-! ## Anchors -/

/-- The nodes with anchors so far. A later anchor of one name replaces an earlier one. -/
structure Anchors where
  /-- The names, the latest first, each with its number. -/
  numbers : List (String × Nat)
  /-- The nodes that are complete, by their number. -/
  nodes : List (Nat × Node)

namespace Anchors

def empty : Anchors := ⟨[], []⟩

/-- Give a name the next number. -/
def register (name : String) (a : Anchors) : Nat × Anchors :=
  let number := a.numbers.length
  (number, { a with numbers := (name, number) :: a.numbers })

/-- The node of a name that was given. -/
def resolve? (name : String) (a : Anchors) : Option Node :=
  (a.numbers.lookup name).map fun number => (a.nodes.lookup number).getD .absent

/-- The node of a number is complete. -/
def complete (number : Option Nat) (node : Node) (a : Anchors) : Anchors :=
  match number with
  | some number => { a with nodes := (number, node) :: a.nodes }
  | none => a

end Anchors

/-! ## Trees -/

/-- The members of a table that is being read, and the name whose value comes next. -/
structure Members where
  complete : List (String × Node)
  pending : Option Node

namespace Members

def empty : Members := ⟨[], none⟩

/-- The next name or value. What is absent is no name, and what follows takes its place. -/
def add (node : Node) (m : Members) : Members :=
  match m.pending, node with
  | none, .absent => m
  | none, name => { m with pending := some name }
  | some (.text name), value => ⟨setEntry name value m.complete, none⟩
  | some _, _ => { m with pending := none }

end Members

/-- A node that was read, the anchors after it, and the tokens that are left. -/
abbrev Read := Option (Node × Anchors × List Token)

/-- The anchor and tag before a node: each once, in any order. -/
structure Properties where
  number : Option Nat
  tagged : Bool
  known : Option String

/-- Take the properties off the front. -/
def properties (a : Anchors) : List Token → Properties × Anchors × List Token
  | .anchor name :: .tag known :: rest =>
    let (number, a) := a.register name
    (⟨some number, true, known⟩, a, rest)
  | .tag known :: .anchor name :: rest =>
    let (number, a) := a.register name
    (⟨some number, true, known⟩, a, rest)
  | .anchor name :: rest =>
    let (number, a) := a.register name
    (⟨some number, false, none⟩, a, rest)
  | .tag known :: rest => (⟨none, true, known⟩, a, rest)
  | rest => (⟨none, false, none⟩, a, rest)

/-- A plain scalar with its properties. -/
def scalarNode (p : Properties) (text : String) : Node :=
  if p.tagged then taggedNode p.known text else plainNode text

/-- Whether nothing stands for a name or value of a table in a block. -/
def endsMember : List Token → Bool
  | .name :: _ => true
  | .value :: _ => true
  | .blockEnd :: _ => true
  | _ => false

/-- Whether nothing stands for an item of a list in a block. -/
def endsItem : List Token → Bool
  | .item :: _ => true
  | .blockEnd :: _ => true
  | _ => false

/-- Whether a member of a table in brackets is over. -/
def endsFlowMember : List Token → Bool
  | .comma :: _ => true
  | .flowTableEnd :: _ => true
  | _ => false

/-- Whether an item of a list in brackets is over. -/
def endsFlowItem : List Token → Bool
  | .comma :: _ => true
  | .flowListEnd :: _ => true
  | _ => false

mutual

/-- A node. In brackets there are no blocks; the value of a member may be a list that is not further
in than the name. -/
def node (inBlock mayAlign : Bool) : Nat → Anchors → List Token → Read
  | 0, _, _ => none
  | fuel + 1, a, tokens =>
    match tokens with
    | .reference name :: rest => (a.resolve? name).map fun node => (node, a, rest)
    | _ =>
      let (p, a, tokens) := properties a tokens
      let content : Read := match tokens with
        | .plain text :: rest => some (scalarNode p text, a, rest)
        | .quoted text :: rest => some (.text text, a, rest)
        | .flowListStart :: rest => flowList true fuel [] a rest
        | .flowTableStart :: rest => flowTable true fuel .empty a rest
        | .item :: _ =>
          if mayAlign then alignedList fuel [] a tokens
          else if p.tagged || p.number.isSome then some (scalarNode p "", a, tokens)
          else none
        | .listStart :: rest =>
          if inBlock then blockList fuel [] a rest
          else if p.tagged || p.number.isSome then some (scalarNode p "", a, tokens)
          else none
        | .tableStart :: rest =>
          if inBlock then blockTable fuel .empty a rest
          else if p.tagged || p.number.isSome then some (scalarNode p "", a, tokens)
          else none
        | _ =>
          if p.tagged || p.number.isSome then some (scalarNode p "", a, tokens) else none
      content.map fun (node, a, rest) => (node, a.complete p.number node, rest)

/-- The members of a table in a block. -/
def blockTable : Nat → Members → Anchors → List Token → Read
  | 0, _, _, _ => none
  | fuel + 1, members, a, tokens =>
    let name : Read := match tokens with
      | .name :: rest =>
        if endsMember rest then some (.null, a, rest) else node true true fuel a rest
      | .value :: _ => some (.null, a, tokens)
      | _ => none
    match tokens, name with
    | .blockEnd :: rest, _ => some (.table members.complete, a, rest)
    | _, none => none
    | _, some (name, a, rest) =>
      let value : Read := match rest with
        | .value :: rest =>
          if endsMember rest then some (.null, a, rest) else node true true fuel a rest
        | _ => some (.null, a, rest)
      match value with
      | none => none
      | some (value, a, rest) => blockTable fuel ((members.add name).add value) a rest

/-- The items of a list in a block of its own. -/
def blockList : Nat → List Node → Anchors → List Token → Read
  | 0, _, _, _ => none
  | fuel + 1, items, a, tokens =>
    match tokens with
    | .blockEnd :: rest => some (.list items, a, rest)
    | .item :: rest =>
      if endsItem rest then blockList fuel (items ++ [.null]) a rest
      else match node true false fuel a rest with
        | none => none
        | some (x, a, rest) => blockList fuel (items ++ [x]) a rest
    | _ => none

/-- The items of a list that is aligned with the name before it. -/
def alignedList : Nat → List Node → Anchors → List Token → Read
  | 0, _, _, _ => none
  | fuel + 1, items, a, tokens =>
    match tokens with
    | .item :: rest =>
      if endsItem rest || endsMember rest then alignedList fuel (items ++ [.null]) a rest
      else match node true false fuel a rest with
        | none => none
        | some (x, a, rest) => alignedList fuel (items ++ [x]) a rest
    | _ => some (.list items, a, tokens)

/-- The members of a table in brackets. -/
def flowTable (first : Bool) : Nat → Members → Anchors → List Token → Read
  | 0, _, _, _ => none
  | fuel + 1, members, a, tokens =>
    let entry := match tokens with
      | .flowTableEnd :: _ => some tokens
      | .comma :: rest => if first then some tokens else some rest
      | _ => if first then some tokens else none
    match entry with
    | none => none
    | some (.flowTableEnd :: rest) => some (.table members.complete, a, rest)
    | some tokens =>
      let mayValue := match tokens with
        | .name :: _ => true
        | .value :: _ => true
        | _ => false
      let name : Read := match tokens with
        | .name :: .value :: rest => some (.null, a, .value :: rest)
        | .name :: rest =>
          if endsFlowMember rest then some (.null, a, rest) else node false false fuel a rest
        | .value :: _ => some (.null, a, tokens)
        | _ => node false false fuel a tokens
      match name with
      | none => none
      | some (name, a, rest) =>
        let value : Read := match mayValue, rest with
          | true, .value :: rest =>
            if endsFlowMember rest then some (.null, a, rest) else node false false fuel a rest
          | _, _ => some (.null, a, rest)
        match value with
        | none => none
        | some (value, a, rest) => flowTable false fuel ((members.add name).add value) a rest

/-- The items of a list in brackets. A member may stand for a table that holds it alone. -/
def flowList (first : Bool) : Nat → List Node → Anchors → List Token → Read
  | 0, _, _, _ => none
  | fuel + 1, items, a, tokens =>
    let entry := match tokens with
      | .flowListEnd :: _ => some tokens
      | .comma :: rest => if first then some tokens else some rest
      | _ => if first then some tokens else none
    match entry with
    | none => none
    | some (.flowListEnd :: rest) => some (.list items, a, rest)
    | some (.name :: rest) =>
      match flowPair fuel a rest with
      | none => none
      | some (x, a, rest) => flowList false fuel (items ++ [x]) a rest
    | some tokens =>
      match node false false fuel a tokens with
      | none => none
      | some (x, a, rest) => flowList false fuel (items ++ [x]) a rest

/-- A member that stands for a table. Without a name, the token after it is passed over. -/
def flowPair : Nat → Anchors → List Token → Read
  | 0, _, _ => none
  | fuel + 1, a, tokens =>
    let name : Read := match tokens with
      | .value :: rest => some (.null, a, rest)
      | _ =>
        if endsFlowItem tokens then some (.null, a, tokens.drop 1)
        else node false false fuel a tokens
    match name with
    | none => none
    | some (name, a, rest) =>
      let value : Read := match rest with
        | .value :: rest =>
          if endsFlowItem rest then some (.null, a, rest) else node false false fuel a rest
        | _ => some (.null, a, rest)
      value.map fun (value, a, rest) =>
        (.table ((Members.empty.add name).add value).complete, a, rest)

end

/-! ## Documents -/

/-- Whether a document is over before its first token. -/
def endsDocument : List Token → Bool
  | [] => true
  | .directive :: _ => true
  | .documentStart :: _ => true
  | .documentEnd :: _ => true
  | _ => false

/-- The node of a document that takes all tokens. -/
def documentNode (tokens : List Token) : Option Node :=
  match node true false (4 * tokens.length + 4) .empty tokens with
  | some (node, _, rest) => if rest.all (· = .documentEnd) then some node else none
  | none => none

/-- The node of the only document; a text without one is an empty table. -/
def root? (tokens : List Token) : Option Node :=
  match tokens with
  | [] => some (.table [])
  | .directive :: _ | .documentStart :: _ =>
    match tokens.dropWhile (· = .directive) with
    | .documentStart :: rest =>
      if endsDocument rest then
        if rest.all (· = .documentEnd) then some .null else none
      else documentNode rest
    | _ => none
  | _ => documentNode tokens

/-! ## Values -/

mutual

/-- A node as a document, if it has no number that documents do not have. -/
def Node.document? : Node → Option Document
  | .absent => some .null
  | .null => some .null
  | .boolean value => some (.boolean value)
  | .integer value => some (.integer value)
  | .float value => value.map .float
  | .text value => some (.text value)
  | .list items => (documents? items).map .list
  | .table members => (memberDocuments? members).map .table

/-- Nodes as documents. -/
def documents? : List Node → Option (List Document)
  | [] => some []
  | node :: rest =>
    match node.document?, documents? rest with
    | some document, some documents => some (document :: documents)
    | _, _ => none

/-- Members as documents. -/
def memberDocuments? : List (String × Node) → Option (List (String × Document))
  | [] => some []
  | (name, node) :: rest =>
    match node.document?, memberDocuments? rest with
    | some document, some documents => some ((name, document) :: documents)
    | _, _ => none

end

end Yaml

end CursorPaging
