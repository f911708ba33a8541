import CursorPaging.Settings.Yaml.Place

/-!
# YAML scalars

The text of a scalar in each of the ways to write it. Lines of plain and quoted scalars are folded;
blocks after `|` keep their lines and those after `>` are folded.

* `plainScalar`;
* `quotedScalar`: in single or double quotation marks;
* `blockScalar`.
-/

namespace CursorPaging

namespace Yaml

/-! ## Plain scalars -/

/-- The characters of a plain scalar up to a gap or its end. It ends before a colon that ends a
name, and in brackets before any mark of theirs. -/
def plainRun (inFlow : Bool) : List Char → List Char
  | [] => []
  | c :: rest =>
    if isGap c then []
    else if c = ':' && (endsWord rest.head? || (inFlow && rest.head?.any isFlowMark)) then []
    else if inFlow && isFlowMark c then []
    else c :: plainRun inFlow rest

/-- Go on with a plain scalar after a gap. `broken` says whether that had a line end. -/
def plainFrom (indent : Int) (inFlow : Bool) : Nat → (text gap : List Char) → (broken : Bool) →
    Place → Option (List Char × Bool × Place)
  | 0, _, _, _, _ => none
  | fuel + 1, text, gap, broken, p =>
    if p.atDocumentMark || p.peek 0 = some '#' then some (text, broken, p)
    else
      let run := plainRun inFlow p.rest
      let text := if run.isEmpty then text else text ++ gap ++ run
      let broken := broken && run.isEmpty
      let p := p.after run.length
      let gap := p.takeWhile isGap
      let q := p.after gap.length
      if gap.isEmpty then some (text, broken, p)
      else if hasEarlyTab indent p.column broken gap then none
      else if !inFlow && q.column < indent then some (text, 0 < breakCount gap, q)
      else plainFrom indent inFlow fuel text (joinGap gap) (0 < breakCount gap) q

/-- A plain scalar: its text, whether a line end follows it, and the place after that. Its further
lines are indented by `indent` at least. -/
def plainScalar (indent : Int) (inFlow : Bool) (p : Place) : Option (List Char × Bool × Place) :=
  plainFrom indent inFlow (p.rest.length + 1) [] [] false p

/-! ## Quoted scalars -/

/-- The character that a letter after a backslash stands for. -/
def escapeLetter? : Char → Option Char
  | '0' => some '\x00'
  | 'a' => some '\x07'
  | 'b' => some '\x08'
  | 't' => some '\t'
  | '\t' => some '\t'
  | 'n' => some '\n'
  | 'v' => some '\x0b'
  | 'f' => some '\x0c'
  | 'r' => some '\r'
  | 'e' => some '\x1b'
  | ' ' => some ' '
  | '"' => some '"'
  | '\'' => some '\''
  | '\\' => some '\\'
  | 'N' => some (Char.ofNat 0x85)
  | '_' => some (Char.ofNat 0xA0)
  | 'L' => some (Char.ofNat 0x2028)
  | 'P' => some (Char.ofNat 0x2029)
  | _ => none

/-- How many digits of a code follow a letter after a backslash. -/
def codeLength? : Char → Option Nat
  | 'x' => some 2
  | 'u' => some 4
  | 'U' => some 8
  | _ => none

/-- The character that an escape stands for, and how many characters after the backslash it
takes. -/
def escape? : List Char → Option (Char × Nat)
  | [] => none
  | letter :: rest =>
    match codeLength? letter with
    | some count => (codedChar count rest).map fun (c, _) => (c, count + 1)
    | none => (escapeLetter? letter).map fun c => (c, 1)

/-- What a run of a quoted scalar stops at. -/
inductive Stop where
  /-- The closing quotation mark. -/
  | quote
  /-- A gap, or the end of the text. -/
  | gap
  /-- A line end after a backslash. -/
  | escapedBreak
  deriving DecidableEq, Repr

/-- The characters of a quoted scalar up to what stops them, which is passed over unless it is a
gap. -/
def quotedRun (double : Bool) : Nat → Place → Option (List Char × Stop × Place)
  | 0, _ => none
  | fuel + 1, p =>
    let add (c : Char) (length : Nat) :=
      (quotedRun double fuel (p.after length)).map fun (cs, stop, p) => (c :: cs, stop, p)
    match p.rest with
    | [] => some ([], .gap, p)
    | c :: rest =>
      if isGap c then some ([], .gap, p)
      else if c = '\'' && !double then
        if rest.head? = some '\'' then add '\'' 2 else some ([], .quote, p.next)
      else if c = '"' && double then some ([], .quote, p.next)
      else if c = '\\' && double then
        if !rest.isEmpty && endsLine rest.head? then some ([], .escapedBreak, p.next.skipBreak)
        else match escape? rest with
          | some (c, length) => add c (length + 1)
          | none => none
      else add c 1

/-- Go on with a quoted scalar. It may not run into the start or the end of a document. -/
def quotedFrom (double : Bool) : Nat → (text : List Char) → Place → Option (List Char × Place)
  | 0, _, _ => none
  | fuel + 1, text, p =>
    if p.atDocumentMark || p.rest.isEmpty then none
    else match quotedRun double (p.rest.length + 1) p with
      | none => none
      | some (run, .quote, p) => some (text ++ run, p)
      | some (run, stop, p) =>
        let gap := p.takeWhile isGap
        let joint :=
          if stop = .escapedBreak then List.replicate (breakCount gap) '\n' else joinGap gap
        quotedFrom double fuel (text ++ run ++ joint) (p.after gap.length)

/-- A quoted scalar that begins with its quotation mark. -/
def quotedScalar (double : Bool) (p : Place) : Option (List Char × Place) :=
  quotedFrom double (p.rest.length + 1) [] p.next

/-! ## Blocks -/

/-- What becomes of the line ends after the last line of a block. -/
inductive Chomp where
  /-- None is kept. -/
  | strip
  /-- One is kept. -/
  | clip
  /-- All are kept. -/
  | keep
  deriving DecidableEq, Repr

/-- The mark of what to do with line ends, if there is one. -/
def chompMark (p : Place) : Option Chomp × Place :=
  match p.peek 0 with
  | some '+' => (some .keep, p.next)
  | some '-' => (some .strip, p.next)
  | _ => (none, p)

/-- The indentation that a block sets for itself, if it does; it cannot be zero. -/
def indentMark (p : Place) : Option (Nat × Place) :=
  match p.peek 0 with
  | some '0' => none
  | some c => if c.isDigit then some (c.toNat - 48, p.next) else some (0, p)
  | none => some (0, p)

/-- The marks after the sign of a block, in any order, and the place of its first line. -/
def blockHeader (p : Place) : Option (Chomp × Nat × Place) :=
  let (before, p) := chompMark p
  match indentMark p with
  | none => none
  | some (increment, p) =>
    let (after, p) := if before.isNone && increment ≠ 0 then chompMark p else (none, p)
    let p := p.skipWhile isBlank
    let p := if p.peek 0 = some '#' then p.lineEnd else p
    if endsLine (p.peek 0) then
      some ((before <|> after).getD .clip, increment, p.skipBreak)
    else none

/-- The next line of a block that is not empty: the indentation, how many empty lines were before
it, and its place. An indentation of zero is not set yet; the first line sets it, in a column after
`parent`. -/
def blockLine (parent : Int) : Nat → (indent widest empty : Nat) → Place →
    Option (Nat × Nat × Place)
  | 0, _, _, _, _ => none
  | fuel + 1, indent, widest, empty, p =>
    let spaces := (p.takeWhile (· = ' ')).length
    let p := p.after (if indent = 0 then spaces else min spaces (indent - p.column))
    let widest := max widest p.column
    if (indent = 0 || p.column < indent) && p.peek 0 = some '\t' then none
    else if (p.peek 0).any isBreak then
      blockLine parent fuel indent widest (empty + 1) p.skipBreak
    else
      some (if indent = 0 then max (max widest (parent + 1).toNat) 1 else indent, empty, p)

/-- What stands between two lines of a block: the line end, or a blank if lines are folded and
neither begins with one, and the empty lines. -/
def blockJoint (fold : Bool) (empty : Nat) : List Char :=
  (if !fold then ['\n'] else if empty = 0 then [' '] else []) ++ List.replicate empty '\n'

/-- The lines of a block at an indentation: its text, whether a line end follows, and how many
empty lines. -/
def blockLines (literal : Bool) (parent : Int) (indent : Nat) : Nat → (text : List Char) →
    (broken : Bool) → (empty : Nat) → (ledBlank : Bool) → Place →
    Option (List Char × Bool × Nat × Place)
  | 0, _, _, _, _, _ => none
  | fuel + 1, text, broken, empty, ledBlank, p =>
    if p.column ≠ indent || p.rest.isEmpty then some (text, broken, empty, p)
    else
      let blank := (p.peek 0).any isBlank
      let joint :=
        if broken then blockJoint (!literal && !ledBlank && !blank) empty
        else List.replicate empty '\n'
      let line := p.takeWhile (!isBreak ·)
      let text := text ++ joint ++ line
      let p := p.after line.length
      if p.rest.isEmpty then some (text, false, 0, p)
      else match blockLine parent (p.rest.length + 1) indent 0 0 p.skipBreak with
        | none => none
        | some (_, empty, p) => blockLines literal parent indent fuel text true empty blank p

/-- A block that begins with its sign, within a block whose indentation is `parent`. -/
def blockScalar (literal : Bool) (parent : Int) (p : Place) : Option (List Char × Place) :=
  match blockHeader p.next with
  | none => none
  | some (chomp, increment, p) =>
    let set := if increment = 0 then 0 else (max parent 0).toNat + increment
    match blockLine parent (p.rest.length + 1) set 0 0 p with
    | none => none
    | some (indent, empty, p) =>
      match blockLines literal parent indent (p.rest.length + 1) [] false empty false p with
      | none => none
      | some (text, broken, empty, p) =>
        let lineEnd := if broken && chomp ≠ .strip then ['\n'] else []
        let lines := if chomp = .keep then List.replicate empty '\n' else []
        some (text ++ lineEnd ++ lines, p)

end Yaml

end CursorPaging
