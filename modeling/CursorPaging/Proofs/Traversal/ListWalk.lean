import CursorPaging.Proofs.Traversal.Calls

/-!
# Walks over a list at hand

What a walk is when all records are known from the start: results are taken off a list, and a
question is whether the list has more.

* `ListWalk`, `ListWalk.hasNext`, **`ListWalk.ask`**, `ListWalk.asks`;
* `ListWalk.resumeKey`: the position in a list;
* `ListWalk.Split`, `asks_split`: what was handed out, then what is left, is the list.
-/

namespace CursorPaging

/-- A walk over a list of records. -/
structure ListWalk where
  /-- The records that were not handed out. -/
  left : List Record
  limit : Limit
  /-- The last record that was handed out. -/
  last : Option Record
  /-- Whether the caller has been told that nothing is left. -/
  told : Bool
  deriving DecidableEq

namespace ListWalk

def start (records : List Record) (limit : Limit) : ListWalk := ⟨records, limit, none, false⟩

/-- Hand out the first record. -/
def take (record : Record) (rest : List Record) (w : ListWalk) : ListWalk :=
  { w with left := rest, limit := w.limit.consume, last := some record }

/-- Whether a record may be handed out. -/
def hasNext (w : ListWalk) : Bool × ListWalk :=
  if w.limit.isReached then (false, w) else (!w.left.isEmpty, { w with told := w.left.isEmpty })

/-- The answer to a call and the walk after it. -/
def ask (w : ListWalk) : Ask → Answer Record × ListWalk
  | .hasNext => (.found (.ok w.hasNext.1), w.hasNext.2)
  | .nextItem =>
    if w.limit.isReached then (.item (.error (.limitReached (w.limit.requested.getD 0))), w)
    else match w.left with
      | [] => (.item (.error (.misuse .nothingLeft)), { w with told := true })
      | record :: rest => (.item (.ok record), w.take record rest)
  | .next =>
    if w.limit.isReached then (.pulled none, w)
    else match w.left with
      | [] => (.pulled none, { w with told := true })
      | record :: rest => (.pulled (some (.ok record)), w.take record rest)
  | .hasResultsPastLimit =>
    if !w.limit.isBounded then (.found (.error .noLimit), w)
    else if w.limit.isReached then (.found (.ok !w.left.isEmpty), w)
    else (.found (.ok w.hasNext.1), w.hasNext.2)

/-- The answers to some calls and the walk after them. -/
def asks : List Ask → ListWalk → List (Answer Record) × ListWalk
  | [], w => ([], w)
  | ask :: rest, w => ((w.ask ask).1 :: (asks rest (w.ask ask).2).1, (asks rest (w.ask ask).2).2)

/-- The key of the last record handed out, unless the caller knows that nothing is left. -/
def resumeKey (schema : KeySchema) (w : ListWalk) : Except PagingError (Option ResumeKey) :=
  match w.told, w.last with
  | false, some record =>
    match record.project schema.fields with
    | .ok key => .ok (some key)
    | .error field => .error (.missingKeyField field)
  | _, _ => .ok none

variable {records taken : List Record} {w : ListWalk}

/-! ## Answers -/

theorem hasNext_of_reached (h : w.limit.isReached = true) : w.hasNext = (false, w) := if_pos h

theorem hasNext_of_nil (h : w.limit.isReached = false) (hleft : w.left = []) :
    w.hasNext = (false, { w with told := true }) := by
  rw [hasNext, h, hleft]
  rfl

theorem hasNext_of_cons {record : Record} {rest : List Record} (h : w.limit.isReached = false)
    (hleft : w.left = record :: rest) (htold : w.told = false) : w.hasNext = (true, w) := by
  obtain ⟨left, limit, last, told⟩ := w
  obtain rfl : left = record :: rest := hleft
  obtain rfl : told = false := htold
  rw [hasNext, h]
  rfl

theorem nextItem_of_reached (h : w.limit.isReached = true) :
    w.ask .nextItem = (.item (.error (.limitReached (w.limit.requested.getD 0))), w) := if_pos h

theorem nextItem_of_nil (h : w.limit.isReached = false) (hleft : w.left = []) :
    w.ask .nextItem = (.item (.error (.misuse .nothingLeft)), { w with told := true }) := by
  rw [ask, h, hleft]
  rfl

theorem nextItem_of_cons {record : Record} {rest : List Record} (h : w.limit.isReached = false)
    (hleft : w.left = record :: rest) :
    w.ask .nextItem = (.item (.ok record), w.take record rest) := by
  rw [ask, h, hleft]
  rfl

theorem next_of_reached (h : w.limit.isReached = true) : w.ask .next = (.pulled none, w) := if_pos h

theorem next_of_nil (h : w.limit.isReached = false) (hleft : w.left = []) :
    w.ask .next = (.pulled none, { w with told := true }) := by
  rw [ask, h, hleft]
  rfl

theorem next_of_cons {record : Record} {rest : List Record} (h : w.limit.isReached = false)
    (hleft : w.left = record :: rest) :
    w.ask .next = (.pulled (some (.ok record)), w.take record rest) := by
  rw [ask, h, hleft]
  rfl

/-! ## What was handed out and what is left -/

/-- The walk after some records were handed out. -/
structure Split (records taken : List Record) (w : ListWalk) : Prop where
  records : taken ++ w.left = records
  last : w.last = taken.getLast?
  told : w.told = true → w.left = [] ∧ w.limit.isReached = false

theorem split_start (records : List Record) (limit : Limit) :
    Split records [] (start records limit) := ⟨rfl, rfl, fun h => by cases h⟩

theorem split_take {record : Record} {rest : List Record} (h : Split records taken w)
    (hleft : w.left = record :: rest) : Split records (taken ++ [record]) (w.take record rest) where
  records := by rw [← h.records, hleft, List.append_assoc]; rfl
  last := by rw [List.getLast?_concat]; rfl
  told htold := by
    have hnil := (h.told htold).1
    rw [hleft] at hnil
    cases hnil

theorem split_hasNext (h : Split records taken w) : Split records taken w.hasNext.2 := by
  unfold hasNext
  split_ifs with hlimit
  · exact h
  · exact ⟨h.records, h.last, fun htold => ⟨List.isEmpty_iff.1 htold, Bool.eq_false_iff.2 hlimit⟩⟩

theorem split_ask (h : Split records taken w) (a : Ask) :
    Split records (taken ++ (w.ask a).1.results) (w.ask a).2 := by
  have htold (hlimit : ¬ w.limit.isReached = true) (hleft : w.left = []) :
      Split records taken { w with told := true } :=
    ⟨h.records, h.last, fun _ => ⟨hleft, Bool.eq_false_iff.2 hlimit⟩⟩
  cases a with
  | hasNext => simpa [ask, Answer.results] using split_hasNext h
  | nextItem =>
    rw [ask]
    split_ifs with hlimit
    · simpa [Answer.results] using h
    · split
      · rename_i hleft
        simpa [Answer.results] using htold hlimit hleft
      · rename_i hleft
        exact split_take h hleft
  | next =>
    rw [ask]
    split_ifs with hlimit
    · simpa [Answer.results] using h
    · split
      · rename_i hleft
        simpa [Answer.results] using htold hlimit hleft
      · rename_i hleft
        exact split_take h hleft
  | hasResultsPastLimit =>
    rw [ask]
    split_ifs
    · simpa [Answer.results] using h
    · simpa [Answer.results] using h
    · simpa [Answer.results] using split_hasNext h

theorem asks_split : ∀ (as : List Ask) {taken : List Record} {w : ListWalk},
    Split records taken w →
      Split records (taken ++ (asks as w).1.flatMap Answer.results) (asks as w).2
  | [], taken, w, h => by simpa [asks] using h
  | a :: rest, taken, w, h => by
    have hrest := asks_split rest (split_ask h a)
    rw [List.append_assoc] at hrest
    exact hrest

end ListWalk

end CursorPaging
