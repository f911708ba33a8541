import CursorPaging.CommandLine.Arguments
import CursorPaging.Proofs.Number.Shortest

/-!
# Arguments on a command line

The numbers that a command line gives are words of 64 bits, and all arguments with such numbers can
be given on one.

* `Integer.unsigned?_toString`: reading a number;
* `Arguments.Fits`, **`fits_of_parse`**: the numbers of a command line;
* `option`, `word_option`: an option with its value; `spelled`, **`parse_spelled`**: a command line
  for some arguments.
-/

namespace CursorPaging

-- powers are those of the core library
attribute [local instance (10000)] instPowNat

theorem Integer.unsigned?_toString {bits n : Nat} (h : n < 2 ^ bits) :
    unsigned? bits (toString n) = some n := by
  have hdigits : ∀ c ∈ Nat.toDigits 10 n, c.isDigit = true :=
    fun c hc => Nat.isDigit_of_mem_toDigits (by decide) (by decide) hc
  have hall : Decimal.isDigits (Nat.toDigits 10 n) = true := by
    simpa [Decimal.isDigits, Nat.toDigits_ne_nil] using hdigits
  unfold unsigned?
  rw [Nat.toString_eq_ofList_toDigits, String.toList_ofList]
  split
  · rename_i rest hplus
    exact absurd (hdigits '+' (by rw [hplus]; exact List.mem_cons_self)) (by decide)
  · simp [hall, Decimal.natOfDigits_toDigits, h]

def Mode.name : Mode → String
  | .query => "query"
  | .scan => "scan"
  | .batch => "batch"

theorem Mode.ofName?_name (mode : Mode) : ofName? mode.name = some mode := by
  cases mode <;> decide

namespace Arguments

/-- The numbers that are given are words of 64 bits. -/
structure Fits (a : Arguments) : Prop where
  rows : ∀ n, a.rows = some n → n < 2 ^ (64 : Nat)
  limit : ∀ n, a.limit = some n → n < 2 ^ (64 : Nat)

variable {a b : Arguments} {key : Key} {value : String} {words : List String}

/-! ## Numbers that are read -/

theorem lt_of_unsigned? {text : String} {n : Nat} (h : Integer.unsigned? 64 text = some n) :
    n < 2 ^ (64 : Nat) := by
  simp only [Integer.unsigned?, Option.ite_none_right_eq_some, Bool.and_eq_true, decide_eq_true_eq,
    Option.some.injEq] at h
  exact h.2 ▸ h.1.2

theorem eq_of_once {α : Type} {given value filled : Option α} (h : once given value = some filled) :
    filled = value := by
  rw [once.eq_def] at h
  split at h
  · exact (Option.some.inj h).symm
  · cases h

theorem fits_set (h : a.set key value = some b) (ha : a.Fits) : b.Fits := by
  cases key with
  | rows =>
    obtain ⟨rows, hrows, rfl⟩ := Option.map_eq_some_iff.1 h
    exact ⟨fun n hn => lt_of_unsigned? ((eq_of_once hrows).symm.trans hn), ha.limit⟩
  | limit =>
    obtain ⟨limit, hlimit, rfl⟩ := Option.map_eq_some_iff.1 h
    exact ⟨ha.rows, fun n hn => lt_of_unsigned? ((eq_of_once hlimit).symm.trans hn)⟩
  | _ =>
    obtain ⟨other, -, rfl⟩ := Option.map_eq_some_iff.1 h
    exact ⟨ha.rows, ha.limit⟩

theorem fits_parseFrom (h : parseFrom a words = .ok b) (ha : a.Fits) : b.Fits := by
  fun_induction parseFrom a words with
  | case1 => exact Except.ok.inj h ▸ ha
  | case2 => exact Except.ok.inj h ▸ ha
  | case5 _ _ _ _ _ _ _ _ hset ih => exact ih h (fits_set hset ha)
  | case9 _ _ _ _ _ _ _ _ _ hset ih => exact ih h (fits_set hset ha)
  | _ => cases h

/-- **The numbers of a command line** are words of 64 bits. -/
theorem fits_of_parse (h : parse words = .ok a) : a.Fits :=
  fits_parseFrom h ⟨(fun _ hn => nomatch hn), (fun _ hn => nomatch hn)⟩

theorem Fits.rowCount_lt (h : a.Fits) : a.rowCount < 2 ^ (64 : Nat) := by
  rw [rowCount]
  cases hrows : a.rows with
  | none => decide
  | some n => exact h.rows n hrows

/-! ## A command line for some arguments -/

def Key.name : Key → String
  | .conf => "conf"
  | .rows => "rows"
  | .mode => "mode"
  | .limit => "limit"
  | .position => "position"
  | .hashKey => "hash-key"

/-- An option with its value. -/
def option (key : Key) (value : String) : String := "--" ++ key.name ++ "=" ++ value

/-- A command line that gives some arguments. -/
def spelled (a : Arguments) : List String :=
  [(a.conf.map (option .conf)).toList,
    (a.rows.map fun n => option .rows (toString n)).toList,
    (a.mode.map fun mode => option .mode mode.name).toList,
    (a.limit.map fun n => option .limit (toString n)).toList,
    (a.position.map (option .position)).toList,
    (a.hashKey.map (option .hashKey)).toList].flatten

theorem Key.ofName?_name (key : Key) : ofName? key.name = some key := by
  cases key <;> decide

theorem toList_option (key : Key) (value : String) :
    (option key value).toList = '-' :: '-' :: (key.name.toList ++ '=' :: value.toList) := by
  simp only [option, String.toList_append, List.append_assoc]
  rfl

theorem word_option (key : Key) (value : String) : word (option key value) = .valued key value := by
  have hall : key.name.toList.all (· ≠ '=') = true := by
    cases key <;> decide +kernel
  have hname := List.all_eq_true.1 hall
  have htake : (key.name.toList ++ '=' :: value.toList).takeWhile (· ≠ '=') = key.name.toList := by
    rw [List.takeWhile_append_of_pos hname, List.takeWhile_cons_of_neg (by decide), List.append_nil]
  have hdrop : (key.name.toList ++ '=' :: value.toList).dropWhile (· ≠ '=') =
      '=' :: value.toList := by
    rw [List.dropWhile_append_of_pos hname, List.dropWhile_cons_of_neg (by decide)]
  rw [word, toList_option]
  simp only [longWord, htake, hdrop, String.ofList_toList, Key.ofName?_name]

theorem parseFrom_option {rest : List String} (h : a.set key value = some b) :
    parseFrom a (option key value :: rest) = parseFrom b rest := by
  have hne : option key value ≠ "--" := by
    intro heq
    have hlength := congrArg (·.toList.length) heq
    simp [toList_option] at hlength
  rw [parseFrom, if_neg hne, word_option]
  simp only [h]

theorem parseFrom_given {α : Type} (text : α → String) (given : Option α) {rest : List String}
    (hnone : given = none → a = b) (hsome : ∀ x, given = some x → a.set key (text x) = some b) :
    parseFrom a ((given.map fun x => option key (text x)).toList ++ rest) = parseFrom b rest := by
  cases hcase : given with
  | none => rw [hnone hcase]; rfl
  | some x => exact parseFrom_option (hsome x hcase)

/-- **All arguments whose numbers are words of 64 bits** can be given on a command line. -/
theorem parse_spelled (h : a.Fits) : parse a.spelled = .ok a := by
  obtain ⟨conf, rows, mode, limit, position, hashKey⟩ := a
  simp only [parse, spelled, List.flatten_cons, List.flatten_nil]
  calc parseFrom empty _
    _ = parseFrom ⟨conf, none, none, none, none, none⟩ _ :=
      parseFrom_given id conf (by rintro rfl; rfl) (by rintro path rfl; rfl)
    _ = parseFrom ⟨conf, rows, none, none, none, none⟩ _ :=
      parseFrom_given toString rows (by rintro rfl; rfl) (by
        rintro n rfl
        rw [set, Integer.unsigned?_toString (h.rows n rfl)]
        rfl)
    _ = parseFrom ⟨conf, rows, mode, none, none, none⟩ _ :=
      parseFrom_given Mode.name mode (by rintro rfl; rfl) (by
        rintro mode rfl
        rw [set, Mode.ofName?_name]
        rfl)
    _ = parseFrom ⟨conf, rows, mode, limit, none, none⟩ _ :=
      parseFrom_given toString limit (by rintro rfl; rfl) (by
        rintro n rfl
        rw [set, Integer.unsigned?_toString (h.limit n rfl)]
        rfl)
    _ = parseFrom ⟨conf, rows, mode, limit, position, none⟩ _ :=
      parseFrom_given id position (by rintro rfl; rfl) (by rintro token rfl; rfl)
    _ = parseFrom ⟨conf, rows, mode, limit, position, hashKey⟩ [] :=
      parseFrom_given id hashKey (by rintro rfl; rfl) (by rintro hash rfl; rfl)
    _ = .ok ⟨conf, rows, mode, limit, position, hashKey⟩ := rfl

end Arguments

end CursorPaging
