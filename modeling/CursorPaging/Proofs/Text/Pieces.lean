import Mathlib.Tactic.SplitIfs
import CursorPaging.Text.Pieces

/-!
# Cutting joined pieces apart

* **`pieces_intercalate`**: pieces in which a mark does not occur come back from their text joined
  at that mark;
* **`pieces_eq_iff`**: the pieces of a text are the only such pieces that it is joined of;
* `offsetAfter`, `take_intercalate`, `exists_piece`: joined text that is cut off is cut within one
  piece.
-/

namespace CursorPaging

variable {mark : Char}

theorem pieces_of_notMem : ∀ {text : List Char}, mark ∉ text → pieces mark text = [text]
  | [], _ => rfl
  | c :: rest, h => by
    rw [List.mem_cons, not_or] at h
    rw [pieces, if_neg (Ne.symm h.1), pieces_of_notMem h.2]

theorem pieces_append : ∀ {piece : List Char}, mark ∉ piece → ∀ rest : List Char,
    pieces mark (piece ++ mark :: rest) = piece :: pieces mark rest
  | [], _, rest => if_pos rfl
  | c :: piece, h, rest => by
    rw [List.mem_cons, not_or] at h
    rw [List.cons_append, pieces, if_neg (Ne.symm h.1), pieces_append h.2]

theorem pieces_ne_nil : ∀ text : List Char, pieces mark text ≠ []
  | [] => List.cons_ne_nil _ _
  | c :: rest => by
    rw [pieces]
    split
    · exact List.cons_ne_nil _ _
    · split <;> exact List.cons_ne_nil _ _

/-- **Joined pieces come apart again.** -/
theorem pieces_intercalate : ∀ {parts : List (List Char)}, parts ≠ [] →
    (∀ part ∈ parts, mark ∉ part) → pieces mark (List.intercalate [mark] parts) = parts
  | [part], _, h => by
    rw [List.intercalate_singleton]
    exact pieces_of_notMem (h part List.mem_cons_self)
  | part :: next :: rest, _, h => by
    rw [List.intercalate_cons_cons, List.append_assoc, List.singleton_append,
      pieces_append (h part List.mem_cons_self),
      pieces_intercalate (List.cons_ne_nil _ _) fun p hp => h p (List.mem_cons_of_mem _ hp)]

theorem intercalate_cons_cons_cons (c : Char) (piece : List Char) (more : List (List Char)) :
    List.intercalate [mark] ((c :: piece) :: more) =
      c :: List.intercalate [mark] (piece :: more) := by
  cases more with
  | nil => rw [List.intercalate_singleton, List.intercalate_singleton]
  | cons next more => rw [List.intercalate_cons_cons, List.intercalate_cons_cons]; rfl

theorem intercalate_pieces : ∀ text : List Char, List.intercalate [mark] (pieces mark text) = text
  | [] => List.intercalate_singleton
  | c :: rest => by
    have ih := intercalate_pieces rest
    have hne : pieces mark rest ≠ [] := pieces_ne_nil rest
    obtain ⟨piece, more, hpieces⟩ := List.exists_cons_of_ne_nil hne
    rw [hpieces] at ih
    rw [pieces, hpieces]
    split_ifs with hmark
    · rw [List.intercalate_cons_cons, ih, hmark]
      rfl
    · exact (intercalate_cons_cons_cons c piece more).trans (congrArg (c :: ·) ih)

theorem notMem_of_mem_pieces : ∀ {text part : List Char}, part ∈ pieces mark text → mark ∉ part
  | [], part, h => by
    rw [List.mem_singleton.1 h]
    exact List.not_mem_nil
  | c :: rest, part, h => by
    have hne : pieces mark rest ≠ [] := pieces_ne_nil rest
    obtain ⟨piece, more, hpieces⟩ := List.exists_cons_of_ne_nil hne
    have ih : ∀ p ∈ piece :: more, mark ∉ p := fun p hp => notMem_of_mem_pieces (hpieces ▸ hp)
    rw [pieces, hpieces] at h
    split_ifs at h with hmark
    · rcases List.mem_cons.1 h with rfl | h
      · exact List.not_mem_nil
      · exact ih part h
    · rcases List.mem_cons.1 h with rfl | h
      · exact List.not_mem_cons_of_ne_of_not_mem (Ne.symm hmark) (ih piece List.mem_cons_self)
      · exact ih part (List.mem_cons_of_mem _ h)

/-- **The pieces of a text** are the parts without the mark that it is joined of. -/
theorem pieces_eq_iff {text : List Char} {parts : List (List Char)} : pieces mark text = parts ↔
    parts ≠ [] ∧ (∀ part ∈ parts, mark ∉ part) ∧ text = List.intercalate [mark] parts := by
  constructor
  · rintro rfl
    exact ⟨pieces_ne_nil text, fun part => notMem_of_mem_pieces, (intercalate_pieces text).symm⟩
  · rintro ⟨hne, hmark, rfl⟩
    exact pieces_intercalate hne hmark

/-! ## Cut pieces -/

/-- Where the piece after some pieces starts in their joined text. -/
def offsetAfter : List (List Char) → Nat
  | [] => 0
  | piece :: before => piece.length + 1 + offsetAfter before

theorem intercalate_cons (text : List Char) {rest : List (List Char)} (h : rest ≠ []) :
    List.intercalate [mark] (text :: rest) = text ++ mark :: List.intercalate [mark] rest := by
  obtain ⟨next, more, rfl⟩ := List.exists_cons_of_ne_nil h
  rw [List.intercalate_cons_cons, List.append_assoc, List.singleton_append]

theorem mem_intercalate {c : Char} : ∀ {texts : List (List Char)},
    c ∈ List.intercalate [mark] texts → c = mark ∨ ∃ text ∈ texts, c ∈ text
  | [], h => absurd h List.not_mem_nil
  | [text], h => by
    rw [List.intercalate_singleton] at h
    exact .inr ⟨text, List.mem_cons_self, h⟩
  | text :: next :: rest, h => by
    rw [intercalate_cons text (List.cons_ne_nil _ _), List.mem_append, List.mem_cons] at h
    rcases h with htext | hmark | hrest
    · exact .inr ⟨text, List.mem_cons_self, htext⟩
    · exact .inl hmark
    · exact (mem_intercalate hrest).imp_right fun ⟨part, hpart, hc⟩ =>
        ⟨part, List.mem_cons_of_mem _ hpart, hc⟩

theorem take_intercalate {text : List Char} {after : List (List Char)} {n : Nat}
    (hn : n ≤ text.length) : ∀ {before : List (List Char)},
      (List.intercalate [mark] (before ++ text :: after)).take (offsetAfter before + n) =
        List.intercalate [mark] (before ++ [text.take n])
  | [] => by
    have hoffset : offsetAfter [] + n = n := Nat.zero_add n
    rw [hoffset, List.nil_append, List.nil_append, List.intercalate_singleton]
    cases after with
    | nil => rw [List.intercalate_singleton]
    | cons next rest =>
      rw [intercalate_cons text (List.cons_ne_nil _ _), List.take_append_of_le_length hn]
  | piece :: before => by
    have hne (last : List Char) (more : List (List Char)) : before ++ last :: more ≠ [] :=
      List.append_ne_nil_of_right_ne_nil _ (List.cons_ne_nil _ _)
    have hoffset : offsetAfter (piece :: before) + n =
        piece.length + (offsetAfter before + n + 1) := by
      rw [offsetAfter]
      omega
    rw [List.cons_append, List.cons_append, intercalate_cons piece (hne _ _),
      intercalate_cons piece (hne _ _), hoffset, List.take_length_add_append, List.take_succ_cons,
      take_intercalate hn]

theorem exists_piece : ∀ {texts : List (List Char)}, texts ≠ [] → ∀ {n : Nat},
    n ≤ (List.intercalate [mark] texts).length → ∃ before text after m,
      texts = before ++ text :: after ∧ m ≤ text.length ∧ n = offsetAfter before + m
  | [text], _, n, hn => by
    rw [List.intercalate_singleton] at hn
    exact ⟨[], text, [], n, rfl, hn, (Nat.zero_add n).symm⟩
  | text :: next :: rest, _, n, hn => by
    by_cases hfirst : n ≤ text.length
    · exact ⟨[], text, next :: rest, n, rfl, hfirst, (Nat.zero_add n).symm⟩
    · have hlater : n - (text.length + 1) ≤ (List.intercalate [mark] (next :: rest)).length := by
        rw [List.intercalate_cons_cons, List.length_append, List.length_append] at hn
        simp only [List.length_singleton] at hn
        omega
      obtain ⟨before, piece, after, m, hsplit, hm, hoffset⟩ :=
        exists_piece (List.cons_ne_nil _ _) hlater
      refine ⟨text :: before, piece, after, m, by rw [hsplit]; rfl, hm, ?_⟩
      rw [offsetAfter]
      omega

end CursorPaging
