import Lox.Proofs.Token.Lexemes
import Lox.Text.Lines

/-!
Where the tokens of a text stand. The place of a token tells how many line feeds come before it and how far into its
line it starts, so on that line of the text, cut at its line feeds, the token is to be found in that column.
-/
namespace Lox

namespace Text

variable {char : Char} {piece rest : List Char}

theorem feedsFrom_of_ne (other : char ≠ '\n') : feedsFrom piece (char :: rest) = feedsFrom (char :: piece) rest := by
  rw [feedsFrom]
  exact other

/-- A text has one line more than line feeds. -/
theorem length_feedsFrom (piece text : List Char) : (feedsFrom piece text).length = text.count '\n' + 1 := by
  induction text generalizing piece with
  | nil => rfl
  | cons char rest ih =>
    by_cases feed : char = '\n'
    · subst feed
      rw [feedsFrom, List.length_cons, ih, List.count_cons_self]
    · rw [feedsFrom_of_ne feed, ih, List.count_cons_of_ne feed]

/-- The first line reaches to the first line feed. -/
theorem getElem?_feedsFrom_zero (piece text : List Char) :
    (feedsFrom piece text)[0]? = some (String.ofList (piece.reverse ++ text.takeWhile (· != '\n'))) := by
  induction text generalizing piece with
  | nil => simp [feedsFrom]
  | cons char rest ih =>
    by_cases feed : char = '\n'
    · subst feed
      simp [feedsFrom]
    · rw [feedsFrom_of_ne feed, ih, List.takeWhile_cons_of_pos (by simpa using feed), List.reverse_cons,
        List.append_assoc, List.singleton_append]

/-- The line on which a text goes on after a part of it: what that line has already, which is as long as the column
says, and what comes up to the next line feed. -/
theorem getElem?_feedsFrom (piece before rest : List Char) (line : Int) :
    ∃ start : List Char, start.length = ((⟨line, piece.length⟩ : Position).after before).col ∧
      (feedsFrom piece (before ++ rest))[before.count '\n']? =
        some (String.ofList (start ++ rest.takeWhile (· != '\n'))) := by
  induction before generalizing piece line with
  | nil => exact ⟨piece.reverse, List.length_reverse, getElem?_feedsFrom_zero piece rest⟩
  | cons char before ih =>
    have step (position : Position) : position.after (char :: before) = (position.advance char).after before := rfl
    by_cases feed : char = '\n'
    · subst feed
      obtain ⟨start, column, found⟩ := ih [] (line + 1)
      refine ⟨start, ?_, ?_⟩
      · rw [column, step]
        rfl
      · rw [List.cons_append, feedsFrom, List.count_cons_self, List.getElem?_cons_succ]
        exact found
    · obtain ⟨start, column, found⟩ := ih (char :: piece) line
      refine ⟨start, ?_, ?_⟩
      · rw [column, step, Position.advance, if_neg feed]
        rfl
      · rw [List.cons_append, feedsFrom_of_ne feed, List.count_cons_of_ne feed]
        exact found

end Text

/-- The part of a token on the line on which it starts. Only strings reach further. -/
def Token.firstLine (token : Token) : List Char := token.lexeme.toList.takeWhile (· != '\n')

/-- A token stands on a line, in the column that its place says; all of it does, unless the line ends before. -/
structure Token.StandsOn (token : Token) (line start rest : List Char) : Prop where
  line : line = start ++ token.firstLine ++ rest
  column : start.length = token.col
  visible : token.firstLine ≠ []
  whole : rest ≠ [] → token.firstLine = token.lexeme.toList

namespace Scan

variable {text : List Char} {line : Int} {token : Token}

/-- All that reports on a text can point at: its tokens with the end mark, and its faulty stretches. -/
def found (scan : Scan) : List Token := scan.all ++ scan.faults.map Located.token

theorem split_of_mem_locate {position place : Position} {list : List Piece} {piece : Piece}
    (member : (place, piece) ∈ locate position list) :
    ∃ before after, list = before ++ piece :: after ∧ place = position.after (before.flatMap Piece.text) := by
  induction list generalizing position with
  | nil => cases member
  | cons head rest ih =>
    rcases List.mem_cons.mp member with same | later
    · cases same
      exact ⟨[], rest, rfl, rfl⟩
    · obtain ⟨before, after, rfl, rfl⟩ := ih later
      refine ⟨head :: before, after, rfl, ?_⟩
      rw [List.flatMap_cons, Position.after_append]

/-- Every piece of a text is where its place says. -/
theorem split_of_mem_pieces {start place : Position} {piece : Piece} (member : (place, piece) ∈ locate start (pieces text)) :
    ∃ before after, text = before ++ piece.text ++ after ∧ place = start.after before := by
  obtain ⟨before, after, split, rfl⟩ := split_of_mem_locate member
  refine ⟨before.flatMap Piece.text, after.flatMap Piece.text, ?_, rfl⟩
  rw [← flatMap_text_pieces text, split, List.flatMap_append, List.flatMap_cons, List.append_assoc]

/-- Only gaps start with a line feed. -/
theorem gap_of_feed {place start : Position} {piece : Piece} (member : (place, piece) ∈ locate start (pieces text))
    (feed : piece.text.head? = some '\n') : piece.role = .gap := by
  obtain ⟨first, rest, extent, classified, spelled⟩ := classify_of_mem_pieces (mem_of_mem_locate member)
  rw [spelled, List.head?_cons, Option.some.injEq] at feed
  subst feed
  exact (congrArg Prod.fst classified).symm

/-- What is found in a text, other than its end, is a piece of it. -/
theorem piece_of_mem_found (member : token ∈ (ofText text line).found) (visible : token.lexeme ≠ "") :
    ∃ role, role ≠ .gap ∧ (token.position, ⟨token.lexeme.toList, role⟩) ∈ locate ⟨line, 0⟩ (pieces text) := by
  simp only [found, all, List.mem_append, List.mem_singleton, List.mem_map] at member
  obtain (isToken | rfl) | ⟨fault, isFault, rfl⟩ := member
  · obtain ⟨⟨place, spelling, role⟩, placed, same⟩ := List.mem_filterMap.mp isToken
    cases role with
    | token kind literal =>
      cases same
      exact ⟨.token kind literal, by simp, by simpa using placed⟩
    | fault cause => cases same
    | gap => cases same
  · exact absurd rfl visible
  · obtain ⟨⟨place, spelling, role⟩, placed, same⟩ := List.mem_filterMap.mp isFault
    cases role with
    | token kind literal => cases same
    | fault cause =>
      cases same
      exact ⟨.fault cause, by simp, by simpa using placed⟩
    | gap => cases same

/-- What is found in a text is where its place says. -/
theorem split_of_mem_found (member : token ∈ (ofText text line).found) (visible : token.lexeme ≠ "") :
    ∃ before after, text = before ++ token.lexeme.toList ++ after ∧ token.position = Position.after ⟨line, 0⟩ before := by
  obtain ⟨role, _, placed⟩ := piece_of_mem_found member visible
  exact split_of_mem_pieces placed

/-- What is found in a text starts with a part of its first line. -/
theorem firstLine_ne_nil (member : token ∈ (ofText text line).found) (visible : token.lexeme ≠ "") :
    token.firstLine ≠ [] := by
  obtain ⟨role, solid, placed⟩ := piece_of_mem_found member visible
  unfold Token.firstLine
  cases spelled : token.lexeme.toList with
  | nil => exact absurd (String.toList_eq_nil_iff.mp spelled) visible
  | cons first rest =>
    have other : first ≠ '\n' := by
      rintro rfl
      rw [spelled] at placed
      exact solid (gap_of_feed placed rfl)
    rw [List.takeWhile_cons_of_pos (by simpa using other)]
    exact List.cons_ne_nil _ _

/-- What is found in a text stands on the line of the text that its place says. -/
theorem standsOn_of_mem_found (member : token ∈ (ofText text line).found) (visible : token.lexeme ≠ "") :
    ∃ (row : Nat) (shown start rest : List Char), token.line = line + row ∧
      (Text.feedsFrom [] text)[row]? = some (String.ofList shown) ∧ token.StandsOn shown start rest := by
  have seen := firstLine_ne_nil member visible
  obtain ⟨before, after, rfl, place⟩ := split_of_mem_found member visible
  obtain ⟨start, column, quoted⟩ := Text.getElem?_feedsFrom [] before (token.lexeme.toList ++ after) line
  have row : token.line = line + before.count '\n' := by
    rw [Token.line, place, Position.line_after]
  have column' : start.length = token.col := by
    rw [column, Token.col, place]
    rfl
  rw [← List.append_assoc, List.takeWhile_append] at quoted
  -- The line goes on after the token, unless the token goes on after the line.
  split at quoted
  · rename_i whole
    have all : token.firstLine = token.lexeme.toList :=
      (List.takeWhile_prefix _).eq_of_length whole
    refine ⟨_, _, start, after.takeWhile (· != '\n'), row, quoted, ?_, column', seen, fun _ => all⟩
    rw [all, List.append_assoc]
  · refine ⟨_, _, start, [], row, quoted, ?_, column', seen, fun more => absurd rfl more⟩
    rw [List.append_nil]
    rfl

end Scan

/-- One place is further on than the other: on a line below, or to the right on the same line. -/
def Position.Before (position other : Position) : Prop :=
  position.line < other.line ∨ position.line = other.line ∧ position.col < other.col

theorem Position.before_after (position : Position) {text : List Char} (some_ : text ≠ []) :
    position.Before (position.after text) := by
  have step (position : Position) (char : Char) : position.Before (position.advance char) := by
    unfold advance Before
    split
    · exact .inl (Int.lt_succ _)
    · exact .inr ⟨rfl, Nat.lt_succ_self _⟩
  induction text generalizing position with
  | nil => exact absurd rfl some_
  | cons char rest ih =>
    have first := step position char
    change position.Before ((position.advance char).after rest)
    cases rest with
    | nil => exact first
    | cons next rest =>
      have further := ih (position.advance char) (List.cons_ne_nil _ _)
      unfold Before at first further ⊢
      omega

namespace Scan

/-- The pieces of a text follow each other. -/
theorem pairwise_locate (position : Position) {list : List Piece} (visible : ∀ piece ∈ list, piece.text ≠ []) :
    (locate position list).Pairwise fun entry later => entry.1.Before later.1 := by
  induction list generalizing position with
  | nil => exact List.Pairwise.nil
  | cons head rest ih =>
    obtain ⟨first, others⟩ := List.forall_mem_cons.mp visible
    refine List.pairwise_cons.mpr ⟨fun (place, piece) member => ?_, ih _ others⟩
    obtain ⟨before, after, _, rfl⟩ := split_of_mem_locate member
    rw [← Position.after_append]
    exact position.before_after (by simp [first])

theorem position_of_token? {entry : Position × Piece} {token : Token} (found : token? entry = some token) :
    token.position = entry.1 := by
  obtain ⟨place, spelling, role⟩ := entry
  cases role <;> cases found
  rfl

/-- No two tokens of a text are the same, since each one stands in a place of its own. -/
theorem nodup_tokens (text : List Char) (line : Int) : (ofText text line).tokens.Nodup := by
  have visible : ∀ piece ∈ pieces text, piece.text ≠ [] := by
    intro piece member
    obtain ⟨first, rest, extent, _, spelled⟩ := classify_of_mem_pieces member
    simp [spelled]
  refine List.Pairwise.filterMap token? ?_ (pairwise_locate ⟨line, 0⟩ visible)
  rintro entry later before token found _ found' rfl
  rw [← position_of_token? found, ← position_of_token? found'] at before
  simp [Position.Before] at before

end Scan

end Lox
