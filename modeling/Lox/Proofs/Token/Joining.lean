import Lox.Token.Scan
import Mathlib.Tactic.Common

/-!
Scanning two texts with a line feed between them. If the first one leaves no string open, the line feed ends whatever
the text before it ends with, so that each text has the pieces that it has alone; and the second one starts
at the beginning of a line.
-/
namespace Lox.Scan

section Extents

variable (rest more : List Char)

theorem takeWhile_joined {test : Char → Bool} (stops : test '\n' = false) :
    (rest ++ '\n' :: more).takeWhile test = rest.takeWhile test := by
  rw [List.takeWhile_append]
  split
  · rename_i whole
    rw [List.takeWhile_cons_of_neg (by simp [stops]), List.append_nil]
    exact ((List.takeWhile_prefix test).eq_of_length whole).symm
  · rfl

theorem length_takeWhile_le (test : Char → Bool) :
    (rest.takeWhile test).length ≤ rest.length :=
  (List.takeWhile_prefix test).length_le

theorem head?_joined {sign : Char} (other : sign ≠ '\n') :
    (rest ++ '\n' :: more).head? = some sign ↔ rest.head? = some sign := by
  cases rest with
  | nil => simp [other.symm]
  | cons => simp

/-- A string that is closed is closed by the same quote whatever follows. -/
theorem stringRole_joined (closed : (stringRole rest).1 ≠ .fault .unterminatedString) :
    (stringRole rest).2 ≤ rest.length ∧ stringRole (rest ++ '\n' :: more) = stringRole rest := by
  unfold stringRole at closed ⊢
  dsimp only at closed ⊢
  split at closed
  · rename_i shorter
    have same : (rest ++ '\n' :: more).takeWhile (· != '"') = rest.takeWhile (· != '"') := by
      rw [List.takeWhile_append, if_neg (Nat.ne_of_lt shorter)]
    rw [same, if_pos shorter, if_pos (by rw [List.length_append]; omega)]
    exact ⟨shorter, rfl⟩
  · exact absurd rfl closed

theorem numberExtent_joined :
    numberExtent rest ≤ rest.length ∧ numberExtent (rest ++ '\n' :: more) = numberExtent rest := by
  have stops : Number.isDigit '\n' = false := by decide
  have whole := length_takeWhile_le rest Number.isDigit
  have left := List.length_drop (i := (rest.takeWhile Number.isDigit).length) (l := rest)
  unfold numberExtent
  dsimp only
  rw [takeWhile_joined rest more stops, List.drop_append_of_le_length whole]
  generalize rest.drop (rest.takeWhile Number.isDigit).length = tail at left ⊢
  cases tail with
  | nil => exact ⟨whole, rfl⟩
  | cons point places =>
    rw [List.length_cons] at left
    by_cases same : point = '.'
    · subst same
      have fraction := length_takeWhile_le places Number.isDigit
      simp only [List.cons_append, takeWhile_joined _ _ stops, and_true]
      split
      · exact whole
      · omega
    · simp only [List.cons_append]
      split
      · rename_i shape
        cases shape
        exact absurd rfl same
      · refine ⟨whole, ?_⟩
        split
        · rename_i shape
          cases shape
          exact absurd rfl same
        · rfl

end Extents

/-- A piece is classified as it is without the text after the line feed, unless it is a string that is left
open. -/
theorem classify_joined (first : Char) (rest more : List Char)
    (closed : (classify first rest).1 ≠ .fault .unterminatedString) :
    (classify first rest).2 ≤ rest.length ∧ classify first (rest ++ '\n' :: more) = classify first rest := by
  have equalNotFeed : '=' ≠ '\n' := by decide
  have slashNotFeed : '/' ≠ '\n' := by decide
  cases single : single? first with
  | some kind => simp [classify, single]
  | none =>
  cases double : double? first with
  | some kinds =>
    obtain ⟨plain, withEqual⟩ := kinds
    simp only [classify, single, double, head?_joined rest more equalNotFeed, and_true]
    split
    · rename_i equal
      exact List.length_pos_iff.mpr fun empty => by simp [empty] at equal
    · exact Nat.zero_le _
  | none =>
  simp only [classify, single, double] at closed ⊢
  split
  · simp only [head?_joined rest more slashNotFeed]
    split
    · rw [takeWhile_joined rest more (by decide)]
      exact ⟨length_takeWhile_le rest _, rfl⟩
    · exact ⟨Nat.zero_le _, rfl⟩
  split
  · exact ⟨Nat.zero_le _, rfl⟩
  split
  · exact stringRole_joined rest more (by simp_all)
  split
  · obtain ⟨within, same⟩ := numberExtent_joined rest more
    exact ⟨within, by rw [same, List.take_append_of_le_length within]⟩
  split
  · rw [takeWhile_joined rest more (by decide)]
    exact ⟨length_takeWhile_le rest isWord, rfl⟩
  · exact ⟨Nat.zero_le _, rfl⟩

/-- The pieces of two texts with a line feed between them, which is a piece of its own. -/
theorem pieces_joined (first second : List Char)
    (closed : ∀ piece ∈ pieces first, piece.role ≠ .fault .unterminatedString) :
    pieces (first ++ '\n' :: second) = pieces first ++ ⟨['\n'], .gap⟩ :: pieces second := by
  fun_induction pieces first with
  | case1 =>
    have feed : classify '\n' second = (.gap, 0) := rfl
    rw [List.nil_append, pieces, feed]
    rfl
  | case2 char rest role extent classified ih =>
    have ends := closed _ List.mem_cons_self
    obtain ⟨within, same⟩ := classify_joined char rest second (by rw [classified]; exact ends)
    rw [classified] at within
    rw [List.cons_append, pieces, same, classified]
    dsimp only
    rw [List.take_append_of_le_length within, List.drop_append_of_le_length within,
      ih fun piece member => closed piece (List.mem_cons_of_mem _ member), List.cons_append]

theorem locate_append (position : Position) (first second : List Piece) :
    locate position (first ++ second) =
      locate position first ++ locate (position.after (first.flatMap Piece.text)) second := by
  induction first generalizing position with
  | nil => rfl
  | cons piece rest ih =>
    rw [List.cons_append, locate, locate, ih, List.flatMap_cons, Position.after_append, List.cons_append]

theorem mem_locate (position : Position) {list : List Piece} {piece : Piece} (member : piece ∈ list) :
    ∃ place, (place, piece) ∈ locate position list := by
  induction list generalizing position with
  | nil => cases member
  | cons head rest ih =>
    rcases List.mem_cons.mp member with rfl | later
    · exact ⟨position, List.mem_cons_self⟩
    · obtain ⟨place, found⟩ := ih (position.after head.text) later
      exact ⟨place, List.mem_cons_of_mem _ found⟩

/-- The text leaves no string open, whatever other faults it has. -/
def ClosesStrings (text : List Char) : Prop := ∀ piece ∈ pieces text, piece.role ≠ .fault .unterminatedString

/-- A string that is left open is among the faults. -/
theorem closesStrings_of_faults {text : List Char} {line : Int}
    (closed : ∀ fault ∈ (ofText text line).faults, fault.cause ≠ .unterminatedString) : ClosesStrings text := by
  rintro ⟨spelling, role⟩ member rfl
  obtain ⟨place, found⟩ := mem_locate ⟨line, 0⟩ member
  exact closed _ (List.mem_filterMap.mpr ⟨_, found, rfl⟩) rfl

/-- After a line feed the text goes on at the start of the line below. -/
theorem after_joined (first second : List Char) (line : Int) :
    Position.after ⟨line, 0⟩ (first ++ '\n' :: second) =
      Position.after ⟨(Position.after ⟨line, 0⟩ first).line + 1, 0⟩ second := by
  rw [List.append_cons, Position.after_append, Position.after_append]
  rfl

/-- The line feed is a gap of its own, and the pieces after it stand where they would from the line below. -/
theorem locate_joined {first : List Char} (closes : ClosesStrings first) (second : List Char) (line : Int) :
    locate ⟨line, 0⟩ (pieces (first ++ '\n' :: second)) = locate ⟨line, 0⟩ (pieces first) ++
      (Position.after ⟨line, 0⟩ first, ⟨['\n'], .gap⟩) ::
        locate ⟨(Position.after ⟨line, 0⟩ first).line + 1, 0⟩ (pieces second) := by
  have start : (Position.after ⟨line, 0⟩ first).after ['\n'] = ⟨(Position.after ⟨line, 0⟩ first).line + 1, 0⟩ := rfl
  rw [pieces_joined first second closes, locate_append, flatMap_text_pieces, locate, start]

/-- Two texts with a line feed between them have what is found in the first one and then what is found in the
second one, which starts on the line after the last one of the first. -/
theorem ofText_joined_of_closesStrings {first : List Char} (closes : ClosesStrings first) (second : List Char)
    (line : Int) :
    ofText (first ++ '\n' :: second) line =
      { tokens := (ofText first line).tokens ++
          (ofText second ((ofText first line).finish.line + 1)).tokens
        finish := (ofText second ((ofText first line).finish.line + 1)).finish
        faults := (ofText first line).faults ++ (ofText second ((ofText first line).finish.line + 1)).faults } := by
  simp only [ofText, locate_joined closes, after_joined, List.filterMap_append]
  rfl

/-- Without faults in the first text, the faults are those of the second one. -/
theorem ofText_joined {first : List Char} {line : Int} (clean : (ofText first line).faults = [])
    (second : List Char) :
    ofText (first ++ '\n' :: second) line =
      { tokens := (ofText first line).tokens ++
          (ofText second ((ofText first line).finish.line + 1)).tokens
        finish := (ofText second ((ofText first line).finish.line + 1)).finish
        faults := (ofText second ((ofText first line).finish.line + 1)).faults } := by
  have closed : ∀ fault ∈ (ofText first line).faults, fault.cause ≠ .unterminatedString := by simp [clean]
  have closes := closesStrings_of_faults closed
  rw [ofText_joined_of_closesStrings closes, clean, List.nil_append]

/-- Scanning goes line by line. Unless the first of two texts leaves a string open, the two with a line feed between
them have the tokens and faults of the first one, whatever those are, and after them all that the second one has where
it stands alone, from the line below the last one of the first. -/
theorem ofText_distributes {first : List Char} {line : Int}
    (closed : ∀ fault ∈ (ofText first line).faults, fault.cause.message ≠ "Unterminated string.")
    (second : List Char) :
    let whole := ofText (first ++ '\n' :: second) line
    let later := ofText second (line + first.count '\n' + 1)
    whole.all = (ofText first line).tokens ++ later.all ∧ whole.faults = (ofText first line).faults ++ later.faults := by
  have closes : ClosesStrings first := closesStrings_of_faults fun fault member left =>
    closed fault member (by rw [left]; rfl)
  have below : (ofText first line).finish.line = line + first.count '\n' := Position.line_after ⟨line, 0⟩ first
  rw [ofText_joined_of_closesStrings closes, below]
  exact ⟨List.append_assoc .., rfl⟩

/-- The first text has a faulty character, a string over two lines, a number with a point that is none of its digits,
and a comment at its end; the second one leaves a string open. -/
theorem ofText_distributes_of_faulty :
    let first := "@ \"a\nb\" 1. // x".toList
    let whole := ofText (first ++ '\n' :: "2 \"".toList) 7
    let later := ofText "2 \"".toList 9
    (∀ fault ∈ (ofText first 7).faults, fault.cause.message ≠ "Unterminated string.") ∧
      whole.all = (ofText first 7).tokens ++ later.all ∧ whole.faults = (ofText first 7).faults ++ later.faults := by
  have closed : ∀ fault ∈ (ofText "@ \"a\nb\" 1. // x".toList 7).faults,
      fault.cause.message ≠ "Unterminated string." := by
    decide +kernel
  exact ⟨closed, ofText_distributes closed "2 \"".toList⟩

end Lox.Scan
