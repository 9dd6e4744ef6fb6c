import Lox.Proofs.Token.Lines
import Lox.Report

/-!
What reports quote. The sources keep the lines of the current file, numbered from one; a token that stands on the line
that is quoted is marked there, with a row of carets below it.
-/
namespace Lox

namespace Report

namespace Sources

variable {sources : Sources} {path : String} {lines : List String}

/-- No file before the last one has the path. So it is that of the current file, once it is registered. -/
def Newest (sources : Sources) (path : String) : Prop := path ∉ sources.names.dropLast

theorem Newest.set (newest : sources.Newest path) (lines : List String) :
    Newest (Table.set sources path lines) path := by
  unfold Newest
  rw [Table.names_set]
  split
  · exact newest
  · rename_i absent
    rwa [List.dropLast_concat]

theorem Newest.current? (newest : sources.Newest path) (kept : sources.get? path = some lines) :
    sources.current? = some (path, lines) := by
  obtain ⟨entries⟩ := sources
  rcases List.eq_nil_or_concat entries with rfl | ⟨before, ⟨key, last⟩, rfl⟩
  · cases kept
  · have absent : path ∉ before.map Prod.fst := by simpa [Newest, Table.names] using newest
    have unknown : before.lookup path = none := by
      rw [List.lookup_eq_none_iff]
      intro entry member
      rw [bne_iff_ne]
      rintro rfl
      exact absent (List.mem_map_of_mem member)
    rw [Table.get?, List.concat_eq_append, List.lookup_append, unknown, Option.none_or, List.lookup_cons] at kept
    split at kept
    · rename_i same
      rw [Sources.current?, List.concat_eq_append, List.getLast?_concat, eq_of_beq same, Option.some.inj kept]
    · cases kept

theorem get?_add (kept : sources.get? path = some lines) (text : String) :
    (sources.add path text).get? path = some (lines ++ Text.splitAtFeeds text) := by
  rw [add, Table.get?_set_self, kept, Option.getD_some]

/-- The lines of the current file are numbered from one. -/
theorem Newest.quote (newest : sources.Newest path) (kept : sources.get? path = some lines) (index : Nat) :
    sources.quote (some (index + 1 : Nat)) = (some path, lines[index]?) := by
  have positive : (0 : Int) < (index + 1 : Nat) := by omega
  have number : (index + 1 : Nat) - 1 = index := Nat.add_sub_cancel ..
  simp only [Sources.quote, newest.current? kept, Option.bind_some, lineOf?, positive, if_true, Int.toNat_natCast, number]

end Sources

/-- A row of carets: one under the start, and signs up to the end. -/
def carets (width : Nat) : List Char := '^' :: List.replicate (width - 1) '~'

theorem length_carets {width : Nat} (positive : 0 < width) : (carets width).length = width := by
  simp only [carets, List.length_cons, List.length_replicate]
  omega

variable {token : Token} {line : String} {start rest : List Char}

/-- What a token covers of the line on which it stands. -/
theorem extent_of_standsOn (stands : token.StandsOn line.toList start rest) :
    extent line.toList token = (token.col, token.col + token.firstLine.length) := by
  have length : line.toList.length = token.col + token.firstLine.length + rest.length := by
    rw [stands.line, List.length_append, List.length_append, stands.column]
  have shorter : token.firstLine.length ≤ token.lexeme.length := by
    rw [← String.length_toList]
    exact (List.takeWhile_prefix _).length_le
  have visible : 0 < token.firstLine.length := List.length_pos_iff.mpr stands.visible
  have whole : 0 < rest.length → token.firstLine.length = token.lexeme.length := by
    intro more
    rw [stands.whole (List.length_pos_iff.mp more), String.length_toList]
  simp only [extent, length, Prod.mk.injEq]
  omega

/-- A token that stands on a line is marked there, and the carets below it start in its column and are as long. -/
theorem diagnose_of_standsOn (severity : Severity) (stands : token.StandsOn line.toList start rest) :
    diagnose severity line token =
      [.plain ("  " ++ String.ofList start), .coloured severity.colour (String.ofList token.firstLine),
        .plain (String.ofList rest ++ "\n" ++ "  " ++ String.ofList (List.replicate token.col ' ')),
        .coloured severity.colour (String.ofList (carets token.firstLine.length))] := by
  have before : line.toList.take token.col = start := by
    rw [stands.line, ← stands.column, List.append_assoc, List.take_left]
  have upto : line.toList.take (token.col + token.firstLine.length) = start ++ token.firstLine := by
    rw [stands.line, ← stands.column, ← List.length_append, List.take_left]
  have after : line.toList.drop (token.col + token.firstLine.length) = rest := by
    rw [stands.line, ← stands.column, ← List.length_append, List.drop_left]
  have covered : (start ++ token.firstLine).drop token.col = token.firstLine := by
    rw [← stands.column, List.drop_left]
  simp only [diagnose, extent_of_standsOn stands, before, upto, after, covered, Nat.add_sub_cancel_left, carets]

end Report

end Lox
