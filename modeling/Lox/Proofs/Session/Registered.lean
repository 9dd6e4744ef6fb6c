import Lox.Proofs.Session.Diagnoses

/-!
Diagnoses of a registered file. Its lines are those that Unicode knows, but tokens are numbered by the line feeds before
them. So a diagnosis points at its token if the two ways to cut the text agree there, which they do as long as no other
line end stands before it: one is enough to have all later diagnoses quote another line.
-/
namespace Lox

open Report

namespace Text

/-- No character of the text ends a line. -/
def Unbroken (text : List Char) : Prop := ∀ char ∈ text, endsLine char = false

instance (text : List Char) : Decidable (Unbroken text) :=
  List.decidableBAll (fun char => endsLine char = false) text

/-- Up to the end of a row, only line feeds end lines, with a carriage return before them or not. -/
structure FeedsAlone (text : List Char) (row : Nat) : Prop where
  above : ∀ index < row, ∀ line, (feedsFrom [] text)[index]? = some line →
    ∃ body, Unbroken body ∧ (line.toList = body ∨ line.toList = body ++ ['\r'])
  row : ∀ line, (feedsFrom [] text)[row]? = some line → Unbroken line.toList

variable {text line body rest : List Char} {row : Nat}

theorem linesFrom_unbroken (unbroken : Unbroken body) (piece rest : List Char) :
    linesFrom piece (body ++ rest) = linesFrom (body.reverse ++ piece) rest := by
  induction body generalizing piece with
  | nil => rfl
  | cons char body ih =>
    have goesOn : endsLine char = false := unbroken char List.mem_cons_self
    have step : linesFrom piece (char :: (body ++ rest)) = linesFrom (char :: piece) (body ++ rest) := by
      rw [linesFrom, if_neg (by simp [goesOn])]
      rintro _ rfl
      cases goesOn
    have rest' : Unbroken body := fun other member => unbroken other (List.mem_cons_of_mem _ member)
    rw [List.cons_append, step, ih rest', List.reverse_cons, List.append_assoc, List.singleton_append]

theorem linesFrom_feed (piece rest : List Char) :
    linesFrom piece ('\n' :: rest) = String.ofList piece.reverse :: linesFrom [] rest := by
  rw [linesFrom, if_pos (by decide)]
  rintro _ ends
  exact absurd ends (by decide)

/-- A line that a line feed ends is the same for both ways to cut, but for a carriage return at its end. -/
theorem linesFrom_line (unbroken : Unbroken body) (ends : line = body ∨ line = body ++ ['\r']) (rest : List Char) :
    linesFrom [] (line ++ '\n' :: rest) = String.ofList body :: linesFrom [] rest := by
  have spelled : (body.reverse ++ []).reverse = body := by rw [List.append_nil, List.reverse_reverse]
  rcases ends with rfl | rfl
  · rw [linesFrom_unbroken unbroken, linesFrom_feed, spelled]
  · rw [List.append_assoc, linesFrom_unbroken unbroken]
    change linesFrom _ ('\r' :: '\n' :: rest) = _
    rw [linesFrom, spelled]

theorem linesFrom_last (unbroken : Unbroken body) (visible : body ≠ []) : linesFrom [] body = [String.ofList body] := by
  have whole := linesFrom_unbroken unbroken [] []
  rw [List.append_nil, List.append_nil] at whole
  rw [whole, linesFrom, if_neg (by simpa using visible), List.reverse_reverse]

theorem feedsFrom_line (without : '\n' ∉ line) (piece rest : List Char) :
    feedsFrom piece (line ++ rest) = feedsFrom (line.reverse ++ piece) rest := by
  induction line generalizing piece with
  | nil => rfl
  | cons char line ih =>
    have other : char ≠ '\n' := fun same => without (same ▸ List.mem_cons_self)
    rw [List.cons_append, feedsFrom_of_ne other, ih fun member => without (List.mem_cons_of_mem _ member),
      List.reverse_cons, List.append_assoc, List.singleton_append]

theorem feedsFrom_last (without : '\n' ∉ line) : feedsFrom [] line = [String.ofList line] := by
  have whole := feedsFrom_line without [] []
  rw [List.append_nil, List.append_nil] at whole
  rw [whole, feedsFrom, List.reverse_reverse]

theorem feedsFrom_append (without : '\n' ∉ line) (rest : List Char) :
    feedsFrom [] (line ++ '\n' :: rest) = String.ofList line :: feedsFrom [] rest := by
  rw [feedsFrom_line without, feedsFrom, List.append_nil, List.reverse_reverse]

/-- Where line feeds alone end lines, both ways to cut a text give the same visible lines. -/
theorem getElem?_linesFrom (alone : FeedsAlone text row) {shown : String} (visible : shown ≠ "")
    (held : (feedsFrom [] text)[row]? = some shown) : (linesFrom [] text)[row]? = some shown := by
  induction row generalizing text with
  | zero =>
    have unbroken := alone.row shown held
    by_cases feed : '\n' ∈ text
    · obtain ⟨line, rest, rfl, without⟩ := List.eq_append_cons_of_mem feed
      rw [feedsFrom_append without, List.getElem?_cons_zero, Option.some.injEq] at held
      subst held
      rw [String.toList_ofList] at unbroken
      rw [linesFrom_line unbroken (.inl rfl), List.getElem?_cons_zero]
    · rw [feedsFrom_last feed, List.getElem?_cons_zero, Option.some.injEq] at held
      subst held
      have seen : text ≠ [] := fun none => visible (String.ofList_eq_empty_iff.mpr none)
      rw [String.toList_ofList] at unbroken
      rw [linesFrom_last unbroken seen, List.getElem?_cons_zero]
  | succ row ih =>
    by_cases feed : '\n' ∈ text
    · obtain ⟨line, rest, rfl, without⟩ := List.eq_append_cons_of_mem feed
      have cut := feedsFrom_append without rest
      have below : FeedsAlone rest row := by
        refine ⟨fun index inside shown held => alone.above (index + 1) (Nat.succ_lt_succ inside) shown ?_,
          fun shown held => alone.row shown ?_⟩ <;> rwa [cut, List.getElem?_cons_succ]
      obtain ⟨body, unbroken, ends⟩ := alone.above 0 (Nat.succ_pos _) (String.ofList line)
        (by rw [cut, List.getElem?_cons_zero])
      rw [String.toList_ofList] at ends
      rw [cut, List.getElem?_cons_succ] at held
      rw [linesFrom_line unbroken ends, List.getElem?_cons_succ]
      exact ih below held
    · rw [feedsFrom_last feed] at held
      cases held

end Text

namespace Session

variable {reporter : Reporter} {path : String} {dump : Option Dump} {text : String} {first : Session}

/-- A session on a registered file starts on the first line, and its runs leave the lines of the file as they are. -/
theorem kept_of_registered
    (opened : start { reporter with sources := reporter.sources.register path (some text) } path false dump = .ok first)
    (newest : reporter.sources.Newest path) (entry : Entry) :
    (first.turn entry).line = 1 ∧ (first.turn entry).session.reporter.sources.get? path = some (Text.lines text) ∧
      (first.turn entry).session.reporter.sources.Newest path := by
  obtain ⟨machine, same⟩ := (first.atTime entry.now).run_snd entry.text
  simp only [start, Bool.false_eq_true, if_false] at opened
  split at opened
  · cases opened
  · cases opened
    refine ⟨rfl, ?_, ?_⟩
    · rw [turn, enter, same]
      exact Table.get?_set_self ..
    · rw [turn, enter, same]
      exact newest.set _

/-- Diagnoses of a registered file. Every problem that a run of it reports is at a token, and reported on the line of
that. If something of the token is to be seen, the text contains it at its place. The diagnosis shows it on its line of
the text, cut at line feeds, exactly if this is also the line that the other way to cut the text gives; and so it does
where line feeds alone end lines. -/
theorem registered_diagnoses_point_at_tokens
    (opened : start { reporter with sources := reporter.sources.register path (some text) } path false dump = .ok first)
    (newest : reporter.sources.Newest path) (now : Float) :
    let turn := first.turn ⟨now, text⟩
    ∀ problem ∈ turn.ran.problems, ∃ token, problem.token? = some token ∧ problem.line? = some token.line ∧
      (token.lexeme ≠ "" → token ∈ turn.scan.found ∧
        (∃ earlier later, text.toList = earlier ++ token.lexeme.toList ++ later ∧
          token.position = Position.after ⟨1, 0⟩ earlier) ∧
        ∃ row : Nat, token.line = row + 1 ∧
          (turn.Shows turn.session.reporter.sources path problem token ↔
            (Text.lines text)[row]? = (Text.splitAtFeeds text)[row]?) ∧
          (Text.FeedsAlone text.toList row → turn.Shows turn.session.reporter.sources path problem token)) := by
  intro turn problem reported
  obtain ⟨line, kept, current⟩ := kept_of_registered opened newest ⟨now, text⟩
  obtain ⟨token, marks, scanned⟩ := scanned_of_mem_problems opened [] ⟨now, text⟩ reported
  refine ⟨token, marks.place, marks.line, fun visible => ?_⟩
  have found : token ∈ turn.scan.found := by
    obtain ⟨only, member, found⟩ := scanned
    rwa [List.mem_singleton.mp member] at found
  have split := Scan.split_of_mem_found found visible
  rw [show turn.line = 1 from line] at split
  obtain ⟨row, _, _, _, number, _⟩ := Scan.standsOn_of_mem_found found visible
  have place : token.line = (row + 1 : Nat) := by
    rw [number, show turn.line = 1 from line, Int.add_comm]
    rfl
  have sameRow {other : Nat} (counted : token.line = turn.line + other) : other = row := by
    rw [number] at counted
    omega
  have quoted : turn.session.reporter.sources.quote (some token.line) = (some path, (Text.lines text)[row]?) := by
    rw [place]
    exact current.quote kept row
  have shows (agree : ∀ shown, shown ≠ "" → (Text.splitAtFeeds text)[row]? = some shown →
      (Text.lines text)[row]? = some shown) : turn.Shows turn.session.reporter.sources path problem token := by
    refine Turn.shows_of_quote found visible marks fun other shown counted seen held => ?_
    rw [sameRow counted] at held
    rw [quoted, agree shown seen held]
  refine ⟨found, split, row, place, ⟨?_, fun same => shows fun shown _ held => same.trans held⟩, ?_⟩
  · rintro ⟨other, shown, _, _, counted, held, quote, _⟩
    rw [sameRow counted] at held
    rw [quoted, Prod.mk.injEq] at quote
    rw [quote.2]
    exact held.symm
  · exact fun alone => shows fun shown seen held => Text.getElem?_linesFrom alone seen held

/-- The second line of a file fails. -/
theorem registered_diagnoses_point_at_call :
    let text := "var a = 1;\nnil();"
    let reporter : Reporter := { sources := Sources.register .empty "test.lox" (some text) }
    let turn := ({ reporter, path := "test.lox", interactive := false } : Session).turn ⟨0, text⟩
    turn.ran.problems.map Problem.line? = [some 2] ∧ Text.FeedsAlone text.toList 1 ∧
      ∀ problem ∈ turn.ran.problems, ∃ token, problem.token? = some token ∧
        (token.lexeme ≠ "" → turn.Shows turn.session.reporter.sources "test.lox" problem token) := by
  intro text reporter turn
  have opened : start reporter "test.lox" false none = .ok { reporter, path := "test.lox", interactive := false } := by
    rfl
  have newest : ({} : Reporter).sources.Newest "test.lox" := by
    intro member
    cases member
  have line : turn.ran.problems.map Problem.line? = [some 2] := by decide +kernel
  have alone : Text.FeedsAlone text.toList 1 := by
    refine ⟨fun index inside line held => ⟨line.toList, ?_, .inl rfl⟩, fun line held => ?_⟩
    · obtain rfl : index = 0 := by omega
      have first : line = "var a = 1;" := by
        apply Option.some.inj
        rw [← held]
        decide +kernel
      subst first
      decide +kernel
    · have second : line = "nil();" := by
        apply Option.some.inj
        rw [← held]
        decide +kernel
      subst second
      decide +kernel
  have points := registered_diagnoses_point_at_tokens opened newest 0
  refine ⟨line, alone, fun problem reported => ?_⟩
  obtain ⟨token, place, number, shown⟩ := points problem reported
  refine ⟨token, place, fun visible => ?_⟩
  obtain ⟨_, _, row, counted, _, shows⟩ := shown visible
  have second : some token.line = some 2 := by
    have listed := List.mem_map_of_mem (f := Problem.line?) reported
    rw [show List.map Problem.line? _ = [some 2] from line, List.mem_singleton] at listed
    rw [← number, listed]
  obtain rfl : row = 1 := by
    have := Option.some.inj second
    omega
  exact shows alone

/-- A form feed in a comment ends a line for the diagnoses, but not for the tokens after it. The call on the second line
fails, and the diagnosis quotes the end of the comment. -/
theorem registered_diagnosis_misses_call :
    let text := "// a\x0cb\nnil();"
    let reporter : Reporter := { sources := Sources.register .empty "test.lox" (some text) }
    let turn := ({ reporter, path := "test.lox", interactive := false } : Session).turn ⟨0, text⟩
    let sources := turn.session.reporter.sources
    turn.ran.problems.map Problem.line? = [some 2] ∧ (Text.splitAtFeeds text)[1]? = some "nil();" ∧
      sources.quote (some 2) = (some "test.lox", some "b") ∧
      ∃ problem ∈ turn.ran.problems, ∃ token, problem.token? = some token ∧ token.lexeme ≠ "" ∧
        ¬ turn.Shows sources "test.lox" problem token := by
  intro text reporter turn sources
  have call : turn.ran.problems.map (fun problem => problem.token?.map fun token => (token.lexeme, token.line)) =
      [some (")", 2)] := by decide +kernel
  have held : (Text.splitAtFeeds text)[1]? = some "nil();" := by decide +kernel
  have quoted : sources.quote (some 2) = (some "test.lox", some "b") := by decide +kernel
  refine ⟨by decide +kernel, held, quoted, ?_⟩
  obtain ⟨problem, only, atCall⟩ := List.map_eq_singleton_iff.mp call
  obtain ⟨token, place, same⟩ := Option.map_eq_some_iff.mp atCall
  obtain ⟨visible, line⟩ := Prod.mk.injEq .. ▸ same
  refine ⟨problem, only ▸ List.mem_singleton_self _, token, place, by rw [visible]; decide, ?_⟩
  rintro ⟨row, shown, _, _, counted, stands, quote, _⟩
  have second : row = 1 := by
    have first : turn.line = 1 := rfl
    omega
  rw [second] at stands
  rw [line] at quote
  have fed : shown = "nil();" := Option.some.inj (stands.symm.trans held)
  have shows : some shown = some "b" := congrArg Prod.snd (quote.symm.trans quoted)
  rw [fed] at shows
  exact absurd shows (by decide)

end Session

end Lox
