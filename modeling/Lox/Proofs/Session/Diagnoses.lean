import Lox.Proofs.Report.Quoting
import Lox.Proofs.Session.Turns

/-!
Diagnoses point at the right text. An interactive session has its reporter keep the lines of all texts that it has run,
and numbers the lines of each text from there on. So the line that a report quotes is the one on which its token stands,
in whichever text that was scanned.
-/
namespace Lox

open Report

/-- The report on a problem at a token ends with the line that is quoted for it, and the token marked there. -/
theorem Report.describe_of_marks {sources : Sources} {problem : Problem} {token : Token} {path : Option String}
    {shown : String} (severity : Severity) (label : String) (marks : problem.Marks token) (visible : token.lexeme ≠ "")
    (quoted : sources.quote (some token.line) = (path, some shown)) :
    ∃ headline, describe sources severity label problem = headline ++ .plain "\n" :: diagnose severity shown token := by
  have spelled : token.lexeme.isEmpty = false := by
    simpa [String.isEmpty_iff] using visible
  unfold describe diagnosis
  simp only [marks.line, marks.shown, marks.place, quoted, spelled, decide_true, Bool.not_false, Bool.and_self, if_true]
  exact ⟨_, rfl⟩

/-- The report on a problem at a token shows the line on which the token stands in the text of a turn, cut at line feeds.
All of the token that is on the line is marked, and the carets below it start in its column and are as long. -/
def Turn.Shows (turn : Turn) (sources : Sources) (path : String) (problem : Problem) (token : Token) : Prop :=
  ∃ (row : Nat) (shown : String) (start rest : List Char), token.line = turn.line + row ∧
    (Text.splitAtFeeds turn.text)[row]? = some shown ∧ sources.quote (some token.line) = (some path, some shown) ∧
    shown.toList = start ++ token.firstLine ++ rest ∧ start.length = token.col ∧
    (carets token.firstLine.length).length = token.firstLine.length ∧
    ∃ headline, describe sources .error problem.label problem = headline ++
      [.plain "\n", .plain ("  " ++ String.ofList start), .coloured .red (String.ofList token.firstLine),
        .plain (String.ofList rest ++ "\n" ++ "  " ++ String.ofList (List.replicate token.col ' ')),
        .coloured .red (String.ofList (carets token.firstLine.length))]

/-- A token is shown where it stands if the line that is quoted for it is its own. -/
theorem Turn.shows_of_quote {turn : Turn} {sources : Sources} {path : String} {problem : Problem} {token : Token}
    (found : token ∈ turn.scan.found) (visible : token.lexeme ≠ "") (marks : problem.Marks token)
    (quotes : ∀ (row : Nat) (shown : String), token.line = turn.line + row → shown ≠ "" →
      (Text.splitAtFeeds turn.text)[row]? = some shown → sources.quote (some token.line) = (some path, some shown)) :
    turn.Shows sources path problem token := by
  obtain ⟨row, shown, start, rest, line, held, stands⟩ := Scan.standsOn_of_mem_found found visible
  have length := List.length_pos_iff.mpr stands.visible
  have seen : String.ofList shown ≠ "" := by
    intro none
    have nothing : shown = [] := String.ofList_eq_empty_iff.mp none
    have parts := congrArg List.length (stands.line.symm.trans nothing)
    simp only [List.length_append, List.length_nil] at parts
    omega
  have quoted := quotes row (String.ofList shown) line seen held
  rw [← String.toList_ofList (l := shown)] at stands
  obtain ⟨headline, described⟩ := describe_of_marks .error problem.label marks visible quoted
  refine ⟨row, String.ofList shown, start, rest, line, held, quoted, stands.line, stands.column, length_carets length,
    headline, ?_⟩
  rw [described, diagnose_of_standsOn .error stands]
  rfl

namespace Session

variable {session first : Session} {path : String} {lines : List String}

/-- The reporter keeps these lines under the path of the session, and the next text starts on the line after them. -/
structure Quotes (session : Session) (path : String) (lines : List String) : Prop where
  interactive : session.interactive = true
  named : session.path = path
  kept : session.reporter.sources.get? path = some lines
  line : session.line = (lines.length + 1 : Nat)

theorem quotes_of_start {reporter : Reporter} {dump : Option Dump} (opened : start reporter path true dump = .ok first) :
    first.Quotes path [] := by
  simp only [start, if_true, Except.ok.injEq] at opened
  subst opened
  exact ⟨rfl, rfl, Table.get?_set_self .., rfl⟩

theorem newest_of_start {reporter : Reporter} {dump : Option Dump} (opened : start reporter path true dump = .ok first)
    (newest : reporter.sources.Newest path) : first.reporter.sources.Newest path := by
  simp only [start, if_true, Except.ok.injEq] at opened
  subst opened
  exact newest.set []

theorem Quotes.sources_enter (quotes : session.Quotes path lines) (entry : Entry) :
    (session.enter entry).2.reporter.sources = session.reporter.sources.add path entry.text := by
  obtain ⟨machine, same⟩ := (session.atTime entry.now).run_snd entry.text
  rw [Session.enter, same, ← quotes.named]
  exact if_pos quotes.interactive

/-- Whatever comes of a text, its lines are kept. -/
theorem Quotes.enter (quotes : session.Quotes path lines) (entry : Entry) :
    (session.enter entry).2.Quotes path (lines ++ Text.splitAtFeeds entry.text) := by
  obtain ⟨machine, same⟩ := (session.atTime entry.now).run_snd entry.text
  have line := (session.atTime entry.now).line_run entry.text
  refine ⟨?_, ?_, ?_, ?_⟩
  · rw [Session.enter, same]
    exact quotes.interactive
  · rw [Session.enter, same]
    exact quotes.named
  · rw [quotes.sources_enter]
    exact Sources.get?_add quotes.kept entry.text
  · have start : (session.atTime entry.now).line = (lines.length + 1 : Nat) := quotes.line
    rw [Session.enter, line, start, List.length_append, Text.splitAtFeeds, Text.length_feedsFrom]
    omega

/-- The lines of texts that are run one after the other. -/
def linesOf (entries : List Entry) : List String := entries.flatMap fun entry => Text.splitAtFeeds entry.text

theorem Quotes.after (quotes : session.Quotes path lines) (entries : List Entry) :
    (session.after entries).Quotes path (lines ++ linesOf entries) := by
  induction entries generalizing session lines with
  | nil =>
    rw [linesOf, List.flatMap_nil, List.append_nil]
    exact quotes
  | cons entry rest ih =>
    have later := ih (quotes.enter entry)
    rwa [List.append_assoc] at later

theorem Quotes.newest_after (quotes : session.Quotes path lines) (newest : session.reporter.sources.Newest path)
    (entries : List Entry) : (session.after entries).reporter.sources.Newest path := by
  induction entries generalizing session lines with
  | nil => exact newest
  | cons entry rest ih =>
    refine ih (quotes.enter entry) ?_
    rw [quotes.sources_enter]
    exact newest.set _

/-- The lines of every turn are where its number of the first line says. -/
theorem Quotes.split_of_mem_turns (quotes : session.Quotes path lines) {entries : List Entry} {turn : Turn}
    (member : turn ∈ session.turns entries) :
    ∃ earlier later, lines ++ linesOf entries = earlier ++ Text.splitAtFeeds turn.text ++ later ∧
      turn.line = (earlier.length + 1 : Nat) := by
  induction entries generalizing session lines with
  | nil => cases member
  | cons entry rest ih =>
    rcases List.mem_cons.mp member with rfl | later
    · exact ⟨lines, linesOf rest, (List.append_assoc ..).symm, quotes.line⟩
    · obtain ⟨earlier, later, split, line⟩ := ih (quotes.enter entry) later
      exact ⟨earlier, later, by rw [← split, List.append_assoc]; rfl, line⟩

theorem Quotes.shows (quotes : session.Quotes path lines) (newest : session.reporter.sources.Newest path) {turn : Turn}
    {above below : List String} (split : lines = above ++ Text.splitAtFeeds turn.text ++ below)
    (first : turn.line = (above.length + 1 : Nat)) {token : Token} (found : token ∈ turn.scan.found)
    (visible : token.lexeme ≠ "") {problem : Problem} (marks : problem.Marks token) :
    turn.Shows session.reporter.sources path problem token := by
  refine Turn.shows_of_quote found visible marks fun row shown line _ held => ?_
  have listed : lines[above.length + row]? = some shown := by
    have inside : row < (Text.splitAtFeeds turn.text).length := (List.getElem?_eq_some_iff.mp held).1
    rw [split, List.append_assoc, List.getElem?_append_right (Nat.le_add_right _ _), Nat.add_sub_cancel_left,
      List.getElem?_append_left inside]
    exact held
  have number : token.line = (above.length + row + 1 : Nat) := by
    rw [line, first]
    omega
  rw [number, newest.quote quotes.kept, listed]

/-- Diagnoses point at the right text. Let an interactive session run texts, whatever comes of them. After each run the
reporter has as many lines for the path of the session as come before the next text. A problem is at a token of this text
or of an earlier one, which contains the token at its place, if it is a visible one; and as long as the session's file is
the current one, the report on the problem shows the token on its line there. -/
theorem diagnoses_point_at_tokens {reporter : Reporter} {dump : Option Dump}
    (opened : start reporter path true dump = .ok first) (before : List Entry) (entry : Entry) :
    let ran := ((first.after before).enter entry).1
    let session := ((first.after before).enter entry).2
    (∃ lines, session.reporter.sources.get? path = some lines ∧ (lines.length : Int) = session.line - 1) ∧
      ∀ problem ∈ ran.problems, ∃ token, problem.token? = some token ∧ problem.line? = some token.line ∧
        (token.lexeme ≠ "" → ∃ turn ∈ first.turns (before ++ [entry]), token ∈ turn.scan.found ∧
          (∃ earlier later, turn.text.toList = earlier ++ token.lexeme.toList ++ later ∧
            token.position = Position.after ⟨turn.line, 0⟩ earlier) ∧
          (reporter.sources.Newest path → turn.Shows session.reporter.sources path problem token)) := by
  intro ran session
  have opens := quotes_of_start opened
  have quotes : session.Quotes path (linesOf (before ++ [entry])) := by
    have whole := opens.after (before ++ [entry])
    rwa [after_append, List.nil_append] at whole
  refine ⟨⟨_, quotes.kept, ?_⟩, ?_⟩
  · rw [quotes.line]
    omega
  intro problem reported
  obtain ⟨token, marks, turn, member, found⟩ := scanned_of_mem_problems opened before entry reported
  refine ⟨token, marks.place, marks.line, fun visible => ⟨turn, member, found, Scan.split_of_mem_found found visible, ?_⟩⟩
  intro newest
  have newest' : session.reporter.sources.Newest path := by
    have whole := opens.newest_after (newest_of_start opened newest) (before ++ [entry])
    rwa [after_append] at whole
  obtain ⟨above, below, split, line⟩ := opens.split_of_mem_turns member
  exact quotes.shows newest' split line found visible marks

/-- The function of the first text fails when the third one calls it, on the second line of the session. -/
theorem diagnoses_point_at_tokens_of_earlier_text :
    let reporter : Reporter := { fatal := false, sources := ⟨[("<in>", [])]⟩ }
    let first : Session := { reporter, path := "<in>", interactive := true }
    let before : List Entry := [⟨0, "fun f()\n { nil(); }"⟩, ⟨1, ")"⟩]
    let ran := ((first.after before).enter ⟨2, "f();"⟩).1
    let session := ((first.after before).enter ⟨2, "f();"⟩).2
    ran.problems.map Problem.line? = [some 2] ∧ session.line = 5 ∧
      (∃ lines, session.reporter.sources.get? "<in>" = some lines ∧ (lines.length : Int) = session.line - 1) ∧
      ∀ problem ∈ ran.problems, ∃ token, problem.token? = some token ∧ (token.lexeme ≠ "" →
        ∃ turn ∈ first.turns (before ++ [⟨2, "f();"⟩]), turn.Shows session.reporter.sources "<in>" problem token) := by
  intro reporter first before ran session
  have opened : start {} "<in>" true none = .ok first := by rfl
  have newest : Sources.Newest .empty "<in>" := by
    intro member
    cases member
  have lines : ran.problems.map Problem.line? = [some 2] := by decide +kernel
  have next : session.line = 5 := by decide +kernel
  obtain ⟨kept, diagnoses⟩ := diagnoses_point_at_tokens opened before ⟨2, "f();"⟩
  refine ⟨lines, next, kept, fun problem reported => ?_⟩
  obtain ⟨token, place, _, points⟩ := diagnoses problem reported
  refine ⟨token, place, fun visible => ?_⟩
  obtain ⟨turn, member, _, _, shows⟩ := points visible
  exact ⟨turn, member, shows newest⟩

end Session

end Lox
