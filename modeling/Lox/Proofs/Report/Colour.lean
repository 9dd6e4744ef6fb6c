import Lox.Report.Reporter
import Mathlib.Tactic.Common

/-!
Colour changes how a report looks and nothing of what it says. A terminal takes the escape sequences for styles out of
a text; what is left of a coloured report is the plain one, as long as nothing that the report is made of brings an
escape character of its own.
-/
namespace Lox

namespace Text

/-- What may stand between the bracket and the `m` of an escape sequence. -/
def isParameter (char : Char) : Bool := char.isDigit || char == ';'

/-- What follows on the escape sequence that a text starts with, if it starts with one. -/
def afterSequence? : List Char → Option (List Char)
  | '\x1b' :: '[' :: rest =>
    match rest.dropWhile isParameter with
    | 'm' :: after => some after
    | _ => none
  | _ => none

theorem length_afterSequence? {text after : List Char} (found : afterSequence? text = some after) :
    after.length < text.length := by
  unfold afterSequence? at found
  split at found
  · rename_i rest
    split at found
    · rename_i left same
      cases found
      have shorter := (List.dropWhile_suffix (l := rest) isParameter).length_le
      rw [same, List.length_cons] at shorter
      simp only [List.length_cons]
      omega
    · cases found
  · cases found

/-- A text without its escape sequences, which are taken out from left to right. -/
def withoutSequences : List Char → List Char
  | [] => []
  | char :: rest =>
    match _found : afterSequence? (char :: rest) with
    | some after => withoutSequences after
    | none => char :: withoutSequences rest
  termination_by text => text.length
  decreasing_by
    · exact length_afterSequence? _found
    · simp

/-- What a terminal shows of a text. -/
def unstyled (text : String) : String := String.ofList (withoutSequences text.toList)

/-- The text has no escape character, so that no escape sequence can start in it. -/
def Unescaped (text : String) : Prop := '\x1b' ∉ text.toList

instance (text : String) : Decidable (Unescaped text) := inferInstanceAs (Decidable ('\x1b' ∉ text.toList))

@[simp]
theorem unescaped_append {first second : String} :
    Unescaped (first ++ second) ↔ Unescaped first ∧ Unescaped second := by
  simp [Unescaped, not_or]

theorem withoutSequences_of_some {text after : List Char} (found : afterSequence? text = some after) :
    withoutSequences text = withoutSequences after := by
  cases text with
  | nil => cases found
  | cons char rest =>
    rw [withoutSequences]
    split
    · rename_i after' same
      rw [Option.some.inj (same.symm.trans found)]
    · rename_i none
      cases none.symm.trans found

theorem withoutSequences_of_none {char : Char} {rest : List Char} (none : afterSequence? (char :: rest) = none) :
    withoutSequences (char :: rest) = char :: withoutSequences rest := by
  rw [withoutSequences]
  split
  · rename_i found
    cases none.symm.trans found
  · rfl

theorem withoutSequences_append {text : List Char} (unescaped : '\x1b' ∉ text) (rest : List Char) :
    withoutSequences (text ++ rest) = text ++ withoutSequences rest := by
  induction text with
  | nil => rfl
  | cons char text ih =>
    obtain ⟨other, unescaped⟩ := not_or.mp (mt List.mem_cons.mpr unescaped)
    have none : afterSequence? (char :: (text ++ rest)) = none := by
      unfold afterSequence?
      split
      · rename_i same
        exact absurd (List.cons.inj same).1.symm other
      · rfl
    rw [List.cons_append, withoutSequences_of_none none, ih unescaped, List.cons_append]

theorem withoutSequences_escapeSequence (code : Nat) (rest : List Char) :
    withoutSequences ((escapeSequence code).toList ++ rest) = withoutSequences rest := by
  have sequence : (escapeSequence code).toList ++ rest = '\x1b' :: '[' :: (Nat.toDigits 10 code ++ 'm' :: rest) := by
    have written : escapeSequence code = "\x1b[" ++ toString code ++ "m" := rfl
    simp [written]
  have parameters : ∀ char ∈ Nat.toDigits 10 code, isParameter char = true := fun char member => by
    simp [isParameter, Nat.isDigit_of_mem_toDigits (by decide) (by decide) member]
  have ends : (Nat.toDigits 10 code ++ 'm' :: rest).dropWhile isParameter = 'm' :: rest := by
    rw [List.dropWhile_append_of_pos parameters]
    rfl
  apply withoutSequences_of_some
  rw [sequence, afterSequence?, ends]
  rfl

/-- What is left of a stretch that is written for a terminal is its text. -/
theorem withoutSequences_forTerminal {span : Span} (unescaped : Unescaped span.text) (rest : List Char) :
    withoutSequences (span.forTerminal.toList ++ rest) = span.text.toList ++ withoutSequences rest := by
  have kept (rest : List Char) :
      withoutSequences (span.text.toList ++ rest) = span.text.toList ++ withoutSequences rest :=
    withoutSequences_append unescaped rest
  cases span with
  | plain text => exact kept rest
  | bold text | coloured colour text =>
    simp only [Span.forTerminal, String.toList_append, List.append_assoc, withoutSequences_escapeSequence]
    rw [← withoutSequences_escapeSequence 0 rest]
    exact kept _

namespace Styled

/-- No stretch has an escape character of its own. -/
def Unescaped (styled : Styled) : Prop := ∀ span ∈ styled, Text.Unescaped span.text

variable {first second styled : Styled}

theorem unescaped_append : Unescaped (first ++ second) ↔ first.Unescaped ∧ second.Unescaped := by
  simp [Unescaped, or_imp, forall_and]

theorem withoutSequences_forTerminal (unescaped : styled.Unescaped) (rest : List Char) :
    withoutSequences (styled.forTerminal.toList ++ rest) = styled.text.toList ++ withoutSequences rest := by
  induction styled with
  | nil => rfl
  | cons span styled ih =>
    obtain ⟨head, tail⟩ := List.forall_mem_cons.mp unescaped
    have terminal : (forTerminal (span :: styled)).toList = span.forTerminal.toList ++ (forTerminal styled).toList := by
      simp [forTerminal]
    have plain : (text (span :: styled)).toList = span.text.toList ++ (text styled).toList := by
      simp [text]
    rw [terminal, plain, List.append_assoc, Text.withoutSequences_forTerminal head, ih tail, List.append_assoc]

/-- A text for a terminal shows as the plain text, also before an end that no escape sequence can start in. -/
theorem unstyled_forTerminal (unescaped : styled.Unescaped) {last : String} (ends : Text.Unescaped last) :
    unstyled (styled.forTerminal ++ last) = styled.text ++ last := by
  have end_ : withoutSequences last.toList = last.toList := by
    simpa [withoutSequences] using withoutSequences_append ends []
  rw [unstyled, String.toList_append, withoutSequences_forTerminal unescaped, end_, ← String.toList_append,
    String.ofList_toList]

end Styled

end Text

namespace Report

open Text

/-- The text that a template gives with some snippets written into its holes, if there are enough of them. -/
def writeParts? : List Part → List String → Option String
  | [], _ => some ""
  | .char char :: rest, snippets => (writeParts? rest snippets).map (String.singleton char ++ ·)
  | .hole :: _, [] => none
  | .hole :: rest, snippet :: snippets => (writeParts? rest snippets).map (snippet ++ ·)

/-- The text of a message. Without snippets the template is the message, whatever braces it has. -/
def write? (template : String) (snippets : List String) : Option String :=
  if snippets.isEmpty then some template else writeParts? (parts template.toList) snippets

/-- Filling the holes and then writing the spans comes to writing the spans into the holes. -/
theorem fillParts?_written (write : Span → String) (plain : ∀ text, write (.plain text) = text) (literal : List Char)
    (parts : List Part) (snippets : List String) :
    (fillParts? literal parts snippets).map (fun message => String.join (message.map write)) =
      (writeParts? parts (snippets.map fun snippet => write (.bold snippet))).map
        (String.ofList literal.reverse ++ ·) := by
  fun_induction fillParts? literal parts snippets with
  | case1 literal snippets => simp [writeParts?, plain]
  | case2 literal snippets char rest ih =>
    rw [ih, writeParts?, Option.map_map]
    congr 1
    funext text
    simp [← String.toList_inj]
  | case3 => rfl
  | case4 literal rest snippet snippets ih =>
    have same : (writeParts? rest (snippets.map fun snippet => write (.bold snippet))) =
        (fillParts? [] rest snippets).map fun message => String.join (message.map write) := by
      simpa [Option.map_id'] using ih.symm
    rw [List.map_cons, writeParts?, same, Option.map_map, Option.map_map]
    cases fillParts? [] rest snippets with
    | none => rfl
    | some message => simp [plain]

/-- A message is the template with the snippets in its holes; for a terminal, with each of them in bold. -/
theorem fill?_written {template : String} {snippets : List String} {message : Styled}
    (filled : fill? template snippets = some message) :
    write? template snippets = some message.text ∧
      write? template (snippets.map fun snippet => (Span.bold snippet).forTerminal) = some message.forTerminal := by
  unfold fill? at filled
  split at filled
  · rename_i none
    cases filled
    simp [write?, List.isEmpty_iff.mp none, Styled.text, Styled.forTerminal, Span.text, Span.forTerminal]
  · rename_i some_
    have text := fillParts?_written Span.text (fun _ => rfl) [] (parts template.toList) snippets
    have terminal := fillParts?_written Span.forTerminal (fun _ => rfl) [] (parts template.toList) snippets
    rw [filled] at text terminal
    simp only [write?, List.isEmpty_map, some_]
    simpa [Option.map_id', Span.text, Styled.text, Styled.forTerminal] using And.intro text.symm terminal.symm

theorem mem_of_mem_parts {char : Char} {text : List Char} (member : .char char ∈ parts text) : char ∈ text := by
  fun_induction parts text with
  | case1 rest ih => simp_all
  | case2 rest ih => simp_all; tauto
  | case3 rest ih => simp_all; tauto
  | case4 => simp_all; tauto
  | case5 => simp_all

theorem unescaped_fillParts? {literal : List Char} {parts : List Part} {snippets : List String} {message : Styled}
    (filled : fillParts? literal parts snippets = some message) (before : '\x1b' ∉ literal)
    (chars : .char '\x1b' ∉ parts) (clean : ∀ snippet ∈ snippets, Text.Unescaped snippet) : message.Unescaped := by
  have plain {literal : List Char} (before : '\x1b' ∉ literal) : Text.Unescaped (String.ofList literal.reverse) := by
    simpa [Text.Unescaped] using before
  fun_induction fillParts? literal parts snippets generalizing message with
  | case1 literal snippets =>
    cases filled
    simpa [Styled.Unescaped, Span.text] using plain before
  | case2 literal snippets char rest ih =>
    rw [List.mem_cons, not_or] at chars
    refine ih filled ?_ chars.2 clean
    rw [List.mem_cons, not_or]
    exact ⟨fun same => chars.1 (by rw [same]), before⟩
  | case3 => cases filled
  | case4 literal rest snippet snippets ih =>
    obtain ⟨later, found, same⟩ := Option.bind_eq_some_iff.mp filled
    cases same
    obtain ⟨first, others⟩ := List.forall_mem_cons.mp clean
    have rest_ := ih found (List.not_mem_nil) (fun member => chars (List.mem_cons_of_mem _ member)) others
    exact List.forall_mem_cons.mpr ⟨plain before, List.forall_mem_cons.mpr ⟨first, rest_⟩⟩

/-- A message has no escape character that comes neither from its template nor from its snippets. -/
theorem unescaped_fill? {template : String} {snippets : List String} {message : Styled}
    (filled : fill? template snippets = some message) (plain : Text.Unescaped template)
    (clean : ∀ snippet ∈ snippets, Text.Unescaped snippet) : message.Unescaped := by
  unfold fill? at filled
  split at filled
  · cases filled
    simpa [Styled.Unescaped, Span.text] using plain
  · exact unescaped_fillParts? filled List.not_mem_nil (fun member => plain (mem_of_mem_parts member)) clean

/-- Neither the paths nor the lines that reports may quote have escape characters. -/
def Sources.Unescaped (sources : Sources) : Prop :=
  ∀ entry ∈ sources.entries, Text.Unescaped entry.1 ∧ ∀ line ∈ entry.2, Text.Unescaped line

variable {sources : Sources} {problem : Problem}

theorem unescaped_quote (clean : sources.Unescaped) (number : Option Int) :
    (∀ path ∈ (sources.quote number).1, Text.Unescaped path) ∧
      ∀ line ∈ (sources.quote number).2, Text.Unescaped line := by
  unfold Sources.quote
  split
  · simp
  · rename_i path lines current
    obtain ⟨path_, lines_⟩ := clean _ (List.mem_of_getLast? current)
    refine ⟨by simpa using path_, fun line quoted => ?_⟩
    obtain ⟨place, _, found⟩ := Option.bind_eq_some_iff.mp quoted
    unfold Sources.lineOf? at found
    split at found
    · exact lines_ line (List.mem_of_getElem? found)
    · cases found

/-- The digits of a line number are no escape characters. -/
theorem unescaped_number (number : Int) : Text.Unescaped (toString number) := by
  have digits (count : Nat) : Text.Unescaped (toString count) := by
    intro member
    rw [Nat.toString_eq_repr, Nat.toList_repr] at member
    have digit := Nat.isDigit_of_mem_toDigits (by decide) (by decide) member
    cases digit
  cases number with
  | ofNat count => exact digits count
  | negSucc count =>
    exact unescaped_append.mpr ⟨by decide, digits count.succ⟩

theorem unescaped_location {path : Option String} (clean : ∀ found ∈ path, Text.Unescaped found) (line : Option Int) :
    (location path line).Unescaped := by
  unfold location
  split
  · rename_i path line
    have written : Text.Unescaped (path ++ ":" ++ toString line ++ ": ") := by
      simp only [unescaped_append]
      exact ⟨⟨⟨clean path rfl, by decide⟩, unescaped_number line⟩, by decide⟩
    exact List.forall_mem_singleton.mpr written
  · exact fun _ nothing => absurd nothing List.not_mem_nil

theorem unescaped_diagnose (severity : Severity) {line : String} (clean : Text.Unescaped line) (token : Token) :
    (diagnose severity line token).Unescaped := by
  have part {chars : List Char} (within : chars ⊆ line.toList) : Text.Unescaped (String.ofList chars) := by
    simpa [Text.Unescaped] using fun member => clean (within member)
  unfold diagnose
  simp only [Styled.Unescaped, List.forall_mem_cons, Span.text, unescaped_append]
  generalize extent line.toList token = bounds
  have before := part (List.take_subset bounds.1 line.toList)
  have covered : Text.Unescaped (String.ofList ((line.toList.take bounds.2).drop bounds.1)) :=
    part fun char member => List.mem_of_mem_take (List.mem_of_mem_drop member)
  have after := part (List.drop_subset bounds.2 line.toList)
  have margin : Text.Unescaped (String.ofList (List.replicate bounds.1 ' ')) := by
    simp [Text.Unescaped, List.mem_replicate]
  have carets : Text.Unescaped (String.ofList ('^' :: List.replicate (bounds.2 - bounds.1 - 1) '~')) := by
    simp [Text.Unescaped, List.mem_replicate]
  exact ⟨⟨by decide, before⟩, covered, ⟨⟨⟨after, by decide⟩, by decide⟩, margin⟩, carets, List.forall_mem_nil _⟩

theorem unescaped_diagnosis (severity : Severity) {quoted : Option String}
    (clean : ∀ line ∈ quoted, Text.Unescaped line) : (diagnosis severity quoted problem).Unescaped := by
  have nothing : Styled.Unescaped [] := fun _ none => absurd none List.not_mem_nil
  unfold diagnosis
  split
  · rename_i token line _ _
    split
    · exact List.forall_mem_cons.mpr ⟨by decide, unescaped_diagnose severity (clean line rfl) token⟩
    · exact nothing
  · exact nothing

theorem unescaped_label (problem : Problem) : Text.Unescaped problem.label := by
  have general (category : Category) : Text.Unescaped category.label := by cases category <;> decide
  unfold Problem.label
  split
  · exact general _
  · exact general _

/-- What is written about a problem has no escape characters, apart from its styles. -/
theorem unescaped_describe (clean : sources.Unescaped) (message : problem.message.Unescaped)
    (place : Text.Unescaped problem.place) (severity : Severity) {label : String} (label_ : Text.Unescaped label) :
    (describe sources severity label problem).Unescaped := by
  obtain ⟨path, quoted⟩ := unescaped_quote clean problem.line?
  have internal : Styled.Unescaped (if problem.internal then [.coloured .red "[internal] "] else []) := by
    split
    · exact List.forall_mem_singleton.mpr (by decide)
    · exact fun _ none => absurd none List.not_mem_nil
  have told : Text.Unescaped (if problem.place.isEmpty then "" else " " ++ problem.place) := by
    split
    · decide
    · exact unescaped_append.mpr ⟨by decide, place⟩
  have title : Styled.Unescaped [.coloured severity.colour
      (label ++ (if problem.place.isEmpty then "" else " " ++ problem.place) ++ ": ")] := by
    refine List.forall_mem_singleton.mpr ?_
    simp only [Span.text, unescaped_append]
    exact ⟨⟨label_, told⟩, by decide⟩
  unfold describe
  simp only [Styled.unescaped_append]
  exact ⟨⟨⟨⟨unescaped_location path _, internal⟩, title⟩, message⟩, unescaped_diagnosis severity quoted⟩

/-- The place of a token is told with its text, unless another place is given. -/
theorem unescaped_make (category : Category) {token : Option Token} (line : Option Int) {place : Option String}
    (given : ∀ text ∈ place, Text.Unescaped text) (spelled : ∀ found ∈ token, Text.Unescaped found.lexeme) :
    Text.Unescaped (Site.make category token line place).place := by
  cases place with
  | some place => exact given place rfl
  | none =>
    cases token with
    | none => exact (by decide : Text.Unescaped "")
    | some token =>
      simp only [Site.make, Option.getD_none, Site.placeOf]
      split
      · decide
      · simp only [unescaped_append]
        exact ⟨⟨by decide, spelled token rfl⟩, by decide⟩

/-- Colour never changes what is reported. Whatever an error or a warning is about, wherever it is and whatever files
are known, the report in colour shows as the report without: that is what a terminal leaves of it. The message is the
template with the snippets in its holes, and in colour the template with each snippet in bold, which shows the same. All
that is asked for is that the template, the snippets, the place and what may be quoted have no escape characters. -/
theorem colour_never_changes_report {template : String} {snippets : List String} {problem : Problem}
    (filled : fill? template snippets = some problem.message) (clean : Text.Unescaped template)
    (cleanSnippets : ∀ snippet ∈ snippets, Text.Unescaped snippet) (place : Text.Unescaped problem.place)
    (cleanSources : sources.Unescaped) (fatal : Bool) :
    let coloured : Reporter := { fatal, ink := .colour, sources }
    let plain : Reporter := { fatal, ink := .plain, sources }
    unstyled (coloured.report problem) = plain.report problem ∧
      unstyled (coloured.warn problem) = plain.warn problem ∧
      write? template snippets = some problem.message.text ∧
      write? template (snippets.map fun snippet => (Span.bold snippet).forTerminal) =
        some problem.message.forTerminal ∧
      unstyled problem.message.forTerminal = problem.message.text := by
  intro coloured plain
  have message := unescaped_fill? filled clean cleanSnippets
  have describe_ (severity : Severity) {label : String} (label_ : Text.Unescaped label) :=
    unescaped_describe cleanSources message place severity label_
  have feed : Text.Unescaped "\n" := by decide
  obtain ⟨written, bold⟩ := fill?_written filled
  refine ⟨?_, ?_, written, bold, ?_⟩
  · exact Styled.unstyled_forTerminal (describe_ .error (unescaped_label problem)) feed
  · exact Styled.unstyled_forTerminal (describe_ .warning (by decide)) feed
  · have bare : Text.Unescaped "" := by decide
    simpa using Styled.unstyled_forTerminal message bare

/-- Texts that look like parts of escape sequences are left alone, and so are braces in snippets. -/
theorem colour_never_changes_report_of_brackets :
    let template := "no '\x7b\x7d' in \x7b\x7b\x7b\x7d\x7d\x7d, [0m"
    let snippets := ["[31m", "\x7b\x7d"]
    let token : Token := ⟨.identifier, "[1m", none, ⟨1, 2⟩⟩
    let problem : Problem :=
      { message := [.plain "no '", .bold "[31m", .plain "' in \x7b", .bold "\x7b\x7d", .plain "\x7d, [0m"]
        internal := true
        site := some (.make .runtime (some token) none none) }
    let sources : Sources := ⟨[("[m", ["a [1m m"])]⟩
    fill? template snippets = some problem.message ∧ Text.Unescaped template ∧
      (∀ snippet ∈ snippets, Text.Unescaped snippet) ∧ Text.Unescaped problem.place ∧ sources.Unescaped ∧
      unstyled (Reporter.report { ink := .colour, sources } problem) =
        Reporter.report { ink := .plain, sources } problem ∧
      unstyled problem.message.forTerminal = problem.message.text := by
  intro template snippets token problem sources
  have filled : fill? template snippets = some problem.message := by decide +kernel
  have clean : Text.Unescaped template := by decide
  have cleanSnippets : ∀ snippet ∈ snippets, Text.Unescaped snippet := by decide
  have place : Text.Unescaped problem.place := unescaped_make .runtime none (by simp) (by decide)
  have cleanSources : sources.Unescaped := by
    refine List.forall_mem_singleton.mpr ⟨?_, List.forall_mem_singleton.mpr ?_⟩ <;> decide
  obtain ⟨same, _, _, _, message⟩ := colour_never_changes_report filled clean cleanSnippets place cleanSources true
  exact ⟨filled, clean, cleanSnippets, place, cleanSources, same, message⟩

end Report

end Lox
