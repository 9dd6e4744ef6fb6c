import Lox.Proofs.Session.Turns
import Lox.Shell

/-!
What becomes of the lines that a shell takes. Some are commands and some are blank; all others reach the session, in
order and once each, joined to those that they were waiting for.
-/
namespace Lox.Shell

variable {shell : Shell} {entry : Entry} {text : String}

/-- Takes a line at a time of day. -/
def enter (shell : Shell) (entry : Entry) : Step × Shell :=
  { shell with session := shell.session.atTime entry.now }.take entry.text

/-- The shell after lines that come one after the other. -/
def after (shell : Shell) (entries : List Entry) : Shell :=
  entries.foldl (fun shell entry => (shell.enter entry).2) shell

/-- A line without the blanks at its ends. -/
def stripped (line : String) : String := String.ofList (Text.trim line.toList)

/-- Lines that are for the shell itself: those that start with a question mark, and those whose first word is one of
its commands. -/
def isCommand (line : String) : Bool :=
  line.toList.head? = some '?' || ["help", "exit", "EOF"].contains (String.ofList (line.toList.takeWhile Scan.isWord))

/-- The code among lines, without the blanks around it. -/
def code (lines : List String) : List String :=
  (lines.map stripped).filter fun line => line ≠ "" && !isCommand line

/-- The text that waits for more, without the line feed at its end. -/
def waiting (shell : Shell) : Option String :=
  if shell.pending.isEmpty then none else some (String.ofList shell.pending.toList.dropLast)

/-- There are no more opening than closing braces in a text, and no more opening than closing parentheses. -/
def Balanced (text : String) : Prop :=
  text.toList.count '{' ≤ text.toList.count '}' ∧ text.toList.count '(' ≤ text.toList.count ')'

/-- On a line a text is run: the shell tells what the run gives, and its session is the one that the run leaves. -/
def Runs (shell : Shell) (entry : Entry) (text : String) : Prop :=
  let ran := (shell.session.atTime entry.now).runReported text
  let took := shell.enter entry
  took.1.outcome = ran.1.outcome ∧ took.1.output = ran.1.output ∧ took.1.report = ran.1.report ∧ took.2.session = ran.2

/-- On a line nothing is run. -/
def Rests (shell : Shell) (entry : Entry) : Prop :=
  (shell.enter entry).1.outcome = none ∧ (shell.enter entry).1.output = "" ∧
    (shell.enter entry).2.session = shell.session.atTime entry.now

/-- The texts that lines have a shell run: on each of them one or none. -/
inductive Submits : Shell → List Entry → List String → Prop
  | nil (shell : Shell) : Submits shell [] []
  | runs {shell : Shell} {entry : Entry} {rest : List Entry} {text : String} {texts : List String}
      (runs : shell.Runs entry text) (more : Submits (shell.enter entry).2 rest texts) :
      Submits shell (entry :: rest) (text :: texts)
  | rests {shell : Shell} {entry : Entry} {rest : List Entry} {texts : List String} (rests : shell.Rests entry)
      (more : Submits (shell.enter entry).2 rest texts) : Submits shell (entry :: rest) texts

theorem needsContinuation_eq_true_iff : needsContinuation text = true ↔ ¬ Balanced text := by
  simp only [needsContinuation, Balanced, Bool.or_eq_true, decide_eq_true_eq]
  omega

section Requests

/-- The code that is asked to be run, if it is code. -/
def Request.text? : Request → Option String
  | .code text => some text
  | _ => none

/-- Words that are no command are code. -/
theorem text?_command (name argument : List Char) (line : String) :
    ((command? name argument).getD (.code line)).text? =
      if ["help", "exit", "EOF"].contains (String.ofList name) then none else some line := by
  have same (word : String) : String.ofList name = word ↔ name = word.toList := by
    rw [← String.toList_inj, String.toList_ofList]
  simp only [List.contains_cons, List.contains_nil, Bool.or_false, Bool.or_eq_true, beq_iff_eq, same]
  rw [command?, endOfInput]
  by_cases isHelp : name = "help".toList
  · simp [isHelp, Request.text?]
  by_cases isEnd : name = "EOF".toList
  · simp [isEnd, Request.text?]
  by_cases isExit : name = "exit".toList
  · simp [isExit, Request.text?]
  · rw [if_neg isHelp, if_neg isEnd, if_neg isExit, if_neg (by tauto)]
    rfl

/-- Code is what is neither blank nor a command. -/
theorem text?_request (line : String) : (request line).text?.toList = code [line] := by
  rw [code, List.map_singleton, request, stripped]
  generalize Text.trim line.toList = chars
  split
  · rfl
  · simp [isCommand, Request.text?]
  · rename_i some_ asks
    have visible : String.ofList chars ≠ "" := by
      intro none
      exact some_ (by simpa using congrArg String.toList none)
    have other : chars.head? ≠ some '?' := by
      intro first
      obtain ⟨rest, same⟩ := List.head?_eq_some_iff.mp first
      exact asks rest same
    rw [text?_command, List.filter_singleton, isCommand, String.toList_ofList]
    simp only [visible, other, ne_eq, not_false_eq_true, decide_true, decide_false, Bool.true_and, Bool.false_or]
    cases ["help", "exit", "EOF"].contains (String.ofList (chars.takeWhile Scan.isWord)) <;> rfl

theorem code_cons (line : String) (rest : List String) :
    code (line :: rest) = (request line).text?.toList ++ code rest := by
  rw [text?_request, code, code, code, ← List.filter_append]
  rfl

end Requests

section Taking

/-- Nothing but code is run or kept. -/
theorem take_of_none (shell : Shell) (none : (request entry.text).text? = none) :
    shell.Rests entry ∧ (shell.enter entry).2.pending = shell.pending ∧ (shell.enter entry).2.prompt = shell.prompt := by
  rw [Rests, enter, take]
  cases asked : request entry.text with
  | code text => simp [asked, Request.text?] at none
  | leave argument => by_cases empty : argument.isEmpty = true <;> simp [empty]
  | nothing | help | finish => exact ⟨⟨rfl, rfl, rfl⟩, rfl, rfl⟩

theorem request_of_text? {line : String} (asked : (request line).text? = some text) : request line = .code text := by
  cases found : request line with
  | code other =>
    rw [found] at asked
    cases asked
    rfl
  | nothing | help | finish | leave =>
    rw [found] at asked
    cases asked

/-- Code that leaves a bracket open is kept, with all that was kept before. -/
theorem take_of_open (asked : (request entry.text).text? = some text)
    (opens : needsContinuation (shell.pending ++ text) = true) :
    shell.Rests entry ∧ (shell.enter entry).2.pending = shell.pending ++ text ++ "\n" ∧
      (shell.enter entry).2.prompt = secondaryPrompt := by
  rw [Rests, enter, take, request_of_text? asked]
  simp [takeCode, opens]

/-- Code that leaves none open is run, after all that was kept before. -/
theorem take_of_closed (asked : (request entry.text).text? = some text)
    (closed : needsContinuation (shell.pending ++ text) = false) :
    shell.Runs entry (shell.pending ++ text) ∧ (shell.enter entry).2.pending = "" ∧
      (shell.enter entry).2.prompt = primaryPrompt := by
  simp [Runs, enter, take, request_of_text? asked, takeCode, closed]

end Taking

section Lines

/-- What is kept: nothing, or a text with an open bracket and a line feed after it. The prompt was set with it. -/
def Keeping (shell : Shell) : Prop :=
  shell.pending = "" ∧ shell.prompt = primaryPrompt ∨
    ∃ kept, shell.pending = kept ++ "\n" ∧ needsContinuation kept = true ∧ shell.prompt = secondaryPrompt

theorem waiting_of_none (none : shell.pending = "") : shell.waiting = Option.none := by
  rw [waiting, none]
  rfl

theorem waiting_of_kept {kept : String} (isKept : shell.pending = kept ++ "\n") : shell.waiting = some kept := by
  rw [waiting, isKept]
  simp

/-- Two lists of texts that are the same lines. -/
def SameLines (texts lines : List String) : Prop :=
  (texts = [] ↔ lines = []) ∧ "\n".intercalate texts = "\n".intercalate lines

theorem SameLines.cons {texts lines : List String} (same : SameLines texts lines) (text : String) :
    SameLines (text :: texts) (text :: lines) := by
  refine ⟨by simp, ?_⟩
  by_cases none : texts = []
  · rw [none, same.1.mp none]
  · have some_ : lines ≠ [] := fun none' => none (same.1.mpr none')
    rw [String.intercalate_cons_of_ne_nil none, String.intercalate_cons_of_ne_nil some_, same.2]

/-- Code that comes after what is kept is the next line of it. -/
theorem Keeping.sameLines (keeping : shell.Keeping) (text : String) (rest : List String) :
    SameLines ((shell.pending ++ text) :: rest) (shell.waiting.toList ++ text :: rest) := by
  refine ⟨by simp, ?_⟩
  rcases keeping with ⟨none, _⟩ | ⟨kept, isKept, _⟩
  · rw [waiting_of_none none, none]
    rfl
  · rw [waiting_of_kept isKept, isKept, String.intercalate_cons_append, Option.toList_some, List.singleton_append,
      String.intercalate_cons_cons, String.append_assoc, ← String.intercalate_cons_append]

/-- All code reaches the session or is kept. -/
theorem submits_of_keeping (shell : Shell) (keeping : shell.Keeping) (entries : List Entry) :
    ∃ texts, shell.Submits entries texts ∧ (∀ text ∈ texts, needsContinuation text = false) ∧
      (shell.after entries).Keeping ∧
      SameLines (texts ++ (shell.after entries).waiting.toList)
        (shell.waiting.toList ++ code (entries.map Entry.text)) := by
  -- What is kept on a line is part of what is kept or run on the next one.
  induction entries generalizing shell with
  | nil => exact ⟨[], .nil shell, by simp, keeping, by simp [after, code, SameLines]⟩
  | cons entry rest ih =>
    rw [List.map_cons, code_cons]
    cases asked : (request entry.text).text? with
    | none =>
      obtain ⟨rests, same, shows⟩ := take_of_none shell asked
      have still : (shell.enter entry).2.waiting = shell.waiting := by rw [waiting, waiting, same]
      obtain ⟨texts, submits, closed, later, lines⟩ := ih (shell.enter entry).2 (by rwa [Keeping, same, shows])
      rw [still] at lines
      exact ⟨texts, .rests rests submits, closed, later, lines⟩
    | some text =>
      cases waits : needsContinuation (shell.pending ++ text) with
      | true =>
        obtain ⟨rests, kept, shows⟩ := take_of_open asked waits
        obtain ⟨texts, submits, closed, later, lines⟩ := ih (shell.enter entry).2 (.inr ⟨_, kept, waits, shows⟩)
        rw [waiting_of_kept kept] at lines
        have sameLines := keeping.sameLines text (code (rest.map Entry.text))
        exact ⟨texts, .rests rests submits, closed, later, lines.1.trans sameLines.1, lines.2.trans sameLines.2⟩
      | false =>
        obtain ⟨runs, empty, shows⟩ := take_of_closed asked waits
        obtain ⟨texts, submits, closed, later, lines⟩ := ih (shell.enter entry).2 (.inl ⟨empty, shows⟩)
        rw [waiting_of_none empty] at lines
        have first := lines.cons (shell.pending ++ text)
        have sameLines := keeping.sameLines text (code (rest.map Entry.text))
        exact ⟨_ :: texts, .runs runs submits, List.forall_mem_cons.mpr ⟨waits, closed⟩, later,
          first.1.trans sameLines.1, first.2.trans sameLines.2⟩

end Lines

/-- A shell neither loses nor repeats input. The texts that it has its session run, and after them the text that it
keeps, are line for line the code among the lines that it has taken, however the runs end. What it has run has no
bracket left open as far as counting tells, what it keeps has, and the prompt tells whether it keeps anything. -/
theorem submits_lines (session : Session) (entries : List Entry) :
    let first : Shell := { session }
    let shell := first.after entries
    ∃ texts, first.Submits entries texts ∧
      "\n".intercalate (texts ++ shell.waiting.toList) = "\n".intercalate (code (entries.map Entry.text)) ∧
      (∀ text ∈ texts, Balanced text) ∧
      (∀ text ∈ shell.waiting, shell.pending = text ++ "\n" ∧ ¬ Balanced text) ∧
      shell.prompt = if shell.waiting.isSome then ". " else "> " := by
  intro first shell
  obtain ⟨texts, submits, closed, keeping, lines⟩ := submits_of_keeping first (.inl ⟨rfl, rfl⟩) entries
  refine ⟨texts, submits, lines.2, fun text member => ?_, fun text member => ?_, ?_⟩
  · have done := closed text member
    rw [Bool.eq_false_iff, ne_eq, needsContinuation_eq_true_iff, not_not] at done
    exact done
  · rcases keeping with ⟨none, _⟩ | ⟨kept, isKept, opens, _⟩
    · rw [waiting_of_none none] at member
      cases member
    · rw [waiting_of_kept isKept] at member
      cases member
      exact ⟨isKept, needsContinuation_eq_true_iff.mp opens⟩
  · rcases keeping with ⟨none, shows⟩ | ⟨kept, isKept, _, shows⟩
    · rw [shows, waiting_of_none none]
      rfl
    · rw [shows, waiting_of_kept isKept]
      rfl

end Lox.Shell
