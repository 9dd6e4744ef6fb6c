import Lox.Tree.Show
import Mathlib.Data.List.Forall2

/-!
The indented form of a program against the one-line form. Both have the same text, but for line breaks and the
indentation, and the indentation tells how many opened statements a line stands inside of.
-/
namespace Lox

namespace Text

/-- The number of spaces that a line starts with. -/
def indentation (line : String) : Nat := (line.toList.takeWhile (· = ' ')).length

/-- A line without the spaces that it starts with. -/
def unindented (line : String) : String := String.ofList (line.toList.dropWhile (· = ' '))

end Text

variable {ρ : Type}

/-- The statements that get lines of their own inside a statement. Those of blocks, functions and classes do. -/
def Stmt.inner : Stmt ρ → List (Stmt ρ)
  | .block body => body
  | .funDecl declaration => declaration.body
  | .classDecl _ _ methods => methods.map .funDecl
  | _ => []

/-- What the line of a statement shows of it: all of it, or how it starts if other lines show the inside. -/
def Stmt.heading : Stmt ρ → String
  | .block _ => "(block"
  | .funDecl (.mk name params _) => "(fun " ++ name.lexeme ++ " " ++ showParams params
  | .classDecl name superclass _ => "(class " ++ showClassName name superclass
  | stmt => stmt.show

/-- A statement with a line of its own, and the statements around it whose insides have lines, innermost first. -/
structure Stmt.Row (ρ : Type) where
  around : List (Stmt ρ)
  stmt : Stmt ρ

theorem Stmt.sizeOf_inner {stmt part : Stmt ρ} (member : part ∈ stmt.inner) : sizeOf part < sizeOf stmt := by
  cases stmt with
  | block body =>
    have smaller := List.sizeOf_lt_of_mem (show part ∈ body from member)
    simp only [Stmt.block.sizeOf_spec]
    omega
  | funDecl declaration =>
    obtain ⟨name, params, body⟩ := declaration
    have smaller := List.sizeOf_lt_of_mem (show part ∈ body from member)
    simp only [Stmt.funDecl.sizeOf_spec, FunctionDecl.mk.sizeOf_spec]
    omega
  | classDecl name superclass methods =>
    obtain ⟨method, among, rfl⟩ := List.mem_map.mp member
    have smaller := List.sizeOf_lt_of_mem among
    simp only [Stmt.funDecl.sizeOf_spec, Stmt.classDecl.sizeOf_spec]
    omega
  | _ => cases member

/-- The lines that a statement takes, each as the statement that it is for. -/
def Stmt.rows (around : List (Stmt ρ)) (stmt : Stmt ρ) : List (Stmt.Row ρ) :=
  ⟨around, stmt⟩ :: stmt.inner.attach.flatMap fun ⟨part, _⟩ => part.rows (stmt :: around)
  termination_by stmt
  decreasing_by exact Stmt.sizeOf_inner (by assumption)

theorem Stmt.rows_eq (around : List (Stmt ρ)) (stmt : Stmt ρ) :
    stmt.rows around = ⟨around, stmt⟩ :: stmt.inner.flatMap (rows (stmt :: around)) := by
  rw [rows]
  simp [List.flatMap_subtype]

/-- The lines that a program takes. -/
def Program.rows (program : Program ρ) : List (Stmt.Row ρ) := program.flatMap (Stmt.rows [])

/-- A line for a statement: four spaces for each level, what it shows of the statement, and no more than closing
parentheses of the statements around. -/
def Stmt.Row.LaidOut (level : Nat) (row : Stmt.Row ρ) (line : String) : Prop :=
  ∃ closing, line =
    indent (level + row.around.length) ++ (row.stmt.heading ++ String.ofList (List.replicate closing ')'))

section Rows

theorem head?_parenthesize (head : String) (parts : List String) :
    (parenthesize head parts).toList.head? = some '(' := by
  simp [parenthesize]

theorem Stmt.head?_heading (stmt : Stmt ρ) : stmt.heading.toList.head? = some '(' := by
  cases stmt with
  | funDecl declaration =>
    obtain ⟨name, params, body⟩ := declaration
    simp [heading]
  | block | classDecl => simp [heading]
  | _ => simp only [heading, Stmt.show, head?_parenthesize]

theorem toList_indent (level : Nat) : (indent level).toList = List.replicate (4 * level) ' ' := by
  simp [indent]

/-- Where a text starts with a parenthesis, the spaces before it are all that is indentation. -/
theorem indentation_indent (level : Nat) {text : String} (opens : text.toList.head? = some '(') :
    Text.indentation (indent level ++ text) = 4 * level ∧ Text.unindented (indent level ++ text) = text := by
  obtain ⟨rest, split⟩ := List.head?_eq_some_iff.mp opens
  have spaces : ∀ char ∈ List.replicate (4 * level) ' ', decide (char = ' ') = true := by
    intro char member
    exact decide_eq_true (List.eq_of_mem_replicate member)
  constructor
  · rw [Text.indentation, String.toList_append, toList_indent, List.takeWhile_append_of_pos spaces, split]
    simp
  · rw [Text.unindented, String.toList_append, toList_indent, List.dropWhile_append_of_pos spaces, split,
      List.dropWhile_cons_of_neg (by decide), ← split, String.ofList_toList]

theorem Stmt.Row.LaidOut.indentation {level : Nat} {row : Stmt.Row ρ} {line : String}
    (laidOut : row.LaidOut level line) : Text.indentation line = 4 * (level + row.around.length) := by
  obtain ⟨closing, rfl⟩ := laidOut
  refine (indentation_indent _ ?_).1
  rw [String.toList_append, List.head?_append, row.stmt.head?_heading]
  rfl

theorem Stmt.Row.LaidOut.unindented {level : Nat} {row : Stmt.Row ρ} {line : String}
    (laidOut : row.LaidOut level line) :
    ∃ closing, Text.unindented line = row.stmt.heading ++ String.ofList (List.replicate closing ')') := by
  obtain ⟨closing, rfl⟩ := laidOut
  refine ⟨closing, (indentation_indent _ ?_).2⟩
  rw [String.toList_append, List.head?_append, row.stmt.head?_heading]
  rfl

theorem Stmt.Row.laidOut_heading (level : Nat) (around : List (Stmt ρ)) (stmt : Stmt ρ) :
    Stmt.Row.LaidOut level ⟨around, stmt⟩ (indent (level + around.length) ++ stmt.heading) :=
  ⟨0, by simp⟩

/-- Closing the last line leaves all lines laid out as they were. -/
theorem laidOut_closeLast {level : Nat} {row : Stmt.Row ρ} {rows : List (Stmt.Row ρ)} {header : String}
    {body : List String} (first : row.LaidOut level header) (rest : List.Forall₂ (Stmt.Row.LaidOut level) rows body) :
    List.Forall₂ (Stmt.Row.LaidOut level) (row :: rows) (closeLast header body) := by
  induction rest generalizing row header with
  | nil =>
    obtain ⟨closing, rfl⟩ := first
    refine .cons ⟨closing + 1, ?_⟩ .nil
    rw [List.replicate_succ', String.ofList_append]
    simp [String.append_assoc]
  | cons next _ ih => exact .cons first (ih next)

mutual

theorem Stmt.laidOut_display (level : Nat) (around : List (Stmt ρ)) : ∀ stmt : Stmt ρ,
    List.Forall₂ (Stmt.Row.LaidOut level) (stmt.rows around) (stmt.display (level + around.length))
  | .block body => by
    rw [Stmt.rows_eq, Stmt.display]
    exact laidOut_closeLast (Stmt.Row.laidOut_heading level around _)
      (Stmt.laidOut_displayAll level (.block body :: around) body)
  | .funDecl declaration => by
    rw [Stmt.display]
    exact declaration.laidOut_display level around
  | .classDecl name superclass methods => by
    rw [Stmt.rows_eq, Stmt.display]
    have inside := FunctionDecl.laidOut_displayAll level (.classDecl name superclass methods :: around) methods
    refine laidOut_closeLast ?_ inside
    have heading := Stmt.Row.laidOut_heading level around (.classDecl name superclass methods)
    rwa [Stmt.heading, ← String.append_assoc] at heading
  | .expression _ | .print _ | .varDecl _ _ | .ifThen _ _ | .ifElse _ _ _ | .whileLoop _ _ | .returnStmt _ _ => by
    rw [Stmt.rows_eq, Stmt.display]
    exact .cons (Stmt.Row.laidOut_heading level around _) .nil

theorem Stmt.laidOut_displayAll (level : Nat) (around : List (Stmt ρ)) : ∀ body : List (Stmt ρ),
    List.Forall₂ (Stmt.Row.LaidOut level) (body.flatMap (Stmt.rows around))
      (Stmt.displayAll (level + around.length) body)
  | [] => .nil
  | first :: rest => by
    rw [List.flatMap_cons, Stmt.displayAll]
    exact List.rel_append (first.laidOut_display level around) (Stmt.laidOut_displayAll level around rest)

theorem FunctionDecl.laidOut_display (level : Nat) (around : List (Stmt ρ)) : ∀ declaration : FunctionDecl ρ,
    List.Forall₂ (Stmt.Row.LaidOut level) ((Stmt.funDecl declaration).rows around)
      (declaration.display (level + around.length))
  | .mk name params body => by
    rw [Stmt.rows_eq, FunctionDecl.display]
    have inside := Stmt.laidOut_displayAll level (.funDecl (.mk name params body) :: around) body
    refine laidOut_closeLast ?_ inside
    have heading := Stmt.Row.laidOut_heading level around (.funDecl (.mk name params body))
    rwa [Stmt.heading, ← String.append_assoc, ← String.append_assoc, ← String.append_assoc] at heading

theorem FunctionDecl.laidOut_displayAll (level : Nat) (around : List (Stmt ρ)) : ∀ methods : List (FunctionDecl ρ),
    List.Forall₂ (Stmt.Row.LaidOut level) ((methods.map Stmt.funDecl).flatMap (Stmt.rows around))
      (FunctionDecl.displayAll (level + around.length) methods)
  | [] => .nil
  | first :: rest => by
    rw [List.map_cons, List.flatMap_cons, FunctionDecl.displayAll]
    exact List.rel_append (first.laidOut_display level around) (FunctionDecl.laidOut_displayAll level around rest)

end

end Rows

section Joined

/-- Lines on one line: without indentation, and with a space in the place of each line break. -/
def joined (lines : List String) : String := " ".intercalate (lines.map Text.unindented)

/-- Lines that show a part, and after them lines that show further parts. -/
theorem joined_append {first rest : List String} {part : String} {parts : List String} (some_ : first ≠ [])
    (shows : joined first = part) (empty : rest = [] ↔ parts = []) (shows' : joined rest = " ".intercalate parts) :
    joined (first ++ rest) = " ".intercalate (part :: parts) := by
  cases parts with
  | nil =>
    rw [empty.mpr rfl, List.append_nil, String.intercalate_singleton]
    exact shows
  | cons next parts =>
    have more : rest ≠ [] := fun none => List.cons_ne_nil _ _ (empty.mp none)
    rw [joined, List.map_append, String.intercalate_append_of_ne_nil (by simpa using some_) (by simpa using more),
      String.intercalate_cons_cons, ← shows, ← shows']
    rfl

theorem unindented_close (line : String) : Text.unindented (line ++ ")") = Text.unindented line ++ ")" := by
  rw [Text.unindented, Text.unindented, String.toList_append, List.dropWhile_append]
  split
  · rename_i blank
    rw [List.isEmpty_iff.mp blank]
    rfl
  · rw [String.ofList_append]
    rfl

theorem closeLast_ne_nil (header : String) (body : List String) : closeLast header body ≠ [] := by
  cases body <;> simp [closeLast]

theorem joined_closeLast (header : String) (body : List String) :
    joined (closeLast header body) = joined (header :: body) ++ ")" := by
  induction body generalizing header with
  | nil => simp [joined, closeLast, unindented_close]
  | cons next rest ih =>
    have last {lines : List String} (some_ : lines ≠ []) :
        joined (header :: lines) = Text.unindented header ++ " " ++ joined lines := by
      rw [joined, List.map_cons, String.intercalate_cons_of_ne_nil (by simpa using some_), joined]
    rw [closeLast, last (closeLast_ne_nil _ _), ih, last (List.cons_ne_nil _ _)]
    simp only [String.append_assoc]

/-- A heading and what is inside, with the parenthesis that closes it. -/
theorem joined_opened {level : Nat} {text : String} {lines parts : List String} (empty : lines = [] ↔ parts = [])
    (shows : joined lines = " ".intercalate parts) :
    joined (closeLast (indent level ++ ("(" ++ text)) lines) = "(" ++ " ".intercalate (text :: parts) ++ ")" := by
  have heading : joined [indent level ++ ("(" ++ text)] = "(" ++ text := by
    rw [joined, List.map_singleton, String.intercalate_singleton]
    exact (indentation_indent level (by simp)).2
  have opened := joined_append (List.cons_ne_nil _ _) heading empty shows
  rw [joined_closeLast, ← String.intercalate_cons_append, ← opened]
  rfl

/-- A single line shows what it has. -/
theorem joined_line (level : Nat) (head : String) (parts : List String) :
    joined [indent level ++ parenthesize head parts] = parenthesize head parts := by
  rw [joined, List.map_singleton, (indentation_indent level (head?_parenthesize head parts)).2,
    String.intercalate_singleton]

theorem FunctionDecl.display_ne_nil (level : Nat) (declaration : FunctionDecl ρ) : declaration.display level ≠ [] := by
  obtain ⟨name, params, body⟩ := declaration
  rw [FunctionDecl.display]
  exact closeLast_ne_nil _ _

theorem Stmt.display_ne_nil (level : Nat) (stmt : Stmt ρ) : stmt.display level ≠ [] := by
  cases stmt with
  | block | classDecl =>
    rw [Stmt.display]
    exact closeLast_ne_nil _ _
  | funDecl declaration =>
    rw [Stmt.display]
    exact declaration.display_ne_nil level
  | _ =>
    rw [Stmt.display]
    exact List.cons_ne_nil _ _

theorem Stmt.displayAll_eq_nil_iff {level : Nat} {body : List (Stmt ρ)} :
    Stmt.displayAll level body = [] ↔ Stmt.showAll body = [] := by
  cases body <;> simp [Stmt.displayAll, Stmt.showAll, Stmt.display_ne_nil]

theorem FunctionDecl.displayAll_eq_nil_iff {level : Nat} {methods : List (FunctionDecl ρ)} :
    FunctionDecl.displayAll level methods = [] ↔ FunctionDecl.showAll methods = [] := by
  cases methods <;> simp [FunctionDecl.displayAll, FunctionDecl.showAll, FunctionDecl.display_ne_nil]

mutual

theorem Stmt.joined_display (level : Nat) : ∀ stmt : Stmt ρ, joined (stmt.display level) = stmt.show
  | .block body => by
    have opens : "(block" = "(" ++ "block" := rfl
    rw [Stmt.display, Stmt.show, parenthesize, opens,
      joined_opened Stmt.displayAll_eq_nil_iff (Stmt.joined_displayAll (level + 1) body)]
  | .funDecl declaration => by
    rw [Stmt.display, Stmt.show]
    exact declaration.joined_display level
  | .classDecl name superclass methods => by
    have opens : "(class " = "(" ++ "class " := rfl
    rw [Stmt.display, Stmt.show, parenthesize, opens, String.append_assoc, String.append_assoc,
      joined_opened FunctionDecl.displayAll_eq_nil_iff (FunctionDecl.joined_displayAll (level + 1) methods),
      String.intercalate_cons_append, String.intercalate_cons_cons]
    rfl
  | .expression _ | .print _ | .varDecl _ _ | .ifThen _ _ | .ifElse _ _ _ | .whileLoop _ _ | .returnStmt _ _ => by
    rw [Stmt.display, Stmt.show, joined_line]

theorem Stmt.joined_displayAll (level : Nat) : ∀ body : List (Stmt ρ),
    joined (Stmt.displayAll level body) = " ".intercalate (Stmt.showAll body)
  | [] => rfl
  | first :: rest => by
    rw [Stmt.displayAll, Stmt.showAll]
    exact joined_append (first.display_ne_nil level) (first.joined_display level) Stmt.displayAll_eq_nil_iff
      (Stmt.joined_displayAll level rest)

theorem FunctionDecl.joined_display (level : Nat) : ∀ declaration : FunctionDecl ρ,
    joined (declaration.display level) = declaration.show
  | .mk name params body => by
    have opens : "(fun " = "(" ++ "fun " := rfl
    rw [FunctionDecl.display, FunctionDecl.show, parenthesize, opens]
    simp only [String.append_assoc]
    rw [joined_opened Stmt.displayAll_eq_nil_iff (Stmt.joined_displayAll (level + 1) body),
      String.intercalate_cons_append, String.intercalate_cons_append, String.intercalate_cons_append,
      String.intercalate_cons_cons, String.intercalate_cons_cons]
    simp only [String.append_assoc]
    rfl

theorem FunctionDecl.joined_displayAll (level : Nat) : ∀ methods : List (FunctionDecl ρ),
    joined (FunctionDecl.displayAll level methods) = " ".intercalate (FunctionDecl.showAll methods)
  | [] => rfl
  | first :: rest => by
    rw [FunctionDecl.displayAll, FunctionDecl.showAll]
    exact joined_append (first.display_ne_nil level) (first.joined_display level) FunctionDecl.displayAll_eq_nil_iff
      (FunctionDecl.joined_displayAll level rest)

end

end Joined

/-- The indented form has the text of the one-line form, with line breaks and indentation in the place of spaces. Its
lines are, in order, those of the statements that get one. The line of a statement shows how it starts, after four
spaces for each level and for each opened statement around it, and before nothing but closing parentheses. -/
theorem Program.display_lays_out (program : Program ρ) (level : Nat) :
    " ".intercalate ((program.display level).map Text.unindented) = " ".intercalate (program.map Stmt.show) ∧
      List.Forall₂ (fun row line => Text.indentation line = 4 * (level + row.around.length) ∧
        ∃ closing, Text.unindented line = row.stmt.heading ++ String.ofList (List.replicate closing ')'))
        program.rows (program.display level) := by
  have shown : Stmt.showAll program = program.map Stmt.show := by
    induction program with
    | nil => rfl
    | cons first rest ih => rw [Stmt.showAll, ih, List.map_cons]
  constructor
  · rw [← shown]
    exact Stmt.joined_displayAll level program
  · exact (Stmt.laidOut_displayAll level [] program).imp fun _ _ laidOut => ⟨laidOut.indentation, laidOut.unindented⟩

end Lox
