import Lox.Proofs.Session.Turns

/-!
Layout never matters. Two texts that consist of the same tokens, at whatever places, do the same in a session; their
problems are at the same tokens, and it is only the order of the reports that may differ.
-/
namespace Lox

open Report

/-- Tokens are the same but for their places if they agree in kind, spelling and value. -/
theorem Token.elsewhere_iff {token token' : Token} : token.Elsewhere token' ↔
    token'.kind = token.kind ∧ token'.lexeme = token.lexeme ∧ token'.literal = token.literal := by
  constructor
  · intro moved
    exact ⟨moved.kind, moved.lexeme, moved.literal⟩
  · intro agree
    obtain ⟨kind, lexeme, literal, position⟩ := token'
    obtain ⟨rfl, rfl, rfl⟩ := agree
    exact ⟨position, rfl⟩

/-- Tokens of two scans that have the same number, counted from the start of the text. -/
def Scan.Corresponds (scan scan' : Scan) (token token' : Token) : Prop :=
  ∃ index : Nat, scan.all[index]? = some token ∧ scan'.all[index]? = some token'

section Numbers

variable {α β : Type} {Rel : α → β → Prop}

theorem forall₂_same_index {xs : List α} {ys : List β} (length : xs.length = ys.length) :
    List.Forall₂ (fun x y => ∃ index : Nat, xs[index]? = some x ∧ ys[index]? = some y) xs ys := by
  rw [List.forall₂_iff_get]
  refine ⟨length, fun index inside inside' => ⟨index, ?_, ?_⟩⟩
  · simp
  · simp

theorem forall₂_concat {xs : List α} {ys : List β} {last : α} {last' : β}
    (related : List.Forall₂ Rel (xs ++ [last]) (ys ++ [last'])) : List.Forall₂ Rel xs ys ∧ Rel last last' := by
  rw [← List.forall₂_reverse_iff, List.reverse_concat, List.reverse_concat, List.forall₂_cons,
    List.forall₂_reverse_iff] at related
  exact related.symm

theorem rel_of_same_index {xs : List α} {ys : List β} (related : List.Forall₂ Rel xs ys) {x : α} {y : β} {index : Nat}
    (found : xs[index]? = some x) (found' : ys[index]? = some y) : Rel x y := by
  obtain ⟨inside, rfl⟩ := List.getElem?_eq_some_iff.mp found
  obtain ⟨inside', rfl⟩ := List.getElem?_eq_some_iff.mp found'
  exact (List.forall₂_iff_get.mp related).2 index inside inside'

end Numbers

namespace Scan

variable {scan scan' : Scan}

/-- Tokens of the same number have moved, where nothing is faulty. -/
theorem moved_of_elsewhere (clean : scan.faults = []) (clean' : scan'.faults = [])
    (same : List.Forall₂ Token.Elsewhere scan.all scan'.all) : scan.Moved (scan.Corresponds scan') scan' := by
  obtain ⟨tokens, finish⟩ := forall₂_concat (forall₂_same_index same.length_eq)
  refine ⟨tokens, finish, ?_⟩
  rw [clean, clean']
  exact .nil

end Scan

/-- Layout never matters. Let a session have run texts, and let two further ones scan without faults to tokens that agree
in kind, spelling and value. Whichever of them is run, the result, the output and the values of all names after it are
the same. So are the problems, up to their order: each is at the token of the same number in the other text, or at the
same token of an earlier one. -/
theorem Session.layout_never_matters {reporter : Reporter} {path : String} {interactive : Bool} {first : Session}
    (opened : start reporter path interactive none = .ok first) (before : List Entry) (now : Float) (text text' : String)
    (clean : (Scan.ofText text.toList (first.after before).line).faults = [])
    (clean' : (Scan.ofText text'.toList (first.after before).line).faults = [])
    (same : List.Forall₂ Token.Elsewhere (Scan.ofText text.toList (first.after before).line).all
      (Scan.ofText text'.toList (first.after before).line).all) :
    let turn := (first.after before).turn ⟨now, text⟩
    let turn' := (first.after before).turn ⟨now, text'⟩
    turn'.ran.result = turn.ran.result ∧ turn'.ran.output = turn.ran.output ∧
      turn'.session.globals = turn.session.globals ∧ turn'.session.machine.frames = turn.session.machine.frames ∧
      ∃ listed, listed.Perm turn'.ran.problems ∧
        List.Forall₂ (Problem.Moved fun token token' => turn.scan.Corresponds turn'.scan token token' ∨
          token' = token ∧ Turn.Scanned (first.turns before) token) turn.ran.problems listed := by
  intro turn turn'
  generalize isMoves : (fun token token' => turn.scan.Corresponds turn'.scan token token' ∨
    token' = token ∧ Turn.Scanned (first.turns before) token) = Moves
  have places : Relocates Moves := by
    subst isMoves
    rintro token token' (⟨index, found, found'⟩ | ⟨rfl, _⟩)
    · exact rel_of_same_index same found found'
    · exact ⟨_, rfl⟩
  have still : (first.after before).Twins Moves (first.after before) := by
    apply (twins_of_start opened).after places before
    intro token scanned
    subst isMoves
    exact .inr ⟨rfl, scanned⟩
  have narrow (token token' : Token) (moves : turn.scan.Corresponds turn'.scan token token') : Moves token token' := by
    subst isMoves
    exact .inl moves
  obtain ⟨ran, later⟩ := (still.atTime now).run places narrow (Scan.moved_of_elsewhere clean clean' same)
  exact ⟨ran.result, ran.output, later.globals places, later.frames, ran.problems.perm narrow⟩

/-- A function that fails is called from one line, and from three lines with a comment. -/
theorem Session.layout_never_matters_of_comment :
    let first : Session := { reporter := {}, path := "a.lox", interactive := false }
    let before : List Entry := [⟨0, "fun f() { nil(); }"⟩]
    let turn := (first.after before).turn ⟨1, "print f; f();"⟩
    let turn' := (first.after before).turn ⟨1, "print f\n; // twice\n f ();"⟩
    turn'.ran.result = turn.ran.result ∧ turn'.ran.output = turn.ran.output ∧
      turn'.session.globals = turn.session.globals ∧ turn'.session.machine.frames = turn.session.machine.frames ∧
      ∃ listed, listed.Perm turn'.ran.problems ∧
        List.Forall₂ (Problem.Moved fun token token' => turn.scan.Corresponds turn'.scan token token' ∨
          token' = token ∧ Turn.Scanned (first.turns before) token) turn.ran.problems listed := by
  intro first before turn turn'
  have opened : start {} "a.lox" false none = .ok first := by rfl
  have clean : turn.scan.faults.isEmpty = true := by decide +kernel
  have clean' : turn'.scan.faults.isEmpty = true := by decide +kernel
  have length : turn.scan.all.length = turn'.scan.all.length := by decide +kernel
  have agree : ((turn.scan.all.zip turn'.scan.all).all fun pair => pair.2.kind = pair.1.kind &&
      pair.2.lexeme = pair.1.lexeme && pair.2.literal.isNone && pair.1.literal.isNone) = true := by decide +kernel
  have same : List.Forall₂ Token.Elsewhere turn.scan.all turn'.scan.all := by
    refine List.forall₂_iff_zip.mpr ⟨length, fun {token token'} paired => Token.elsewhere_iff.mpr ?_⟩
    have test := List.all_eq_true.mp agree _ paired
    simp only [Bool.and_eq_true, decide_eq_true_eq, Option.isNone_iff_eq_none] at test
    obtain ⟨⟨⟨kind, lexeme⟩, plain'⟩, plain⟩ := test
    exact ⟨kind, lexeme, plain'.trans plain.symm⟩
  exact layout_never_matters opened before 1 _ _ (List.isEmpty_iff.mp clean) (List.isEmpty_iff.mp clean') same

end Lox
