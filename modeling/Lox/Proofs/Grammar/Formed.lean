import Lox.Proofs.Grammar.Building
import Lox.Proofs.Token.Lines

/-!
The trees of programs that are read from texts, faulty ones as well: what binding and running rely on holds of every
node, wherever reading has resumed.
-/
namespace Lox

/-- Where a value in a tree comes from: the word for it, or a number or string that the tokens have. Only `true` can
stand in a tree without a token, for the condition that a loop leaves out. -/
def Literal.WrittenIn (tokens : List Token) : Literal → Prop
  | .nil => ∃ token ∈ tokens, token.kind = .nilWord
  | .bool value => value = true ∨ ∃ token ∈ tokens, token.kind = .falseWord
  | .number value => ∃ token ∈ tokens, token.kind = .number ∧ token.literal = some (.number value)
  | .string text => ∃ token ∈ tokens, token.kind = .string ∧ token.literal = some (.string text)

/-- Tokens of a text have the values that they are read as. -/
theorem Literal.writtenIn_of_readFrom {tokens : List Token} (proper : ∀ token ∈ tokens, token.Proper) {value : Literal}
    (read : value.ReadFrom tokens) : value.WrittenIn tokens := by
  rcases read with rfl | ⟨token, member, found⟩
  · exact .inl rfl
  · have valued := proper token member
    unfold Expr.ofToken? at found
    split at found <;> cases found
    · exact .inr ⟨token, member, ‹_›⟩
    · exact .inl rfl
    · exact ⟨token, member, ‹_›⟩
    · rename_i kind
      obtain ⟨value, written⟩ := valued.number kind
      rw [written]
      exact ⟨token, member, kind, written⟩
    · rename_i kind
      obtain ⟨text, written⟩ := valued.string kind
      rw [written]
      exact ⟨token, member, kind, written⟩

namespace Parsed

variable {room : Nat}

/-- What is read is made of the tokens, and made cleanly unless a fault is recorded. -/
theorem held_of_within? {tokens : List Token} {finish : Token} {parsed : Parsed}
    (read : within? room tokens finish = some parsed) :
    ∃ clean, (parsed.faults = [] → clean = true) ∧ Held [.sequence parsed.program] clean tokens := by
  have settles := Parse.builds_program room [] true [] (Held.none true []) ⟨tokens, finish, #[]⟩
  unfold within? at read
  generalize Parse.program room _ = outcome at settles read
  cases outcome with
  | error => cases read
  | ok program after =>
    cases read
    obtain ⟨clean, taken, moved, held⟩ := settles
    refine ⟨clean, fun quiet => ?_, ?_⟩
    · have none : after.faults = #[] := by simpa using quiet
      have faults := moved.faults
      cases clean with
      | true => rfl
      | false => simp [none] at faults
    · have split : tokens = taken ++ after.upcoming := moved.upcoming
      have whole := (Known.nodes [.sequence program]).lasts true after.upcoming held
      simpa [split] using whole

/-- Whatever the text is, every tree that is read from it is well formed, and so it is after a fault: operators, names
and values are made of tokens of their kinds, and what stands on a condition declares nothing. Every reference is named
by a token of the text that names no other one, so that no reference stands in two places. Without faults, calls and
functions keep to the number of arguments and parameters that is allowed. -/
theorem within?_forms_trees (text : List Char) (line : Int) {parsed : Parsed}
    (read : within? room (Scan.ofText text line).tokens (Scan.ofText text line).finish = some parsed) :
    let tokens := (Scan.ofText text line).tokens
    let root := Node.sequence parsed.program
    root.All (Node.Formed (Literal.WrittenIn tokens)) ∧
    (∀ path token, root.RefersAt path token →
      token ∈ tokens ∧ ∀ path', root.RefersAt path' token → path' = path) ∧
    (parsed.faults = [] → root.All Node.Few) := by
  intro tokens root
  obtain ⟨clean, isClean, held⟩ := held_of_within? read
  have named : root.references.Subperm tokens := by simpa using held.named
  refine ⟨?_, fun path token refers => ⟨?_, fun path' refers' => ?_⟩, fun none => ?_⟩
  · have formed := held.formed root (List.mem_singleton_self root)
    refine formed.mono fun node => fun formed => formed.mono fun value => ?_
    exact Literal.writtenIn_of_readFrom fun token => Scan.proper_of_mem
  · exact named.subset (Node.mem_references refers)
  · obtain ⟨chosen, perm, sublist⟩ := named
    exact refers'.unique refers (perm.nodup_iff.mp (sublist.nodup (Scan.nodup_tokens text line)))
  · exact held.few (isClean none) root (List.mem_singleton_self root)

/-- A loop without a condition, an `if` that is given up at the declaration after it, and a class that reads its own
name. -/
theorem within?_forms_trees_of_faulty :
    let text :=
      "for (a; ; b = c.d) e(!f, -1 or \"g\"); if (nil) var h; class A < A \x7b m(p) \x7b super.m; \x7d \x7d".toList
    let tokens := (Scan.ofText text 1).tokens
    ∃ parsed, within? 200 tokens (Scan.ofText text 1).finish = some parsed ∧
      parsed.program.length = 2 ∧ parsed.faults.length = 1 ∧
      (Node.sequence parsed.program).All (Node.Formed (Literal.WrittenIn tokens)) ∧
      ∀ path token, (Node.sequence parsed.program).RefersAt path token →
        token ∈ tokens ∧ ∀ path', (Node.sequence parsed.program).RefersAt path' token → path' = path := by
  intro text tokens
  have found : ∃ parsed, within? 200 tokens (Scan.ofText text 1).finish = some parsed ∧
      parsed.program.length = 2 ∧ parsed.faults.length = 1 := by
    decide +kernel
  obtain ⟨parsed, read, statements, faults⟩ := found
  obtain ⟨formed, unique, _⟩ := within?_forms_trees text 1 read
  exact ⟨parsed, read, statements, faults, formed, unique⟩

end Parsed

end Lox
