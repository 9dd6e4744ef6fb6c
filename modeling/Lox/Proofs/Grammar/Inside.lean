import Lox.Proofs.Grammar.Acceptance
import Lox.Proofs.Grammar.Moved

/-!
Where reading is in a list of tokens. The end mark stands at the index that is the number of the tokens, and no rule
goes past it, however malformed the tokens are; the loops over declarations end because they ask for one only where
a token is at hand, and each takes at least that one.
-/
namespace Lox

/-- The reader is at an index of the tokens, the last of which is that of the end mark. -/
structure Reader.At (tokens : List Token) (finish : Token) (index : Nat) (reader : Reader) : Prop where
  inside : index ≤ tokens.length
  upcoming : reader.upcoming = tokens.drop index
  finish : reader.finish = finish

namespace Reader.At

variable {tokens taken : List Token} {finish : Token} {index : Nat} {reader after : Reader} {clean : Bool}

theorem start (tokens : List Token) (finish : Token) (faults : Array (Located SyntaxFault)) :
    (⟨tokens, finish, faults⟩ : Reader).At tokens finish 0 := ⟨Nat.zero_le _, rfl, rfl⟩

theorem present (at_ : reader.At tokens finish index) : reader.upcoming ≠ [] ↔ index < tokens.length := by
  rw [at_.upcoming, Ne, List.drop_eq_nil_iff, Nat.not_le]

theorem moves (at_ : reader.At tokens finish index) (moved : reader.Moves clean taken after) :
    after.At tokens finish (index + taken.length) := by
  have split : tokens.drop index = taken ++ after.upcoming := at_.upcoming.symm.trans moved.upcoming
  refine ⟨?_, ?_, moved.finish.trans at_.finish⟩
  · have lengths := congrArg List.length split
    have inside := at_.inside
    simp only [List.length_drop, List.length_append] at lengths
    omega
  · rw [← List.drop_drop, split, List.drop_left]

/-- Tokens that are still to come, in a list that ends with them. -/
theorem of_suffix (later : after.upcoming <:+ tokens) (mark : after.finish = finish) :
    after.At tokens finish (tokens.length - after.upcoming.length) :=
  ⟨Nat.sub_le _ _, List.suffix_iff_eq_drop.mp later, mark⟩

theorem current (at_ : reader.At tokens finish index) : (tokens ++ [finish])[index]? = some reader.current := by
  have inside := at_.inside
  rw [Reader.current, at_.upcoming, at_.finish, List.head?_drop]
  by_cases last : index = tokens.length
  · subst last
    simp
  · have below : index < tokens.length := by omega
    simp [List.getElem?_append_left below, below]

end Reader.At

namespace Parse

/-- The token before an index. There is none before the first one. -/
def previous? (tokens : List Token) : Nat → Option Token
  | 0 => none
  | index + 1 => tokens[index]?

/-- The rules by which tokens are read. -/
inductive Rule (room : Nat) : {α : Type} → Parse α → Prop
  | declaration : Rule room (declaration room)
  | classDeclaration : Rule room (classDeclaration room)
  | function (sort : FunctionSort) : Rule room (function room sort)
  | block : Rule room (block room)
  | statement : Rule room (statement room)
  | varDeclaration : Rule room (varDeclaration room)
  | printStatement : Rule room (printStatement room)
  | returnStatement (keyword : Token) (isReturn : keyword.kind = .returnWord) : Rule room (returnStatement room keyword)
  | expressionStatement : Rule room (expressionStatement room)
  | assignment : Rule room (assignment room)
  | tier (level : Tier) : Rule room (tier room level)
  | unary : Rule room (unary room)
  | call : Rule room (call room)
  | primary : Rule room (primary room)

variable {α : Type} {tokens : List Token} {finish : Token} {room : Nat}

/-- An action that never leaves the tokens: whether it ends well or at a fault, it ends at the index at which it
started or at a later one. -/
def Stays (tokens : List Token) (finish : Token) (action : Parse α) : Prop :=
  ∀ ⦃reader : Reader⦄ ⦃index : Nat⦄, reader.At tokens finish index →
    match action reader with
    | .ok _ after | .error .fault after => ∃ next, index ≤ next ∧ after.At tokens finish next
    | .error .tooDeep _ => True

/-- An action that ends past the token at which it started, unless there is no room for it. -/
def Progresses (tokens : List Token) (finish : Token) (action : Parse α) : Prop :=
  ∀ ⦃reader : Reader⦄ ⦃index : Nat⦄, reader.At tokens finish index → index < tokens.length →
    match action reader with
    | .ok _ after => ∃ next, index < next ∧ after.At tokens finish next
    | .error stop _ => stop = .tooDeep

theorem Reads.stays {action : Parse α} {Deep : Nat → Prop} {form : Form α} (reads : Reads action Deep form) :
    Stays tokens finish action := by
  intro reader index at_
  have outcome := reads reader
  generalize action reader = result at outcome ⊢
  rcases result with ⟨value, after⟩ | ⟨_ | _, after⟩
  · obtain ⟨_, taken, moved, _⟩ := outcome
    exact ⟨_, Nat.le_add_right _ _, at_.moves moved⟩
  · obtain ⟨taken, moved⟩ := outcome
    exact ⟨_, Nat.le_add_right _ _, at_.moves moved⟩
  · trivial

theorem Rule.stays {rule : Parse α} (named : Rule room rule) : Stays tokens finish rule := by
  have statements := readsStatements .nearest room
  have expressions := readsExpressions room
  cases named with
  | declaration => exact statements.declaration.stays
  | classDeclaration => exact statements.classDeclaration.stays
  | function sort => exact (statements.function sort).stays
  | block => exact statements.block.stays
  | statement => exact statements.statement.stays
  | varDeclaration => exact (reads_varDeclaration room).stays
  | printStatement => exact (reads_printStatement .nearest room).stays
  | returnStatement keyword isReturn => exact (reads_returnStatement .nearest room keyword isReturn).stays
  | expressionStatement => exact (reads_expressionStatement room).stays
  | assignment => exact expressions.assignment.stays
  | tier level => exact (expressions.tier level).stays
  | unary => exact expressions.unary.stays
  | call => exact expressions.call.stays
  | primary => exact expressions.primary.stays

theorem declaration_progresses (room : Nat) : Progresses tokens finish (declaration room) := by
  intro reader index at_ below
  have stays := (readsStatements .nearest room).declaration.stays at_
  have recovers := recovers_declaration room reader
  cases read : declaration room reader with
  | ok value after =>
    rw [read] at stays
    obtain ⟨next, _, at_'⟩ := stays
    have shorter := consumes_declaration room read (at_.present.mpr below)
    rw [at_.upcoming, at_'.upcoming, List.length_drop, List.length_drop] at shorter
    exact ⟨next, by omega, at_'⟩
  | error stop after =>
    cases stop with
    | fault => exact absurd read (recovers after)
    | tooDeep => rfl

theorem accept_at {reader after : Reader} {index : Nat} {kind : TokenKind} {token : Token}
    (at_ : reader.At tokens finish index) (taken : accept kind reader = .ok (some token) after) :
    after.At tokens finish (index + 1) ∧ previous? tokens (index + 1) = some token := by
  have outcome : Settles reader (fun _ => True) _ (accept kind reader) := reads_accept kind reader
  rw [taken] at outcome
  obtain ⟨clean, _, moved, _, ⟨none, _⟩ | ⟨_, same, rfl, _⟩⟩ := outcome
  · cases none
  · cases same
    refine ⟨at_.moves moved, ?_⟩
    have first : reader.upcoming.head? = some token := by simp [moved.upcoming]
    rwa [at_.upcoming, List.head?_drop] at first

/-- Dropping tokens after a fault starts with the one at hand, and looks back no further than to it. -/
theorem synchronize_at {reader : Reader} {index : Nat} (at_ : reader.At tokens finish index)
    (below : index < tokens.length) :
    reader.synchronize.upcoming = skipToBoundary tokens[index] (tokens.drop (index + 1)) := by
  have present : reader.upcoming = tokens[index] :: tokens.drop (index + 1) := by
    rw [at_.upcoming, List.drop_eq_getElem_cons below]
  rw [Reader.synchronize, present]

/-- The loops ask for a declaration only where a token is at hand: what they do does not depend on what a
declaration would be anywhere else. -/
theorem collect_declarations_inside {item : Parse (Option (Stmt Unit))} {done : Parse Bool} (isDone : List Token → Bool)
    (looks : ∀ reader, done reader = .ok (isDone reader.upcoming) reader) (ended : isDone [] = true) {reader : Reader}
    {index : Nat} (at_ : reader.At tokens finish index)
    (agree : ∀ inner next, Reader.At tokens finish next inner → next < tokens.length →
      item inner = declaration room inner) :
    collect done item reader = collect done (declaration room) reader := by
  refine (collect_congr isDone looks (fun before value after read => ?_) reader ?_).symm
  · have settles := (readsStatements .nearest room).declaration before
    rw [read] at settles
    obtain ⟨_, taken, moved, _⟩ := settles
    exact ⟨⟨taken, moved.upcoming.symm⟩, moved.finish⟩
  · intro inner more within same
    have suffix : inner.upcoming <:+ tokens := within.trans (at_.upcoming ▸ List.drop_suffix index tokens)
    have inside := Reader.At.of_suffix suffix (same.trans at_.finish)
    refine (agree inner _ inside (inside.present.mp ?_)).symm
    intro nothing
    simp [nothing, ended] at more

/-- Every token at which a fault was seen is one of the list, or its end mark. -/
theorem program_faults_inside {stmts : Program Unit} {after : Reader}
    (read : program room ⟨tokens, finish, #[]⟩ = .ok stmts after) :
    ∀ fault ∈ after.faults, fault.token ∈ tokens ++ [finish] := by
  have same : List.Forall₂ (fun token token' => token' = token ∧ token ∈ tokens ++ [finish]) tokens tokens :=
    List.forall₂_same.mpr fun token known => ⟨rfl, List.mem_append_left _ known⟩
  have moved := Parsed.moved_within? (relocates_same (· ∈ tokens ++ [finish])) room same
    ⟨rfl, List.mem_append_right tokens (List.mem_singleton_self finish)⟩
  simp only [Parsed.within?, read] at moved
  cases moved with
  | some known =>
    intro fault recorded
    exact (List.forall₂_same.mp known.faults fault (Array.mem_toList_iff.mpr recorded)).2.2

/-- Reading ends inside the list, however malformed its tokens are.

With room for the nesting it comes to an end, at the end mark, and no fault escapes: each is recorded, at a token of
the list. No rule ever goes past the end mark. The token that was read last, where a rule has a use for it, is the one
before the index and not before the place where the rule started. Every declaration that is called for takes a token,
whether it comes to a statement or not, and both loops that call for one do so at a token only. -/
theorem program_stays_inside (tokens : List Token) (finish : Token) (room : Nat) :
    (12 * tokens.length + 12 ≤ room →
      ∃ stmts after, program room ⟨tokens, finish, #[]⟩ = .ok stmts after) ∧
    (match program room ⟨tokens, finish, #[]⟩ with
      | .ok _ after => after.At tokens finish tokens.length ∧ ∀ fault ∈ after.faults, fault.token ∈ tokens ++ [finish]
      | .error stop _ => stop = .tooDeep) ∧
    (∀ {α : Type} (rule : Parse α), Rule room rule → Stays tokens finish rule) ∧
    Progresses tokens finish (declaration room) ∧
    ∀ (reader : Reader) (index : Nat), reader.At tokens finish index →
      (tokens ++ [finish])[index]? = some reader.current ∧
      (∀ kind token after, accept kind reader = .ok (some token) after →
        after.At tokens finish (index + 1) ∧ previous? tokens (index + 1) = some token) ∧
      (∀ below : index < tokens.length,
        reader.synchronize.upcoming = skipToBoundary tokens[index] (tokens.drop (index + 1))) ∧
      ∀ item : Parse (Option (Stmt Unit)),
        (∀ inner next, Reader.At tokens finish next inner → next < tokens.length →
          item inner = declaration room inner) →
        collect atEnd item reader = program room reader ∧
        untilBrace item reader = untilBrace (declaration room) reader := by
  refine ⟨fun enough => ?result, ?ends, fun rule named => named.stays, declaration_progresses room,
    fun reader index at_ => ⟨at_.current, fun kind token after taken => accept_at at_ taken, synchronize_at at_,
      fun item agree => ⟨?_, ?_⟩⟩⟩
  case result =>
    obtain ⟨parsed, read⟩ := Parsed.exists_within? tokens finish enough
    unfold Parsed.within? at read
    cases outcome : program room ⟨tokens, finish, #[]⟩ with
    | ok stmts after => exact ⟨stmts, after, rfl⟩
    | error => simp [outcome] at read
  case ends =>
    have settles := reads_program .nearest room ⟨tokens, finish, #[]⟩
    have recovers := recovers_program room ⟨tokens, finish, #[]⟩
    cases read : program room ⟨tokens, finish, #[]⟩ with
    | ok stmts after =>
      rw [read] at settles
      obtain ⟨_, taken, moved, finished, _⟩ := settles
      have at_ := (Reader.At.start tokens finish #[]).moves moved
      have all : tokens = taken := by simpa [finished] using moved.upcoming
      rw [Nat.zero_add, ← all] at at_
      exact ⟨at_, program_faults_inside read⟩
    | error stop after =>
      cases stop with
      | fault => exact absurd read (recovers after)
      | tooDeep => rfl
  · exact collect_declarations_inside List.isEmpty (fun _ => rfl) rfl at_ agree
  · exact collect_declarations_inside (fun rest => headKind rest = some .rightBrace || rest.isEmpty) looks_untilBrace
      rfl at_ agree

/-- `} fun`, where the first declaration stops at its first token and the second one at the end. -/
theorem program_stays_inside_of_brace :
    let at_ (kind : TokenKind) : Token := ⟨kind, kind.name, none, ⟨1, 0⟩⟩
    let tokens := [at_ .rightBrace, at_ .funWord]
    12 * tokens.length + 12 ≤ 36 ∧
    (∃ stmts after, program 36 ⟨tokens, at_ .eof, #[]⟩ = .ok stmts after ∧
      after.At tokens (at_ .eof) 2 ∧ after.faults.size = 2) ∧
    ∃ next, 0 < next ∧ (⟨[at_ .funWord], at_ .eof, #[⟨.expected "expression", at_ .rightBrace⟩]⟩ : Reader).At tokens
      (at_ .eof) next := by
  intro at_ tokens
  obtain ⟨_, ends, _, progresses, _⟩ := program_stays_inside tokens (at_ .eof) 36
  exact ⟨by decide, ⟨_, _, rfl, ends.1, rfl⟩, progresses (Reader.At.start tokens (at_ .eof) #[]) (by decide)⟩

end Parse

end Lox
