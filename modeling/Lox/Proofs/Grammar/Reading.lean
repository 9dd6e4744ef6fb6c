import Lox.Parse.Program
import Mathlib.Tactic.Common

/-!
What a reading action does with the tokens at hand, whatever they are: it takes some of them from the
front, in order, and either reads `clean` or has recorded a fault. `Reads` states this together with a form
that relates the tokens taken to the value read, so that a fault anywhere is enough to know that no form is
promised, and no fault anywhere means that every part has its form.

The nesting bound is part of the same statement: an action may give up for lack of room only where `Deep`
holds of the number of tokens at hand.
-/
namespace Lox

/-- How a reader moves on from `before` to `after`. -/
structure Reader.Moves (clean : Bool) (taken : List Token) (before after : Reader) : Prop where
  upcoming : before.upcoming = taken ++ after.upcoming
  finish : after.finish = before.finish
  faults : if clean then after.faults = before.faults else before.faults.size < after.faults.size

namespace Reader.Moves

variable {clean more : Bool} {taken next : List Token} {before middle after : Reader}

theorem refl (reader : Reader) : reader.Moves true [] reader := ⟨rfl, rfl, rfl⟩

theorem trans (first : before.Moves clean taken middle) (second : middle.Moves more next after) :
    before.Moves (clean && more) (taken ++ next) after := by
  refine ⟨?_, second.finish.trans first.finish, ?_⟩
  · rw [first.upcoming, second.upcoming, List.append_assoc]
  · have earlier := first.faults
    have later := second.faults
    cases clean <;> cases more <;> simp_all
    omega

/-- A fault that is recorded anywhere spoils the whole. -/
theorem spoil (first : before.Moves clean taken middle) (second : middle.Moves false next after) :
    before.Moves false (taken ++ next) after := by
  simpa using first.trans second

theorem length (moved : before.Moves clean taken after) :
    before.upcoming.length = taken.length + after.upcoming.length := by
  rw [moved.upcoming, List.length_append]

end Reader.Moves

/-- What is said of an action that ends well: whether it read clean, the tokens it took, the value it read
and the tokens that it left. -/
abbrev Form (α : Type) := Bool → List Token → α → List Token → Prop

namespace Parse

variable {α β : Type}

/-- How an action may end that started at `reader`. -/
def Settles (reader : Reader) (Deep : Nat → Prop) (form : Form α) : EStateM.Result Stop Reader α → Prop
  | .ok value after => ∃ clean taken, reader.Moves clean taken after ∧ form clean taken value after.upcoming
  | .error .fault after => ∃ taken, reader.Moves false taken after
  | .error .tooDeep _ => Deep reader.upcoming.length

def Reads (action : Parse α) (Deep : Nat → Prop) (form : Form α) : Prop :=
  ∀ reader, Settles reader Deep form (action reader)

namespace Reads

variable {action : Parse α} {Deep Deeper : Nat → Prop} {form weaker : Form α}

theorem weaken (reads : Reads action Deep form) (deep : ∀ count, Deep count → Deeper count)
    (follows : ∀ clean taken value rest, form clean taken value rest → weaker clean taken value rest) :
    Reads action Deeper weaker := by
  intro reader
  have outcome := reads reader
  generalize action reader = result at outcome ⊢
  rcases result with ⟨value, after⟩ | ⟨_ | _, after⟩
  · obtain ⟨clean, taken, moved, formed⟩ := outcome
    exact ⟨clean, taken, moved, follows _ _ _ _ formed⟩
  · exact outcome
  · exact deep _ outcome

theorem pure {value : α} (formed : ∀ rest, form true [] value rest) :
    Reads (Pure.pure value) Deep form :=
  fun reader => ⟨true, [], .refl reader, formed _⟩

/-- One action after the other. The second one is looked at with what the first one took in front. -/
theorem bind {first : Form α} {next : α → Parse β} {form : Form β} (reads : Reads action Deep first)
    (continues : ∀ clean taken value, (∃ rest, first clean taken value rest) →
      Reads (next value) (fun count => Deep (taken.length + count))
        (fun more then_ result rest => first clean taken value (then_ ++ rest) →
          form (clean && more) (taken ++ then_) result rest)) :
    Reads (action >>= next) Deep form := by
  intro reader
  have outcome := reads reader
  simp only [Bind.bind, EStateM.bind]
  generalize action reader = result at outcome ⊢
  rcases result with ⟨value, middle⟩ | ⟨_ | _, middle⟩
  · obtain ⟨clean, taken, moved, formed⟩ := outcome
    have later := continues clean taken value ⟨_, formed⟩ middle
    change Settles reader Deep form (next value middle)
    generalize next value middle = result at later ⊢
    rcases result with ⟨result, after⟩ | ⟨_ | _, after⟩
    · obtain ⟨more, then_, moves, follows⟩ := later
      exact ⟨_, _, moved.trans moves, follows (by rwa [← moves.upcoming])⟩
    · obtain ⟨then_, moves⟩ := later
      exact ⟨_, moved.spoil moves⟩
    · have deep : Deep (taken.length + middle.upcoming.length) := later
      rwa [← moved.length] at deep
  · exact outcome
  · exact outcome

theorem map {first : Form α} {f : α → β} {form : Form β} (reads : Reads action Deep first)
    (follows : ∀ clean taken value rest, first clean taken value rest → form clean taken (f value) rest) :
    Reads (f <$> action) Deep form := by
  intro reader
  have outcome := reads reader
  simp only [Functor.map, EStateM.map]
  generalize action reader = result at outcome ⊢
  rcases result with ⟨value, after⟩ | ⟨_ | _, after⟩
  · obtain ⟨clean, taken, moved, formed⟩ := outcome
    exact ⟨clean, taken, moved, follows _ _ _ _ formed⟩
  · exact outcome
  · exact outcome

end Reads

section Steps

variable {Deep : Nat → Prop}

/-- The kind of the token at hand, if there is one. -/
def headKind (tokens : List Token) : Option TokenKind := tokens.head?.map Token.kind

@[simp]
theorem headKind_nil : headKind [] = none := rfl

@[simp]
theorem headKind_cons (token : Token) (rest : List Token) :
    headKind (token :: rest) = some token.kind := rfl

theorem reads_accept (kind : TokenKind) :
    Reads (accept kind) Deep fun clean taken value rest => clean = true ∧
      ((value = none ∧ taken = [] ∧ headKind rest ≠ some kind) ∨
        ∃ token, value = some token ∧ taken = [token] ∧ token.kind = kind) := by
  intro reader
  obtain ⟨upcoming, finish, faults⟩ := reader
  cases upcoming with
  | nil => exact ⟨true, [], .refl _, rfl, .inl ⟨rfl, rfl, by simp⟩⟩
  | cons token rest =>
    by_cases same : token.kind = kind
    · simp only [accept, same, if_true]
      exact ⟨true, [token], ⟨rfl, rfl, rfl⟩, rfl, .inr ⟨token, rfl, rfl, same⟩⟩
    · simp only [accept, same, if_false]
      exact ⟨true, [], .refl _, rfl, .inl ⟨rfl, rfl, by simpa using same⟩⟩

theorem reads_acceptWhere (select : TokenKind → Option α) :
    Reads (acceptWhere select) Deep fun clean taken value _ => clean = true ∧
      ((value = none ∧ taken = []) ∨
        ∃ use token, value = some (use, token) ∧ taken = [token] ∧ select token.kind = some use) := by
  intro reader
  obtain ⟨upcoming, finish, faults⟩ := reader
  cases upcoming with
  | nil => exact ⟨true, [], .refl _, rfl, .inl ⟨rfl, rfl⟩⟩
  | cons token rest =>
    cases selected : select token.kind with
    | none =>
      simp only [acceptWhere, selected]
      exact ⟨true, [], .refl _, rfl, .inl ⟨rfl, rfl⟩⟩
    | some use =>
      simp only [acceptWhere, selected]
      exact ⟨true, [token], ⟨rfl, rfl, rfl⟩, rfl, .inr ⟨use, token, rfl, rfl, selected⟩⟩

theorem reads_sees (kind : TokenKind) :
    Reads (sees kind) Deep fun clean taken value rest =>
      clean = true ∧ taken = [] ∧ (value = true ↔ headKind rest = some kind) := by
  intro reader
  obtain ⟨upcoming, finish, faults⟩ := reader
  cases upcoming with
  | nil => exact ⟨true, [], .refl _, rfl, rfl, by simp⟩
  | cons token rest => exact ⟨true, [], .refl _, rfl, rfl, by simp⟩

theorem reads_atEnd :
    Reads atEnd Deep fun clean taken value rest =>
      clean = true ∧ taken = [] ∧ (value = true ↔ rest = []) :=
  fun _ => ⟨true, [], .refl _, rfl, rfl, List.isEmpty_iff⟩

theorem reads_complain (token : Token) (cause : SyntaxFault) :
    Reads (complain token cause) Deep fun clean taken _ _ => clean = false ∧ taken = [] :=
  fun reader => ⟨false, [], ⟨rfl, rfl, by simp [Reader.record]⟩, rfl, rfl⟩

theorem reads_complainHere (cause : SyntaxFault) :
    Reads (complainHere cause) Deep fun clean taken _ _ => clean = false ∧ taken = [] :=
  fun reader => ⟨false, [], ⟨rfl, rfl, by simp [Reader.record]⟩, rfl, rfl⟩

theorem reads_refuse (cause : SyntaxFault) (form : Form α) : Reads (refuse cause) Deep form :=
  fun reader => ⟨[], ⟨rfl, rfl, by simp [Reader.record]⟩⟩

theorem reads_tooDeep (form : Form α) (deep : ∀ count, Deep count) : Reads tooDeep Deep form :=
  fun _ => deep _

theorem reads_expect (kind : TokenKind) (what : String) :
    Reads (expect kind what) Deep fun clean taken token _ =>
      clean = true ∧ taken = [token] ∧ token.kind = kind := by
  apply Reads.bind (reads_accept kind)
  intro clean taken value _
  cases value with
  | none => exact reads_refuse _ _
  | some token =>
    apply Reads.pure
    intro rest formed
    simp only [reduceCtorEq, false_and, Option.some.injEq, false_or] at formed
    obtain ⟨rfl, _, rfl, rfl, same⟩ := formed
    exact ⟨rfl, rfl, same⟩

end Steps

section Loops

variable {Deep : Nat → Prop}

private theorem rounds_settle {step : α → Parse (Option α)} {invariant form : Form α}
    (steps : ∀ clean taken value, (∃ rest, invariant clean taken value rest) →
      Reads (step value) (fun count => Deep (taken.length + count))
        (fun more then_ result rest => invariant clean taken value (then_ ++ rest) →
          match result with
          | none => then_ = [] ∧ form (clean && more) taken value rest
          | some next => then_ ≠ [] ∧ invariant (clean && more) (taken ++ then_) next rest))
    (ends : ∀ clean taken value, invariant clean taken value [] → form clean taken value [])
    (start : Reader) (bound : List Token) :
    ∀ clean taken value reader, start.Moves clean taken reader →
      invariant clean taken value reader.upcoming → reader.upcoming.length ≤ bound.length →
      Settles start Deep form (rounds step bound value reader) := by
  induction bound with
  | nil =>
    intro clean taken value reader moved kept enough
    have nothing : reader.upcoming = [] := List.length_eq_zero_iff.mp (Nat.le_zero.mp enough)
    exact ⟨clean, taken, moved, by rw [nothing] at kept ⊢; exact ends _ _ _ kept⟩
  | cons _ bound ih =>
    intro clean taken value reader moved kept enough
    have outcome := steps clean taken value ⟨_, kept⟩ reader
    simp only [rounds, Bind.bind, EStateM.bind]
    generalize step value reader = result at outcome ⊢
    rcases result with ⟨_ | next, after⟩ | ⟨_ | _, after⟩
    · obtain ⟨more, then_, moves, follows⟩ := outcome
      obtain ⟨rfl, formed⟩ := follows (by rwa [← moves.upcoming])
      exact ⟨_, _, by simpa using moved.trans moves, formed⟩
    · obtain ⟨more, then_, moves, follows⟩ := outcome
      obtain ⟨progress, still⟩ := follows (by rwa [← moves.upcoming])
      apply ih _ _ _ _ (moved.trans moves) still
      have shorter := moves.length
      have positive := List.length_pos_iff.mpr progress
      simp only [List.length_cons] at enough
      omega
    · obtain ⟨then_, moves⟩ := outcome
      exact ⟨_, moved.spoil moves⟩
    · have deep : Deep (taken.length + reader.upcoming.length) := outcome
      rwa [← moved.length] at deep

/-- A loop, by an invariant that holds of what is taken so far. A round that goes on must take a token,
since the tokens left bound the number of rounds. -/
theorem Reads.repeating {step : α → Parse (Option α)} {value : α} (invariant form : Form α)
    (starts : ∀ rest, invariant true [] value rest)
    (steps : ∀ clean taken value, (∃ rest, invariant clean taken value rest) →
      Reads (step value) (fun count => Deep (taken.length + count))
        (fun more then_ result rest => invariant clean taken value (then_ ++ rest) →
          match result with
          | none => then_ = [] ∧ form (clean && more) taken value rest
          | some next => then_ ≠ [] ∧ invariant (clean && more) (taken ++ then_) next rest))
    (ends : ∀ clean taken value, invariant clean taken value [] → form clean taken value []) :
    Reads (Parse.repeating value step) Deep form :=
  fun reader => rounds_settle steps ends reader reader.upcoming true [] value reader (.refl reader)
    (starts _) (Nat.le_refl _)

end Loops

end Parse

end Lox
