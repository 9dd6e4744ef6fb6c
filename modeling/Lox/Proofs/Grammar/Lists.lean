import Lox.Proofs.Grammar
import Lox.Proofs.Grammar.Reading

/-!
Reading lists of things: separated by commas, between parentheses, up to a brace or to the end, and going
on after a fault. Each of them is stated over any rule for the items.
-/
namespace Lox

namespace Grammar

variable {α : Type} {Item : List Token → α → Prop} {tokens last : List Token}

theorem Many.snoc {items : List α} {item : α} (items_ : Many Item tokens items) (final : Item last item) :
    Many Item (tokens ++ last) (items ++ [item]) := by
  induction items_ with
  | nil => simpa using Many.cons final .nil
  | cons head _ ih => simpa using Many.cons head ih

theorem Separated.snoc {items : List α} {item : α} {comma : Token} (items_ : Separated Item tokens items)
    (sign : comma.kind = .comma) (final : Item last item) :
    Separated Item (tokens ++ comma :: last) (items ++ [item]) := by
  induction items_ with
  | one only => exact .more only sign (.one final)
  | more head comma _ ih => simpa using Separated.more head comma ih

/-- A list with commas as its first item and the others, each with its comma. -/
theorem Separated.uncons {items : List α} (separated : Separated Item tokens items) :
    ∃ first rest item others, tokens = first ++ rest ∧ items = item :: others ∧ Item first item ∧
      Many (fun taken item => ∃ comma tokens, taken = comma :: tokens ∧ comma.kind = .comma ∧ Item tokens item)
        rest others := by
  induction separated with
  | one only => exact ⟨_, [], _, [], by simp, rfl, only, .nil⟩
  | more head sign _ ih =>
    obtain ⟨first, rest, item, others, rfl, rfl, next, many⟩ := ih
    refine ⟨_, _, _, _, rfl, rfl, head, ?_⟩
    exact .cons ⟨_, _, rfl, sign, next⟩ many

variable {Operand : Tier → List Token → Expr Unit → Prop} {level : Tier} {left middle right : Expr Unit}

theorem Chain.snoc {sign : Token} {joiner : Joiner} (chain : Chain Operand left level tokens middle)
    (operator : Operator level sign.kind joiner) (operand : Operand level last right) :
    Chain Operand left level (tokens ++ sign :: last) (joiner.join middle sign right) := by
  induction chain with
  | done => simpa using Chain.more operator operand .done
  | more first second _ ih => simpa using Chain.more first second (ih operator operand)

variable {Argument : List Token → Expr Unit → Prop} {object result : Expr Unit}

theorem Suffixes.trans (first : Suffixes Argument object tokens middle)
    (second : Suffixes Argument middle last result) : Suffixes Argument object (tokens ++ last) result := by
  induction first with
  | done => simpa using second
  | call opens listing closes _ ih => simpa using Suffixes.call opens listing closes (ih second)
  | get sign named _ ih => simpa using Suffixes.get sign named (ih second)

end Grammar

namespace Parse

open Grammar

variable {α : Type} {Item : List Token → α → Prop} {Deep : Nat → Prop}

/-- The form of a rule: at least one token, and a derivation if nothing was at fault. -/
def Covers (Item : List Token → α → Prop) : Form α := fun clean taken value _ =>
  taken ≠ [] ∧ (clean = true → Item taken value)

/-- Items read so far, last one first, where the first of them came from the tokens `before`. -/
private def ListedSoFar (Item : List Token → α → Prop) (fine : Bool) (before : List Token) : Form (List α) :=
  fun clean taken items _ => fine = true → clean = true →
    Separated Item (before ++ taken) items.reverse ∧ items.length ≤ maxArguments

theorem reads_commaSeparated {item : Parse α} (tooMany : SyntaxFault)
    (mono : ∀ fewer more, fewer ≤ more → Deep fewer → Deep more) (reads : Reads item Deep (Covers Item)) :
    Reads (commaSeparated item tooMany) Deep
      (Covers fun taken items => Separated Item taken items ∧ items.length ≤ maxArguments) := by
  apply Reads.bind reads
  rintro fine before first ⟨_, present, derived⟩
  refine Reads.bind (Reads.repeating (ListedSoFar Item fine before) (ListedSoFar Item fine before)
    ?start ?step fun _ _ _ held => held) ?last
  case start =>
    intro _ isFine _
    simpa using ⟨Separated.one (derived isFine), by decide⟩
  case step =>
    rintro clean taken items ⟨_, held⟩
    apply Reads.bind (reads_accept .comma)
    rintro _ _ _ ⟨_, rfl, ⟨rfl, rfl, _⟩ | ⟨comma, rfl, rfl, sign⟩⟩
    · exact Reads.pure fun _ _ _ => by simpa [ListedSoFar] using held
    · by_cases full : maxArguments ≤ items.length
      · simp only [full, if_true]
        apply Reads.bind (reads_complainHere tooMany)
        rintro _ _ _ ⟨_, rfl, rfl⟩
        refine Reads.bind (reads.weaken (fun count => mono _ _ (by omega)) fun _ _ _ _ => id) ?_
        rintro more tokens item -
        exact Reads.pure fun _ _ _ _ _ => by simp [ListedSoFar]
      · simp only [full, if_false]
        refine Reads.bind (reads.weaken (fun count => mono _ _ (by omega)) fun _ _ _ _ => id) ?_
        rintro more tokens item ⟨_, _, final⟩
        refine Reads.pure fun _ _ _ _ => ⟨by simp, fun isFine isClean => ?_⟩
        simp only [Bool.true_and, Bool.and_true, Bool.and_eq_true] at isClean
        have longer := (held isFine isClean.1).1.snoc sign (final isClean.2)
        refine ⟨by simpa using longer, ?_⟩
        simp only [List.length_cons]
        omega
  case last =>
    rintro clean taken items ⟨_, held⟩
    refine Reads.pure fun _ _ _ => ⟨by simp [present], fun isClean => ?_⟩
    simp only [Bool.and_true, Bool.and_eq_true] at isClean
    simpa using held isClean.1 isClean.2

/-- A choice by the token at hand, which is taken if it is of the kind asked for. -/
theorem reads_choice {β : Type} {kind : TokenKind} {next : Option Token → Parse β} {form : Form β}
    (found : ∀ token : Token, token.kind = kind → Reads (next (some token)) (fun count => Deep (1 + count))
      fun clean taken value rest => form clean (token :: taken) value rest)
    (other : Reads (next none) Deep
      fun clean taken value rest => headKind (taken ++ rest) ≠ some kind → form clean taken value rest) :
    Reads (accept kind >>= next) Deep form := by
  apply Reads.bind (reads_accept kind)
  rintro _ _ _ ⟨_, rfl, ⟨rfl, rfl, _⟩ | ⟨token, rfl, rfl, same⟩⟩
  · refine other.weaken (fun count => by simp) fun clean taken value rest formed accepted => ?_
    simpa using formed (by simpa using accepted)
  · exact (found token same).weaken (fun count => by simp) fun clean taken value rest formed _ => formed

/-- Something that is left out where the token that would end it is at hand. The continuation stands in
both branches, where the rules have it once. -/
theorem reads_unless {β : Type} {kind : TokenKind} {absent : α} {action : Parse α} {next : α → Parse β}
    {first : Form α} {form : Form β} (mono : ∀ fewer more, fewer ≤ more → Deep fewer → Deep more)
    (reads : Reads action Deep first) (nothing : ∀ rest, first true [] absent rest)
    (continues : ∀ clean taken value, (∃ rest, first clean taken value rest) →
      Reads (next value) (fun count => Deep (taken.length + count))
        (fun more then_ result rest => first clean taken value (then_ ++ rest) →
          form (clean && more) (taken ++ then_) result rest)) :
    Reads (sees kind >>= fun seen => if seen = true then pure absent >>= next else action >>= next)
      Deep form := by
  apply Reads.bind (reads_sees kind)
  rintro _ _ seen ⟨_, rfl, rfl, _⟩
  cases seen
  · refine (Reads.bind reads continues).weaken (fun count => mono _ _ (by simp)) ?_
    intro clean taken result rest formed _
    simpa using formed
  · rw [if_pos rfl, pure_bind]
    refine (continues true [] absent ⟨[], nothing []⟩).weaken (fun count => by simp) ?_
    intro clean taken result rest formed _
    simpa using formed (nothing _)

/-- Something that is there only after a token that announces it. -/
theorem reads_announced {β : Type} {kind : TokenKind} {absent : α} {action : Parse α} {next : α → Parse β}
    {form : Form β} (first : Form α)
    (reads : ∀ token : Token, token.kind = kind → Reads action (fun count => Deep (1 + count))
      fun clean taken value rest => first clean (token :: taken) value rest)
    (nothing : ∀ rest, first true [] absent rest)
    (continues : ∀ clean taken value, (∃ rest, first clean taken value rest) →
      Reads (next value) (fun count => Deep (taken.length + count))
        (fun more then_ result rest => first clean taken value (then_ ++ rest) →
          form (clean && more) (taken ++ then_) result rest)) :
    Reads (accept kind >>= fun found => match found with
      | none => pure absent >>= next
      | some _ => action >>= next) Deep form := by
  refine reads_choice (fun token same => ?_) ?_
  · apply Reads.bind (reads token same)
    rintro clean taken value ⟨rest, formed⟩
    refine (continues clean (token :: taken) value ⟨rest, formed⟩).weaken (fun count => ?_)
      fun more then_ result rest follows formed => follows formed
    rw [List.length_cons, Nat.add_comm taken.length, Nat.add_assoc]
    exact id
  · simp only [pure_bind]
    refine (continues true [] absent ⟨[], nothing []⟩).weaken (fun count => by simp) ?_
    intro clean taken result rest formed _
    simpa using formed (nothing _)

theorem reads_parenthesized {item : Parse α} (tooMany : SyntaxFault) (close : String)
    (mono : ∀ fewer more, fewer ≤ more → Deep fewer → Deep more) (reads : Reads item Deep (Covers Item)) :
    Reads (parenthesized item tooMany close) Deep
      (Covers fun taken result => ∃ tokens, taken = tokens ++ [result.2] ∧ result.2.kind = .rightParen ∧
        Listing Item tokens result.1) := by
  have listing : Reads (commaSeparated item tooMany) Deep
      fun clean taken items _ => clean = true → Listing Item taken items :=
    (reads_commaSeparated tooMany mono reads).weaken (fun _ => id)
      fun _ _ _ _ formed isClean => .some (formed.2 isClean).1 (formed.2 isClean).2
  refine reads_unless mono listing (fun _ _ => .none) ?_
  rintro clean taken items ⟨_, listed⟩
  apply Reads.bind (reads_expect .rightParen close)
  rintro _ _ paren ⟨_, rfl, rfl, kind⟩
  refine Reads.pure fun _ _ _ => ⟨by simp, fun isClean => ?_⟩
  exact ⟨taken, by simp, kind, listed (by simpa using isClean)⟩

/-- Items up to where `done` holds. -/
theorem reads_collect {done : Parse Bool} {item : Parse (Option α)} {Done : List Token → Prop}
    (mono : ∀ fewer more, fewer ≤ more → Deep fewer → Deep more)
    (looks : Reads done Deep fun clean taken value rest =>
      clean = true ∧ taken = [] ∧ (value = true ↔ Done rest))
    (atEnd : Done [])
    (reads : Reads item Deep fun clean taken value rest => (taken = [] → rest = []) ∧
      (clean = true → ∃ item, value = some item ∧ Item taken item)) :
    Reads (collect done item) Deep fun clean taken items rest =>
      Done rest ∧ (clean = true → Many Item taken items) := by
  refine Reads.bind (Reads.repeating
    (fun clean taken items _ => clean = true → Many Item taken items.reverse)
    (fun clean taken items rest => Done rest ∧ (clean = true → Many Item taken items.reverse))
    (fun _ _ => by simpa using Many.nil) ?step fun _ _ _ held => ⟨atEnd, held⟩) ?last
  case step =>
    rintro clean taken items ⟨_, held⟩
    refine Reads.bind (looks.weaken (fun count => mono _ _ (by omega)) fun _ _ _ _ => id) ?_
    rintro _ _ value ⟨_, rfl, rfl, _⟩
    cases value
    · refine Reads.bind (reads.weaken (fun count => mono _ _ (by simp)) fun _ _ _ _ => id) ?_
      rintro more tokens value ⟨_, _, final⟩
      -- Where nothing is taken nothing is left either, and there the loop is done.
      have progress : ∀ rest, (tokens = [] → rest = []) → (false = true ↔ Done (tokens ++ [] ++ rest)) →
          tokens ≠ [] := by
        rintro rest stuck undone rfl
        simp [stuck rfl, atEnd] at undone
      cases value with
      | none =>
        refine Reads.pure fun rest formed looked _ => ⟨?_, fun isClean => ?_⟩
        · simpa using progress rest formed.1 looked.2.2
        · simp only [Bool.and_true, Bool.true_and, Bool.and_eq_true] at isClean
          obtain ⟨_, missing, _⟩ := final isClean.2
          cases missing
      | some value =>
        refine Reads.pure fun rest formed looked _ => ⟨?_, fun isClean => ?_⟩
        · simpa using progress rest formed.1 looked.2.2
        · simp only [Bool.and_true, Bool.true_and, Bool.and_eq_true] at isClean
          obtain ⟨_, same, derived⟩ := final isClean.2
          cases same
          simpa using (held isClean.1).snoc derived
    · apply Reads.pure
      intro rest looked _
      simp only [List.nil_append, true_and, true_iff] at looked
      simpa using ⟨looked, held⟩
  case last =>
    rintro clean taken items ⟨_, _, held⟩
    exact Reads.pure fun _ done => by simpa using done

theorem reads_untilBrace {item : Parse (Option α)}
    (mono : ∀ fewer more, fewer ≤ more → Deep fewer → Deep more)
    (reads : Reads item Deep fun clean taken value rest => (taken = [] → rest = []) ∧
      (clean = true → ∃ item, value = some item ∧ Item taken item)) :
    Reads (untilBrace item) Deep fun clean taken items rest =>
      (headKind rest = some .rightBrace ∨ rest = []) ∧ (clean = true → Many Item taken items) := by
  refine reads_collect mono ?_ (.inr rfl) reads
  apply Reads.bind (reads_sees .rightBrace)
  rintro _ _ seen ⟨_, rfl, rfl, _⟩
  apply Reads.bind reads_atEnd
  rintro _ _ ended ⟨_, rfl, rfl, _⟩
  apply Reads.pure
  intro rest atEnd sees
  simp only [List.nil_append, true_and] at atEnd sees
  simp [atEnd, sees]

theorem skipToBoundary_suffix (dropped : Token) (tokens : List Token) :
    skipToBoundary dropped tokens <:+ tokens := by
  induction tokens generalizing dropped with
  | nil => exact List.suffix_refl _
  | cons next rest ih =>
    unfold skipToBoundary
    split
    · exact List.suffix_refl _
    · exact (ih next).trans (List.suffix_cons next rest)

/-- After a fault the token at hand is dropped, unless there is none. -/
theorem synchronize_moves (reader : Reader) :
    ∃ dropped, reader.Moves true dropped reader.synchronize ∧
      (dropped = [] → reader.synchronize.upcoming = []) := by
  obtain ⟨upcoming, finish, faults⟩ := reader
  cases upcoming with
  | nil => exact ⟨[], .refl _, fun _ => rfl⟩
  | cons first rest =>
    obtain ⟨skipped, same⟩ := skipToBoundary_suffix first rest
    refine ⟨first :: skipped, ⟨?_, rfl, rfl⟩, by simp⟩
    simp [Reader.synchronize, same]

theorem reads_recovering {action : Parse α} {form : Form α} (reads : Reads action Deep form)
    (progress : ∀ clean taken value rest, form clean taken value rest → taken ≠ []) :
    Reads (recovering action) Deep fun clean taken value rest => (taken = [] → rest = []) ∧
      (clean = true → ∃ read, value = some read ∧ form true taken read rest) := by
  intro reader
  have outcome := reads reader
  unfold recovering
  generalize action reader = result at outcome ⊢
  rcases result with ⟨value, after⟩ | ⟨_ | _, after⟩
  · obtain ⟨clean, taken, moved, formed⟩ := outcome
    refine ⟨clean, taken, moved, fun nothing => absurd nothing (progress _ _ _ _ formed), ?_⟩
    rintro rfl
    exact ⟨value, rfl, formed⟩
  · obtain ⟨taken, moved⟩ := outcome
    obtain ⟨dropped, moves, stuck⟩ := synchronize_moves after
    refine ⟨false, taken ++ dropped, moved.trans moves, fun nothing => stuck ?_, by simp⟩
    exact (List.append_eq_nil_iff.mp nothing).2
  · exact outcome

end Parse

end Lox
