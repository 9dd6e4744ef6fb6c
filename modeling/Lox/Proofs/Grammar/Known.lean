import Lox.Proofs.Grammar.Lists

/-!
What is known while tokens are read. A form tells what one action makes of its tokens, and promises nothing after a
fault; here an action is looked at as adding to what is known of all that was read before it. Nothing that is known is
lost as reading goes on, so that it is still there where a fault was recorded, or where reading has resumed after one.
-/
namespace Lox

/-- What is known of all that was read so far, by whether it was clean and which tokens it took. It stays known
however reading goes on. -/
structure Known where
  Holds : Bool → List Token → Prop
  lasts {clean : Bool} {taken : List Token} (more : Bool) (then_ : List Token) (holds : Holds clean taken) :
    Holds (clean && more) (taken ++ then_)

namespace Known

/-- Something that has nothing to do with reading. -/
def fact (fact : Prop) : Known := ⟨fun _ _ => fact, fun _ _ => id⟩

/-- Something that holds as long as there was no fault. -/
def ifClean (fact : Prop) : Known where
  Holds clean _ := clean = true → fact
  lasts _ _ holds isClean := holds (Bool.and_eq_true_iff.mp isClean).1

def and (first second : Known) : Known where
  Holds clean taken := first.Holds clean taken ∧ second.Holds clean taken
  lasts more then_ holds := ⟨first.lasts more then_ holds.1, second.lasts more then_ holds.2⟩

variable {known : Known} {clean : Bool} {taken : List Token} {token : Token}

/-- The token was taken after all that is known. -/
def past (known : Known) (token : Token) : Known where
  Holds clean taken := ∃ before after, taken = before ++ token :: after ∧ known.Holds clean before
  lasts := by
    rintro clean _ more then_ ⟨before, after, rfl, holds⟩
    refine ⟨before, after ++ then_, by simp, ?_⟩
    simpa using known.lasts more [] holds

theorem of_past (holds : (known.past token).Holds clean taken) : known.Holds clean taken := by
  obtain ⟨before, after, rfl, holds⟩ := holds
  simpa using known.lasts true (token :: after) holds

end Known

namespace Parse

variable {α β : Type}

/-- Where the one is known before the action, the other is known after it. -/
def Leads (before : Known) (action : Parse α) (after : α → Known) : Prop :=
  ∀ clean taken, before.Holds clean taken →
    Reads action (fun _ => True) fun more then_ value _ => (after value).Holds (clean && more) (taken ++ then_)

namespace Leads

variable {before : Known} {action : Parse α} {middle : α → Known} {after : β → Known}

theorem pure {value : β} (holds : ∀ clean taken, before.Holds clean taken → (after value).Holds clean taken) :
    Leads before (Pure.pure value) after := by
  intro clean taken known
  exact Reads.pure fun _ => by simpa using holds clean taken known

theorem bind {next : α → Parse β} (first : Leads before action middle)
    (continues : ∀ value, Leads (middle value) (next value) after) : Leads before (action >>= next) after := by
  intro clean taken known
  apply Reads.bind (first clean taken known)
  rintro more then_ value ⟨_, later⟩
  refine (continues value _ _ later).weaken (fun _ => id) ?_
  intro further last result _ holds _
  simpa [Bool.and_assoc] using holds

theorem map {f : α → β} (first : Leads before action middle)
    (holds : ∀ value clean taken, (middle value).Holds clean taken → (after (f value)).Holds clean taken) :
    Leads before (f <$> action) after := by
  rw [map_eq_pure_bind]
  exact first.bind fun value => .pure (holds value)

theorem of_fact {fact : Prop} (leads : fact → Leads before action middle) :
    Leads ((Known.fact fact).and before) action middle :=
  fun clean taken known => leads known.1 clean taken known.2

theorem of_implies {earlier : Known} (leads : Leads before action middle)
    (implies : ∀ clean taken, earlier.Holds clean taken → before.Holds clean taken) : Leads earlier action middle :=
  fun clean taken known => leads clean taken (implies clean taken known)

theorem of_past {token : Token} (leads : Leads before action middle) : Leads (before.past token) action middle :=
  leads.of_implies fun _ _ => Known.of_past

/-- What is known besides stays known. -/
theorem and (leads : Leads before action middle) (other : Known) :
    Leads (before.and other) action fun value => (middle value).and other := by
  intro clean taken known
  refine (leads clean taken known.1).weaken (fun _ => id) fun more then_ value _ holds => ?_
  exact ⟨holds, other.lasts more then_ known.2⟩

theorem of_left {other : Known} (leads : Leads before action middle) : Leads (before.and other) action middle :=
  leads.of_implies fun _ _ => And.left

/-- An action that takes nothing and records nothing. -/
theorem of_silent {form : Form α} (reads : Reads action (fun _ => True) form)
    (silent : ∀ clean taken value rest, form clean taken value rest → clean = true ∧ taken = []) :
    Leads before action fun _ => before := by
  intro clean taken known
  refine reads.weaken (fun _ => id) fun more then_ value rest formed => ?_
  obtain ⟨rfl, rfl⟩ := silent _ _ _ _ formed
  simpa using known

end Leads

section Steps

variable {before : Known} {after : β → Known} {kind : TokenKind}

theorem leads_tooDeep : Leads before tooDeep after := fun _ _ _ => reads_tooDeep _ fun _ => trivial

theorem leads_refuse (cause : SyntaxFault) : Leads before (refuse cause) after := fun _ _ _ => reads_refuse _ _

theorem leads_sees (kind : TokenKind) : Leads before (sees kind) fun _ => before :=
  .of_silent (reads_sees kind) fun _ _ _ _ formed => ⟨formed.1, formed.2.1⟩

theorem leads_atEnd : Leads before atEnd fun _ => before :=
  .of_silent reads_atEnd fun _ _ _ _ formed => ⟨formed.1, formed.2.1⟩

theorem leads_complain (token : Token) (cause : SyntaxFault) :
    Leads before (complain token cause) fun _ => before := by
  intro clean taken known
  refine (reads_complain token cause).weaken (fun _ => id) ?_
  rintro _ _ _ _ ⟨rfl, rfl⟩
  exact before.lasts false [] known

/-- A fault at the token at hand is one more thing that makes reading unclean. -/
theorem leads_complainHere (cause : SyntaxFault) :
    Leads before (complainHere cause) fun _ => before.and (.ifClean False) := by
  intro clean taken known
  refine (reads_complainHere cause).weaken (fun _ => id) ?_
  rintro _ _ _ _ ⟨rfl, rfl⟩
  exact ⟨before.lasts false [] known, by simp [Known.ifClean]⟩

/-- A choice by the token at hand, which is taken if it is of the kind asked for. -/
theorem leads_choice_past {next : Option Token → Parse β}
    (found : ∀ token : Token, token.kind = kind → Leads (before.past token) (next (some token)) after)
    (other : Leads before (next none) after) : Leads before (accept kind >>= next) after := by
  intro clean taken known
  apply Reads.bind (reads_accept kind)
  rintro _ _ _ ⟨_, rfl, ⟨rfl, rfl, _⟩ | ⟨token, rfl, rfl, same⟩⟩
  · refine (other clean taken known).weaken (fun _ => id) fun more then_ value rest holds _ => ?_
    simpa using holds
  · have past : (before.past token).Holds clean (taken ++ [token]) := ⟨taken, [], rfl, known⟩
    refine (found token same clean _ past).weaken (fun _ => id) fun more then_ value rest holds _ => ?_
    simpa using holds

theorem leads_choice {next : Option Token → Parse β}
    (found : ∀ token : Token, token.kind = kind → Leads before (next (some token)) after)
    (other : Leads before (next none) after) : Leads before (accept kind >>= next) after :=
  leads_choice_past (fun token same => (found token same).of_past) other

/-- A choice by what there is to do with the token at hand. -/
theorem leads_selected {select : TokenKind → Option α} {next : Option (α × Token) → Parse β}
    (found : ∀ use (token : Token), select token.kind = some use → Leads before (next (some (use, token))) after)
    (other : Leads before (next none) after) : Leads before (acceptWhere select >>= next) after := by
  intro clean taken known
  apply Reads.bind (reads_acceptWhere select)
  rintro _ _ _ ⟨_, rfl, ⟨rfl, rfl⟩ | ⟨use, token, rfl, rfl, selected⟩⟩
  · refine (other clean taken known).weaken (fun _ => id) fun more then_ value rest holds _ => ?_
    simpa using holds
  · have longer := before.lasts true [token] known
    refine (found use token selected _ _ longer).weaken (fun _ => id) fun more then_ value rest holds _ => ?_
    simpa using holds

/-- A token that has to be there. -/
theorem leads_expect_past {what : String} {next : Token → Parse β}
    (found : ∀ token : Token, token.kind = kind → Leads (before.past token) (next token) after) :
    Leads before (expect kind what >>= next) after := by
  unfold expect
  rw [bind_assoc]
  refine leads_choice_past (fun token same => ?_) ?_
  · rw [pure_bind]
    exact found token same
  · have stops : Leads before (refuse (.expected what) : Parse Token) fun _ => .fact False := leads_refuse _
    exact stops.bind fun _ _ _ never => False.elim never

theorem leads_expect {what : String} {next : Token → Parse β}
    (found : ∀ token : Token, token.kind = kind → Leads before (next token) after) :
    Leads before (expect kind what >>= next) after :=
  leads_expect_past fun token same => (found token same).of_past

/-- Something that is left out where the token that would end it is at hand. -/
theorem leads_unless {absent : α} {action : Parse α} {next : α → Parse β} {middle : α → Known}
    (first : Leads before action middle)
    (nothing : ∀ clean taken, before.Holds clean taken → (middle absent).Holds clean taken)
    (continues : ∀ value, Leads (middle value) (next value) after) :
    Leads before (sees kind >>= fun seen => if seen = true then pure absent >>= next else action >>= next) after := by
  refine (leads_sees kind).bind fun seen => ?_
  cases seen
  · exact first.bind continues
  · rw [if_pos rfl, pure_bind]
    exact (continues absent).of_implies nothing

/-- Something that is there only after a token that announces it. -/
theorem leads_announced {absent : α} {action : Parse α} {next : α → Parse β} {middle : α → Known}
    (first : Leads before action middle)
    (nothing : ∀ clean taken, before.Holds clean taken → (middle absent).Holds clean taken)
    (continues : ∀ value, Leads (middle value) (next value) after) :
    Leads before (accept kind >>= fun found => match found with
      | none => pure absent >>= next
      | some _ => action >>= next) after := by
  refine leads_choice (fun _ _ => first.bind continues) ?_
  simp only [pure_bind]
  exact (continues absent).of_implies nothing

/-- Where the action stops at a fault, nothing is read, and what was known before is still known. -/
theorem leads_recovering {action : Parse α} {found : α → Known} (leads : Leads before action found) :
    Leads before (recovering action) fun value => value.elim before found := by
  intro clean taken known reader
  have outcome := leads clean taken known reader
  unfold recovering
  generalize action reader = result at outcome ⊢
  rcases result with ⟨value, after⟩ | ⟨_ | _, after⟩
  · exact outcome
  · obtain ⟨then_, moved⟩ := outcome
    obtain ⟨dropped, moves, _⟩ := synchronize_moves after
    exact ⟨false, then_ ++ dropped, moved.trans moves, before.lasts false _ known⟩
  · exact outcome

end Steps

section Lists

variable {step : α → Parse (Option α)}

private theorem leads_rounds {known : α → Known}
    (steps : ∀ value, Leads (known value) (step value) fun result => result.elim (known value) known)
    (bound : List Token) (start : α) : Leads (known start) (rounds step bound start) known := by
  induction bound generalizing start with
  | nil => exact .pure fun _ _ => id
  | cons _ bound ih =>
    refine (steps start).bind fun result => ?_
    cases result with
    | none => exact .pure fun _ _ => id
    | some next => exact ih next

/-- A loop, by what is known before each round. -/
theorem leads_repeating (known : α → Known) {start : α}
    (steps : ∀ value, Leads (known value) (step value) fun result => result.elim (known value) known) :
    Leads (known start) (repeating start step) known :=
  fun clean taken holds reader => leads_rounds steps reader.upcoming start clean taken holds reader

variable (known : List α → Known)

/-- What is known of the items read so far, and of their number. -/
private def counted (known : List α → Known) (read : List α) : Known :=
  (known read).and (.ifClean (read.length ≤ maxArguments))

/-- Items with commas between them, by what is known of those read so far, last one first. -/
theorem leads_commaSeparated {item : Parse α} {tooMany : SyntaxFault}
    (items : ∀ read, Leads (known read) item fun value => known (value :: read)) :
    Leads (known []) (commaSeparated item tooMany) fun items =>
      (known items.reverse).and (.ifClean (items.length ≤ maxArguments)) := by
  refine (items []).bind fun first => ?_
  refine Leads.bind ((leads_repeating (counted known) fun read => ?step).of_implies ?single) fun read => .pure ?last
  case step =>
    refine leads_choice (fun comma _ => ?_) (.pure fun _ _ => id)
    by_cases full : maxArguments ≤ read.length
    · simp only [full, if_true]
      refine .of_left ((leads_complainHere tooMany).bind fun _ => ((items read).and _).bind fun value => .pure ?_)
      exact fun _ _ ⟨holds, faulty⟩ => ⟨holds, fun isClean => (faulty isClean).elim⟩
    · simp only [full, if_false]
      refine .of_left ((items read).bind fun value => .pure fun _ _ holds => ⟨holds, fun _ => ?_⟩)
      rw [List.length_cons]
      omega
  case single => exact fun _ _ holds => ⟨holds, fun _ => by simp [maxArguments]⟩
  case last => exact fun _ _ holds => by simpa [counted] using holds

/-- Items between parentheses, of which the opening one is already taken. -/
theorem leads_parenthesized {item : Parse α} {tooMany : SyntaxFault} {close : String}
    (items : ∀ read, Leads (known read) item fun value => known (value :: read)) :
    Leads (known []) (parenthesized item tooMany close) fun result =>
      (Known.fact (result.2.kind = .rightParen)).and
        ((known result.1.reverse).and (.ifClean (result.1.length ≤ maxArguments))) := by
  refine leads_unless (leads_commaSeparated known items) (fun _ _ holds => ⟨holds, fun _ => Nat.zero_le _⟩)
    fun items => ?_
  exact leads_expect fun paren kind => .pure fun _ _ holds => ⟨kind, holds⟩

/-- Items up to where `done` holds. Nothing is known of an item that comes to nothing. -/
theorem leads_collect {done : Parse Bool} {item : Parse (Option α)} (looks : ∀ known, Leads known done fun _ => known)
    (items : ∀ read, Leads (known read) item fun value => value.elim (known read) fun value => known (value :: read)) :
    Leads (known []) (collect done item) fun items => known items.reverse := by
  refine (leads_repeating known fun read => ?_).bind fun read => .pure ?_
  · refine (looks _).bind fun finished => ?_
    cases finished
    · refine (items read).bind fun value => ?_
      cases value <;> exact .pure fun _ _ => id
    · exact .pure fun _ _ => id
  · exact fun _ _ holds => by rwa [List.reverse_reverse]

theorem leads_untilBrace {item : Parse (Option α)}
    (items : ∀ read, Leads (known read) item fun value => value.elim (known read) fun value => known (value :: read)) :
    Leads (known []) (untilBrace item) fun items => known items.reverse := by
  refine leads_collect known (fun known => ?_) items
  exact (leads_sees .rightBrace).bind fun _ => leads_atEnd.bind fun _ => .pure fun _ _ => id

end Lists

end Parse

end Lox
