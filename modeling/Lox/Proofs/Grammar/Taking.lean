import Lox.Proofs.Grammar.Lists

/-!
Actions that take exactly given tokens, whatever follows them, as long as that cannot be taken for a
continuation. Such an action needs some room for nesting, which depends on the tokens alone: it either has
it whatever follows, or lacks it whatever follows.
-/
namespace Lox.Parse

variable {α β : Type} {Follow : List Token → Prop} {taken : List Token} {value : α}

/-- The action reads the tokens as the value, without a fault. -/
def TakesAll (action : Parse α) (Follow : List Token → Prop) (taken : List Token) (value : α) : Prop :=
  ∀ rest finish faults, Follow rest →
    action ⟨taken ++ rest, finish, faults⟩ = .ok value ⟨rest, finish, faults⟩

/-- The action lacks room for the tokens. -/
def Overruns (action : Parse α) (Follow : List Token → Prop) (taken : List Token) : Prop :=
  ∀ rest finish faults, Follow rest → ∃ after, action ⟨taken ++ rest, finish, faults⟩ = .error .tooDeep after

def Takes (action : Parse α) (Follow : List Token → Prop) (taken : List Token) (value : α) : Prop :=
  TakesAll action Follow taken value ∨ Overruns action Follow taken

namespace Takes

variable {action : Parse α}

theorem weaken {Fewer : List Token → Prop} (takes : Takes action Follow taken value)
    (fewer : ∀ rest, Fewer rest → Follow rest) : Takes action Fewer taken value := by
  rcases takes with takes | overruns
  · exact .inl fun rest finish faults follows => takes rest finish faults (fewer rest follows)
  · exact .inr fun rest finish faults follows => overruns rest finish faults (fewer rest follows)

theorem pure (value : α) : Takes (Pure.pure value) Follow [] value := .inl fun _ _ _ _ => rfl

theorem tooDeep : Takes Parse.tooDeep Follow taken value := .inr fun _ _ _ _ => ⟨_, rfl⟩

/-- One action after the other; what the second one takes has to be able to follow the first one. -/
theorem bind {First : List Token → Prop} {next : α → Parse β} {then_ : List Token} {result : β}
    (takes : Takes action First taken value) (continues : Takes (next value) Follow then_ result)
    (follows : ∀ rest, Follow rest → First (then_ ++ rest)) :
    Takes (action >>= next) Follow (taken ++ then_) result := by
  rcases takes with takes | overruns
  · have runs (rest : List Token) (finish : Token) (faults : Array (Located SyntaxFault))
        (following : Follow rest) : (action >>= next) ⟨taken ++ then_ ++ rest, finish, faults⟩ =
          next value ⟨then_ ++ rest, finish, faults⟩ := by
      rw [List.append_assoc]
      simp only [Bind.bind, EStateM.bind, takes _ finish faults (follows rest following)]
    rcases continues with continues | overruns
    · exact .inl fun rest finish faults following =>
        (runs rest finish faults following).trans (continues rest finish faults following)
    · refine .inr fun rest finish faults following => ?_
      rw [runs rest finish faults following]
      exact overruns rest finish faults following
  · refine .inr fun rest finish faults following => ?_
    obtain ⟨after, same⟩ := overruns (then_ ++ rest) finish faults (follows rest following)
    rw [List.append_assoc]
    simp only [Bind.bind, EStateM.bind, same]
    exact ⟨after, rfl⟩

theorem map {f : α → β} (takes : Takes action Follow taken value) :
    Takes (f <$> action) Follow taken (f value) := by
  rcases takes with takes | overruns
  · refine .inl fun rest finish faults following => ?_
    simp only [Functor.map, EStateM.map, takes rest finish faults following]
  · refine .inr fun rest finish faults following => ?_
    obtain ⟨after, same⟩ := overruns rest finish faults following
    simp only [Functor.map, EStateM.map, same]
    exact ⟨after, rfl⟩

/-- One action after the other, where anything may follow the first one. -/
theorem andThen {next : α → Parse β} {then_ : List Token} {result : β}
    (takes : Takes action (fun _ => True) taken value) (continues : Takes (next value) Follow then_ result) :
    Takes (action >>= next) Follow (taken ++ then_) result :=
  Takes.bind takes continues fun _ _ => trivial

/-- One action after the other, where the second one takes nothing. -/
theorem last {next : α → Parse β} {result : β} (takes : Takes action Follow taken value)
    (continues : Takes (next value) Follow [] result) : Takes (action >>= next) Follow taken result := by
  simpa using Takes.bind takes continues fun _ following => following

end Takes

section Steps

variable {kind : TokenKind} {result : β}

/-- Where an action goes on as another one, it takes what that one takes. -/
theorem Takes.of_eq {action other : Parse α} {fewer : List Token}
    (same : ∀ rest finish faults, Follow rest →
      action ⟨taken ++ rest, finish, faults⟩ = other ⟨fewer ++ rest, finish, faults⟩)
    (takes : Takes other Follow fewer value) : Takes action Follow taken value := by
  rcases takes with takes | overruns
  · exact .inl fun rest finish faults following =>
      (same rest finish faults following).trans (takes rest finish faults following)
  · refine .inr fun rest finish faults following => ?_
    rw [same rest finish faults following]
    exact overruns rest finish faults following

theorem accept_other {rest : List Token} (different : headKind rest ≠ some kind) (finish : Token)
    (faults : Array (Located SyntaxFault)) :
    accept kind ⟨rest, finish, faults⟩ = .ok none ⟨rest, finish, faults⟩ := by
  cases rest with
  | nil => rfl
  | cons token rest =>
    have other : token.kind ≠ kind := by simpa using different
    simp [accept, other]

theorem takes_found {token : Token} {next : Option Token → Parse β} (same : token.kind = kind)
    (continues : Takes (next (some token)) Follow taken result) :
    Takes (accept kind >>= next) Follow (token :: taken) result := by
  refine Takes.of_eq (fun rest finish faults _ => ?_) continues
  simp [Bind.bind, EStateM.bind, accept, same]

theorem takes_other {next : Option Token → Parse β}
    (different : ∀ rest, Follow rest → headKind (taken ++ rest) ≠ some kind)
    (continues : Takes (next none) Follow taken result) :
    Takes (accept kind >>= next) Follow taken result := by
  refine Takes.of_eq (fun rest finish faults following => ?_) continues
  simp only [Bind.bind, EStateM.bind, accept_other (different rest following)]

theorem takes_expect {token : Token} {what : String} {next : Token → Parse β} (same : token.kind = kind)
    (continues : Takes (next token) Follow taken result) :
    Takes (expect kind what >>= next) Follow (token :: taken) result := by
  refine Takes.of_eq (fun rest finish faults _ => ?_) continues
  simp [Bind.bind, EStateM.bind, expect, accept, same, Pure.pure, EStateM.pure]

theorem takes_expected {token : Token} {what : String} (same : token.kind = kind) :
    Takes (expect kind what) Follow [token] token := by
  refine .inl fun rest finish faults _ => ?_
  simp [Bind.bind, EStateM.bind, expect, accept, same, Pure.pure, EStateM.pure]

theorem takes_selected {select : TokenKind → Option α} {use : α} {token : Token}
    {next : Option (α × Token) → Parse β} (selected : select token.kind = some use)
    (continues : Takes (next (some (use, token))) Follow taken result) :
    Takes (acceptWhere select >>= next) Follow (token :: taken) result := by
  refine Takes.of_eq (fun rest finish faults _ => ?_) continues
  simp [Bind.bind, EStateM.bind, acceptWhere, selected]

theorem takes_unselected {select : TokenKind → Option α} {next : Option (α × Token) → Parse β}
    (different : ∀ rest kind, Follow rest → headKind (taken ++ rest) = some kind → select kind = none)
    (continues : Takes (next none) Follow taken result) :
    Takes (acceptWhere select >>= next) Follow taken result := by
  refine Takes.of_eq (fun rest finish faults following => ?_) continues
  have unselected := different rest
  cases upcoming : taken ++ rest with
  | nil => rfl
  | cons token tokens =>
    have none := unselected token.kind following (by rw [upcoming, headKind_cons])
    simp [Bind.bind, EStateM.bind, acceptWhere, none]

theorem takes_sees {next : Bool → Parse β} (seen : Bool)
    (sees : ∀ rest, Follow rest → (headKind (taken ++ rest) = some kind ↔ seen = true))
    (continues : Takes (next seen) Follow taken result) :
    Takes (Parse.sees kind >>= next) Follow taken result := by
  refine Takes.of_eq (fun rest finish faults following => ?_) continues
  have head := sees rest following
  cases upcoming : taken ++ rest with
  | nil =>
    rw [upcoming, headKind_nil] at head
    have unseen : seen = false := by simpa using head
    simp [Bind.bind, EStateM.bind, Parse.sees, unseen]
  | cons token tokens =>
    rw [upcoming, headKind_cons, Option.some.injEq] at head
    cases seen <;> simp_all [Bind.bind, EStateM.bind, Parse.sees]

end Steps

section Loops

/-- A loop that takes exactly the given tokens and then ends, for every bound that covers what is left. -/
def LoopsAll (step : α → Parse (Option α)) (Follow : List Token → Prop) (start : α) (taken : List Token)
    (value : α) : Prop :=
  ∀ bound rest finish faults, Follow rest → (taken ++ rest).length ≤ bound.length →
    rounds step bound start ⟨taken ++ rest, finish, faults⟩ = .ok value ⟨rest, finish, faults⟩

def LoopOverruns (step : α → Parse (Option α)) (Follow : List Token → Prop) (start : α)
    (taken : List Token) : Prop :=
  ∀ bound rest finish faults, Follow rest → (taken ++ rest).length ≤ bound.length →
    ∃ after, rounds step bound start ⟨taken ++ rest, finish, faults⟩ = .error .tooDeep after

def Loops (step : α → Parse (Option α)) (Follow : List Token → Prop) (start : α) (taken : List Token)
    (value : α) : Prop :=
  LoopsAll step Follow start taken value ∨ LoopOverruns step Follow start taken

variable {step : α → Parse (Option α)} {start : α}

theorem Loops.takes (loops : Loops step Follow start taken value) :
    Takes (repeating start step) Follow taken value := by
  rcases loops with loops | overruns
  · exact .inl fun rest finish faults following => loops _ rest finish faults following (Nat.le_refl _)
  · exact .inr fun rest finish faults following => overruns _ rest finish faults following (Nat.le_refl _)

/-- A loop ends where a round has nothing to give. -/
theorem LoopsAll.done (ends : TakesAll (step start) Follow [] none) : LoopsAll step Follow start [] start := by
  intro bound rest finish faults following _
  cases bound with
  | nil => rfl
  | cons _ bound =>
    have ended := ends rest finish faults following
    simp only [List.nil_append] at ended
    simp only [List.nil_append, rounds, Bind.bind, EStateM.bind, ended]
    rfl

/-- A loop that takes exactly the given tokens and goes on with another value, for every bound that covers
what is left. -/
def PassesAll (step : α → Parse (Option α)) (Follow : List Token → Prop) (start : α) (taken : List Token)
    (value : α) : Prop :=
  ∀ bound rest finish faults, Follow rest → (taken ++ rest).length ≤ bound.length →
    ∃ fewer, rest.length ≤ fewer.length ∧
      rounds step bound start ⟨taken ++ rest, finish, faults⟩ = rounds step fewer value ⟨rest, finish, faults⟩

section Passing

variable {First : List Token → Prop} {middle : α} {then_ : List Token}

theorem TakesAll.passes (takes : TakesAll (step start) First taken (some middle)) (progress : taken ≠ []) :
    PassesAll step First start taken middle := by
  intro bound rest finish faults following enough
  have positive := List.length_pos_iff.mpr progress
  rw [List.length_append] at enough
  cases bound with
  | nil => simp only [List.length_nil] at enough; omega
  | cons _ bound =>
    refine ⟨bound, ?_, ?_⟩
    · simp only [List.length_cons] at enough
      omega
    · simp only [rounds, Bind.bind, EStateM.bind, takes rest finish faults following]

theorem Overruns.loop (overruns : Overruns (step start) First taken) (progress : taken ≠ []) :
    LoopOverruns step First start taken := by
  intro bound rest finish faults following enough
  obtain ⟨after, same⟩ := overruns rest finish faults following
  have positive := List.length_pos_iff.mpr progress
  rw [List.length_append] at enough
  cases bound with
  | nil => simp only [List.length_nil] at enough; omega
  | cons _ bound =>
    simp only [rounds, Bind.bind, EStateM.bind, same]
    exact ⟨after, rfl⟩

theorem LoopOverruns.append (overruns : LoopOverruns step First start taken)
    (follows : ∀ rest, Follow rest → First (then_ ++ rest)) : LoopOverruns step Follow start (taken ++ then_) := by
  intro bound rest finish faults following enough
  rw [List.append_assoc] at enough ⊢
  exact overruns bound (then_ ++ rest) finish faults (follows rest following) enough

namespace PassesAll

theorem refl (start : α) : PassesAll step Follow start [] start :=
  fun bound _ _ _ _ enough => ⟨bound, enough, rfl⟩

variable (passes : PassesAll step First start taken middle) (follows : ∀ rest, Follow rest → First (then_ ++ rest))

include passes follows

/-- What is left for the rounds to come. -/
theorem resume {bound rest : List Token} (finish : Token) (faults : Array (Located SyntaxFault)) (following : Follow rest)
    (enough : (taken ++ then_ ++ rest).length ≤ bound.length) :
    ∃ fewer, (then_ ++ rest).length ≤ fewer.length ∧
      rounds step bound start ⟨taken ++ then_ ++ rest, finish, faults⟩ =
        rounds step fewer middle ⟨then_ ++ rest, finish, faults⟩ := by
  rw [List.append_assoc] at enough ⊢
  exact passes bound (then_ ++ rest) finish faults (follows rest following) enough

theorem trans (later : PassesAll step Follow middle then_ value) :
    PassesAll step Follow start (taken ++ then_) value := by
  intro bound rest finish faults following enough
  obtain ⟨fewer, still, same⟩ := passes.resume follows finish faults following enough
  rw [same]
  exact later fewer rest finish faults following still

theorem loops (later : LoopsAll step Follow middle then_ value) :
    LoopsAll step Follow start (taken ++ then_) value := by
  intro bound rest finish faults following enough
  obtain ⟨fewer, still, same⟩ := passes.resume follows finish faults following enough
  rw [same]
  exact later fewer rest finish faults following still

omit follows in
theorem ending (follows : ∀ rest, Follow rest → First rest) (ends : TakesAll (step middle) Follow [] none) :
    LoopsAll step Follow start taken middle := by
  have whole : LoopsAll step Follow start (taken ++ []) middle := passes.loops follows (LoopsAll.done ends)
  rwa [List.append_nil] at whole

theorem overruns (later : LoopOverruns step Follow middle then_) :
    LoopOverruns step Follow start (taken ++ then_) := by
  intro bound rest finish faults following enough
  obtain ⟨fewer, still, same⟩ := passes.resume follows finish faults following enough
  rw [same]
  exact later fewer rest finish faults following still

end PassesAll

theorem Loops.more (First : List Token → Prop) (takes : Takes (step start) First taken (some middle))
    (progress : taken ≠ []) (continues : Loops step Follow middle then_ value)
    (follows : ∀ rest, Follow rest → First (then_ ++ rest)) : Loops step Follow start (taken ++ then_) value := by
  rcases takes with takes | overruns
  · rcases continues with continues | overruns
    · exact .inl ((takes.passes progress).loops follows continues)
    · exact .inr ((takes.passes progress).overruns follows overruns)
  · exact .inr ((overruns.loop progress).append follows)

end Passing

end Loops

section Lists

open Grammar

variable {Item : List Token → α → Prop} {tokens : List Token} {items : List α} {First : List Token → Prop}

/-- What may stand before an item may stand before items. -/
theorem first_of_many {rest : List Token} (starts : ∀ taken item rest, Item taken item → First (taken ++ rest))
    (many : Many Item tokens items) (following : First rest) : First (tokens ++ rest) := by
  cases many with
  | nil => exact following
  | cons head _ =>
    rw [List.append_assoc]
    exact starts _ _ _ head

/-- A loop that puts items in front of those it has. `Allowed` is what a round needs of their number. -/
theorem loops_many {step : List α → Parse (Option (List α))} (Allowed : Nat → Prop)
    (steps : ∀ collected taken item, Allowed collected.length → Item taken item →
      Takes (step collected) First taken (some (item :: collected)))
    (present : ∀ taken item, Item taken item → taken ≠ [])
    (starts : ∀ taken item rest, Item taken item → First (taken ++ rest))
    (ends : ∀ collected, TakesAll (step collected) Follow [] none) (follows : ∀ rest, Follow rest → First rest)
    (many : Many Item tokens items) (collected : List α)
    (allowed : ∀ count, count < collected.length + items.length → Allowed count) :
    Loops step Follow collected tokens (items.reverse ++ collected) := by
  induction many generalizing collected with
  | nil => exact .inl (LoopsAll.done (ends collected))
  | @cons first rest item items head tail ih =>
    simp only [List.length_cons] at allowed
    have later := ih (item :: collected) fun count below => allowed count (by
      simp only [List.length_cons] at below
      omega)
    rw [List.reverse_cons, List.append_assoc]
    exact Loops.more First (steps collected first item (allowed _ (by omega)) head) (present first item head)
      later fun left following => first_of_many starts tail (follows left following)

theorem takes_commaSeparated {item : Parse α} {tooMany : SyntaxFault}
    (takes : ∀ taken value, Item taken value → Takes item First taken value)
    (commas : ∀ comma rest, comma.kind = .comma → First (comma :: rest))
    (follows : ∀ rest, Follow rest → First rest ∧ headKind rest ≠ some .comma)
    (separated : Separated Item tokens items) (few : items.length ≤ maxArguments) :
    Takes (commaSeparated item tooMany) Follow tokens items := by
  obtain ⟨first, rest, value, others, rfl, rfl, head, many⟩ := separated.uncons
  have result : value :: others = (others.reverse ++ [value]).reverse := by simp
  rw [result]
  refine Takes.bind (takes first value head) (Takes.last (Loops.takes ?_) (Takes.pure _)) ?_
  · refine loops_many (· < maxArguments) ?steps ?present ?starts ?ends
      (fun rest following => (follows rest following).1) many [value] ?allowed
    case steps =>
      rintro collected _ next allowed ⟨comma, tokens, rfl, sign, derived⟩
      apply takes_found sign
      simp only [Nat.not_le.mpr allowed, if_false]
      exact Takes.last (takes tokens next derived) (Takes.pure _)
    case present =>
      rintro _ _ ⟨comma, tokens, rfl, _⟩
      simp
    case starts =>
      rintro _ _ rest ⟨comma, tokens, rfl, sign, _⟩
      exact commas comma _ sign
    case ends =>
      intro collected rest finish faults following
      simp only [List.nil_append, Bind.bind, EStateM.bind, accept_other (follows rest following).2]
      rfl
    case allowed =>
      intro count below
      simp only [List.length_cons, List.length_nil] at few below
      omega
  · intro left following
    cases many with
    | nil => exact (follows left following).1
    | cons next _ =>
      obtain ⟨comma, tokens, rfl, sign, _⟩ := next
      exact commas comma _ sign

theorem takes_parenthesized {item : Parse α} {tooMany : SyntaxFault} {close : String} {closing : Token}
    (takes : ∀ taken value, Item taken value → Takes item First taken value)
    (starts : ∀ taken value rest, Item taken value → headKind (taken ++ rest) ≠ some .rightParen)
    (ends : ∀ rest, headKind rest = some .comma ∨ headKind rest = some .rightParen → First rest)
    (listing : Listing Item tokens items) (closes : closing.kind = .rightParen) :
    Takes (parenthesized item tooMany close) Follow (tokens ++ [closing]) (items, closing) := by
  cases listing with
  | none =>
    refine takes_sees true (fun rest _ => by simp [closes]) ?_
    simp only [if_true, pure_bind]
    exact takes_expect closes (Takes.pure _)
  | some separated few =>
    have listed : Takes (commaSeparated item tooMany) (headKind · = some .rightParen) tokens items := by
      refine takes_commaSeparated takes (fun comma rest sign => ends _ (.inl (by simp [sign])))
        (fun rest closed => ⟨ends rest (.inr closed), by simp [closed]⟩) separated few
    refine takes_sees false (fun rest _ => ?_) ?_
    · obtain ⟨first, others, value, _, rfl, _, head, _⟩ := separated.uncons
      have other := starts first value (others ++ [closing] ++ rest) head
      simpa [List.append_assoc] using other
    · simp only [Bool.false_eq_true, if_false]
      exact Takes.bind listed (takes_expect closes (Takes.pure _)) fun rest _ => by simp [closes]

/-- A round of collecting items. -/
def collectStep (done : Parse Bool) (item : Parse (Option α)) (items : List α) : Parse (Option (List α)) := do
  if ← done then return none
  match ← item with
  | none => return some items
  | some value => return some (value :: items)

theorem collectStep_item {done : Parse Bool} {item : Parse (Option α)} {reader : Reader}
    (more : done reader = .ok false reader) (collected : List α) :
    collectStep done item collected reader = (do
      match ← item with
      | none => return some collected
      | some value => return some (value :: collected)) reader := by
  simp only [collectStep, Bind.bind, EStateM.bind, more]
  rfl

theorem collect_eq (done : Parse Bool) (item : Parse (Option α)) :
    collect done item = repeating [] (collectStep done item) >>= fun items => pure items.reverse := rfl

section Collecting

variable {done : Parse Bool} {item : Parse (Option α)} (isDone : List Token → Bool)
  (looks : ∀ reader, done reader = .ok (isDone reader.upcoming) reader)
  (takes : ∀ taken value, Item taken value → Takes item First taken (some value))
  (present : ∀ taken value, Item taken value → taken ≠ [])
  (starts : ∀ taken value rest, Item taken value → First (taken ++ rest) ∧ isDone (taken ++ rest) = false)

include looks

theorem takesAll_collectStep_done (ended : ∀ rest, Follow rest → isDone rest = true) (collected : List α) :
    TakesAll (collectStep done item collected) Follow [] none := by
  intro rest finish faults following
  simp only [collectStep, List.nil_append, Bind.bind, EStateM.bind, looks, ended rest following]
  rfl

include takes starts

/-- Whether there is room for an item does not depend on the items before it. -/
theorem takes_collectStep {taken : List Token} {value : α} (derived : Item taken value) :
    (∀ collected, TakesAll (collectStep done item collected) First taken (some (value :: collected))) ∨
      ∀ collected, Overruns (collectStep done item collected) First taken := by
  have goesOn (rest : List Token) (finish : Token) (faults : Array (Located SyntaxFault)) :
      done ⟨taken ++ rest, finish, faults⟩ = .ok false ⟨taken ++ rest, finish, faults⟩ := by
    rw [looks, (starts taken value rest derived).2]
  rcases takes taken value derived with takes | overruns
  · refine .inl fun collected rest finish faults following => ?_
    rw [collectStep_item (goesOn rest finish faults)]
    simp only [Bind.bind, EStateM.bind, takes rest finish faults following]
    rfl
  · refine .inr fun collected rest finish faults following => ?_
    obtain ⟨after, same⟩ := overruns rest finish faults following
    rw [collectStep_item (goesOn rest finish faults)]
    simp only [Bind.bind, EStateM.bind, same]
    exact ⟨after, rfl⟩

include present

theorem passes_collect (many : Many Item tokens items) :
    (∀ collected, PassesAll (collectStep done item) First collected tokens (items.reverse ++ collected)) ∨
      ∀ collected, LoopOverruns (collectStep done item) First collected tokens := by
  induction many with
  | nil => exact .inl PassesAll.refl
  | @cons first rest value items head tail ih =>
    have follows : ∀ left, First left → First (rest ++ left) := fun left =>
      first_of_many (fun taken value rest derived => (starts taken value rest derived).1) tail
    have progress := present first value head
    rcases takes_collectStep isDone looks takes starts head with takes | overruns
    · rcases ih with passes | overruns
      · refine .inl fun collected => ?_
        rw [List.reverse_cons, List.append_assoc]
        exact ((takes collected).passes progress).trans follows (passes (value :: collected))
      · exact .inr fun collected => ((takes collected).passes progress).overruns follows (overruns _)
    · exact .inr fun collected => ((overruns collected).loop progress).append follows

/-- Items up to a place that is recognised without taking anything. -/
theorem takes_collect (follows : ∀ rest, Follow rest → First rest ∧ isDone rest = true)
    (many : Many Item tokens items) : Takes (collect done item) Follow tokens items := by
  have result : items = (items.reverse ++ []).reverse := by simp
  have ended : ∀ rest, Follow rest → isDone rest = true := fun rest following => (follows rest following).2
  rw [result]
  refine Takes.last (Loops.takes ?_) (Takes.pure _)
  rcases passes_collect isDone looks takes present starts many with passes | overruns
  · exact .inl ((passes []).ending (fun rest following => (follows rest following).1)
      (takesAll_collectStep_done isDone looks ended _))
  · exact .inr fun bound rest finish faults following =>
      overruns [] bound rest finish faults (follows rest following).1

end Collecting

theorem looks_untilBrace (reader : Reader) :
    (return (← sees .rightBrace) || (← atEnd) : Parse Bool) reader =
      .ok (headKind reader.upcoming = some .rightBrace || reader.upcoming.isEmpty) reader := by
  obtain ⟨_ | ⟨token, rest⟩, finish, faults⟩ := reader
  · rfl
  · simp [Bind.bind, EStateM.bind, sees, atEnd, Pure.pure, EStateM.pure]

theorem takes_untilBrace {item : Parse (Option α)}
    (takes : ∀ taken value, Item taken value → Takes item First taken (some value))
    (present : ∀ taken value, Item taken value → taken ≠ [])
    (starts : ∀ taken value rest, Item taken value →
      First (taken ++ rest) ∧ headKind (taken ++ rest) ≠ some .rightBrace)
    (ends : ∀ rest, headKind rest = some .rightBrace → First rest) (many : Many Item tokens items) :
    Takes (untilBrace item) (headKind · = some .rightBrace) tokens items := by
  refine takes_collect (fun rest => headKind rest = some .rightBrace || rest.isEmpty) looks_untilBrace takes present
    (fun taken value rest derived => ⟨(starts taken value rest derived).1, ?_⟩)
    (fun rest closed => ⟨ends rest closed, by simp [closed]⟩) many
  have other := (starts taken value rest derived).2
  have nonempty := present taken value derived
  simp [other, nonempty]

theorem takes_recovering {action : Parse α} (takes : Takes action Follow taken value) :
    Takes (recovering action) Follow taken (some value) := by
  rcases takes with takes | overruns
  · refine .inl fun rest finish faults following => ?_
    simp only [recovering, takes rest finish faults following]
  · refine .inr fun rest finish faults following => ?_
    obtain ⟨after, same⟩ := overruns rest finish faults following
    simp only [recovering, same]
    exact ⟨after, rfl⟩

end Lists

end Lox.Parse
