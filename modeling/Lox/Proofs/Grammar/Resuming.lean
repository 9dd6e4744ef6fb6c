import Lox.Proofs.Grammar.Inside
import Mathlib.Order.Bounds.Basic

/-!
Where reading goes on after a fault. The token at hand is dropped first, whatever it is, and then all up to the next
boundary; so a keyword at which a fault is seen does not start a statement, while one further on does.
-/
namespace Lox.Parse

/-- Where a statement may start after a fault at an index: at the end, at a keyword that starts one, or past a
semicolon. -/
def Boundary (tokens : List Token) (fault index : Nat) : Prop :=
  index = tokens.length ∨
  (∃ token, tokens[index]? = some token ∧ token.kind.startsStatement = true) ∨
  fault < index ∧ ∃ token, previous? tokens index = some token ∧ token.kind = .semicolon

/-- A declaration without its recovery. -/
def unguarded (room : Nat) : Parse (Stmt Unit) := do
  if (← accept .classWord).isSome then classDeclaration room
  else if (← accept .funWord).isSome then return .funDecl (← function room .function)
  else if (← accept .varWord).isSome then varDeclaration room
  else statement room

variable {tokens : List Token} {finish : Token} {fault index : Nat}

theorem declaration_succ (room : Nat) : declaration (room + 1) = recovering (unguarded room) := by
  rw [declaration]
  rfl

theorem skipToBoundary_drop {rest : List Token} (below : index < tokens.length) (first : fault ≤ index)
    (upcoming : tokens.drop (index + 1) = rest) :
    ∃ next, index < next ∧ next ≤ tokens.length ∧ skipToBoundary tokens[index] rest = tokens.drop next ∧
      Boundary tokens fault next ∧ ∀ between, index < between → between < next → ¬ Boundary tokens fault between := by
  induction rest generalizing index with
  | nil =>
    have last : tokens.length ≤ index + 1 := List.drop_eq_nil_iff.mp upcoming
    refine ⟨index + 1, by omega, by omega, upcoming.symm, .inl (by omega), fun between => ?_⟩
    omega
  | cons head rest ih =>
    have more : index + 1 < tokens.length := by
      have present : tokens.drop (index + 1) ≠ [] := by simp [upcoming]
      simpa [List.drop_eq_nil_iff] using present
    rw [List.drop_eq_getElem_cons more, List.cons.injEq] at upcoming
    obtain ⟨rfl, upcoming⟩ := upcoming
    unfold skipToBoundary
    by_cases stops : (decide (tokens[index].kind = .semicolon) || tokens[index + 1].kind.startsStatement) = true
    · rw [if_pos stops]
      refine ⟨index + 1, by omega, by omega, ?_, ?_, fun between => ?_⟩
      · rw [List.drop_eq_getElem_cons more, upcoming]
      · rw [Bool.or_eq_true, decide_eq_true_eq] at stops
        rcases stops with semicolon | keyword
        · exact .inr (.inr ⟨by omega, _, List.getElem?_eq_getElem below, semicolon⟩)
        · exact .inr (.inl ⟨_, List.getElem?_eq_getElem more, keyword⟩)
      · omega
    · rw [if_neg stops]
      obtain ⟨next, beyond, inside, same, boundary, least⟩ := ih more (by omega) upcoming
      refine ⟨next, by omega, inside, same, boundary, fun between after before => ?_⟩
      rcases Nat.lt_or_eq_of_le (Nat.succ_le_of_lt after) with later | rfl
      · exact least between later before
      -- At the next index there is a token that starts nothing, after one that is no semicolon.
      · rw [Bool.or_eq_true, decide_eq_true_eq, not_or] at stops
        rintro (finished | ⟨token, here, keyword⟩ | ⟨_, token, before, semicolon⟩)
        · omega
        · rw [List.getElem?_eq_getElem more, Option.some.injEq] at here
          exact stops.2 (here ▸ keyword)
        · have here : tokens[index]? = some token := before
          rw [List.getElem?_eq_getElem below, Option.some.injEq] at here
          exact stops.1 (here ▸ semicolon)

theorem Boundary.le_length (boundary : Boundary tokens fault index) : index ≤ tokens.length := by
  rcases boundary with finished | ⟨_, here, _⟩ | ⟨positive, _, before, _⟩
  · exact finished.le
  · exact (List.getElem?_eq_some_iff.mp here).1.le
  · obtain ⟨last, rfl⟩ : ∃ last, index = last + 1 := ⟨index - 1, by omega⟩
    exact (List.getElem?_eq_some_iff.mp before).1

/-- After a fault reading goes on at the first boundary past the token at hand. -/
theorem synchronize_least {reader : Reader} (at_ : reader.At tokens finish index) :
    ∃ next, reader.synchronize.At tokens finish next ∧
      IsLeast {later | (index < later ∨ later = tokens.length) ∧ Boundary tokens index later} next := by
  obtain ⟨dropped, moved, _⟩ := synchronize_moves reader
  have mark : reader.synchronize.finish = finish := moved.finish.trans at_.finish
  rcases Nat.lt_or_eq_of_le at_.inside with below | rfl
  · obtain ⟨next, beyond, inside, same, boundary, least⟩ := skipToBoundary_drop below (Nat.le_refl index) rfl
    refine ⟨next, ⟨inside, (synchronize_at at_ below).trans same, mark⟩, ⟨.inl beyond, boundary⟩, ?_⟩
    rintro later ⟨past, found⟩
    by_contra before
    exact least later (by omega) (by omega) found
  · have nothing : reader.upcoming = [] := by rw [at_.upcoming, List.drop_length]
    have same : reader.synchronize = reader := by rw [Reader.synchronize, nothing]
    refine ⟨tokens.length, by rwa [same], ⟨.inr rfl, .inl rfl⟩, ?_⟩
    rintro later ⟨past | finished, found⟩
    · exact absurd found.le_length (Nat.not_le.mpr past)
    · exact finished.ge

/-- That is the first boundary from the token at hand on, unless that token starts a statement. -/
theorem isLeast_boundary_iff {next : Nat} (inside : index ≤ tokens.length)
    (least : IsLeast {later | (index < later ∨ later = tokens.length) ∧ Boundary tokens index later} next) :
    IsLeast {later | index ≤ later ∧ Boundary tokens index later} next ↔
      ∀ token, tokens[index]? = some token → token.kind.startsStatement = false := by
  obtain ⟨⟨past, boundary⟩, first⟩ := least
  constructor
  · intro claimed token here
    by_contra keyword
    have below : index < tokens.length := (List.getElem?_eq_some_iff.mp here).1
    have earlier : next ≤ index := claimed.2 ⟨Nat.le_refl index, .inr (.inl ⟨token, here, by simpa using keyword⟩)⟩
    omega
  · intro plain
    refine ⟨⟨by omega, boundary⟩, ?_⟩
    rintro later ⟨from_, found⟩
    refine first ⟨?_, found⟩
    rcases Nat.lt_or_eq_of_le from_ with past | rfl
    · exact .inl past
    rcases found with finished | ⟨token, here, keyword⟩ | ⟨never, _⟩
    · exact .inr finished
    · simp [plain token here] at keyword
    · omega

/-- A fault that stops a declaration costs the token at hand too. Reading resumes at the first boundary past it, or
at the end, with the faults seen so far, and the loops over declarations go on from there. This is the first boundary
from the fault on only where the token at hand does not start a statement: one that does is lost, and what it starts
with it. -/
theorem declaration_resumes_past_fault {room : Nat} {reader stopped : Reader}
    (stops : unguarded room reader = .error .fault stopped) (at_ : stopped.At tokens finish index) :
    ∃ resumed next, declaration (room + 1) reader = .ok none resumed ∧ resumed.At tokens finish next ∧
      resumed.faults = stopped.faults ∧
      IsLeast {later | (index < later ∨ later = tokens.length) ∧ Boundary tokens index later} next ∧
      (IsLeast {later | index ≤ later ∧ Boundary tokens index later} next ↔
        ∀ token, tokens[index]? = some token → token.kind.startsStatement = false) ∧
      (reader.upcoming ≠ [] →
        program (room + 1) reader = program (room + 1) resumed ∧
        (reader.current.kind ≠ .rightBrace →
          untilBrace (declaration (room + 1)) reader = untilBrace (declaration (room + 1)) resumed)) := by
  obtain ⟨next, resumes, least⟩ := synchronize_least at_
  have recovers : declaration (room + 1) reader = .ok none stopped.synchronize := by
    rw [declaration_succ, recovering, stops]
  have goesOn {done : Parse Bool} (isDone : List Token → Bool)
      (looks : ∀ reader, done reader = .ok (isDone reader.upcoming) reader) (ended : isDone [] = true)
      (more : isDone reader.upcoming = false) :
      collect done (declaration (room + 1)) reader = collect done (declaration (room + 1)) stopped.synchronize := by
    rw [collect_more isDone looks ended (consumes_declaration _) more]
    simp only [Bind.bind, EStateM.bind, recovers]
    exact congrFun (id_map (collect done (declaration (room + 1)))) _
  refine ⟨stopped.synchronize, next, recovers, resumes, ?_, least, isLeast_boundary_iff at_.inside least,
    fun present => ⟨?_, fun open_ => ?_⟩⟩
  · unfold Reader.synchronize
    split <;> rfl
  · exact goesOn List.isEmpty (fun _ => rfl) rfl (by simpa using present)
  · refine goesOn (fun rest => headKind rest = some .rightBrace || rest.isEmpty) looks_untilBrace rfl ?_
    obtain ⟨_ | ⟨token, rest⟩, mark, faults⟩ := reader
    · exact absurd rfl present
    · have other : token.kind ≠ .rightBrace := open_
      simp [other]

/-- `print nil print true;`, where the fault is seen at the second `print`. -/
theorem declaration_resumes_past_fault_of_prints :
    let at_ (kind : TokenKind) : Token := ⟨kind, kind.name, none, ⟨1, 0⟩⟩
    let tokens := [at_ .printWord, at_ .nilWord, at_ .printWord, at_ .trueWord, at_ .semicolon]
    let start : Reader := ⟨tokens, at_ .eof, #[]⟩
    let stopped : Reader := ⟨tokens.drop 2, at_ .eof, #[⟨.expected "';' after value", at_ .printWord⟩]⟩
    unguarded 71 start = .error .fault stopped ∧ stopped.At tokens (at_ .eof) 2 ∧
    ∃ resumed next, declaration 72 start = .ok none resumed ∧ resumed.At tokens (at_ .eof) next ∧
      IsLeast {later | (2 < later ∨ later = 5) ∧ Boundary tokens 2 later} next ∧
      program 72 start = program 72 resumed := by
  intro at_ tokens start stopped
  have stops : unguarded 71 start = .error .fault stopped := rfl
  have place : stopped.At tokens (at_ .eof) 2 := ⟨by decide, rfl, rfl⟩
  obtain ⟨resumed, next, recovers, resumes, _, least, _, goesOn⟩ := declaration_resumes_past_fault stops place
  exact ⟨stops, place, resumed, next, recovers, resumes, least, (goesOn (by simp [start, tokens])).1⟩

/-- There the first boundary from the fault on is the second `print` itself, but reading resumes at the end: nothing
is read of a statement without a fault. -/
theorem declaration_loses_statement :
    let at_ (kind : TokenKind) : Token := ⟨kind, kind.name, none, ⟨1, 0⟩⟩
    let tokens := [at_ .printWord, at_ .nilWord, at_ .printWord, at_ .trueWord, at_ .semicolon]
    let fault : Located SyntaxFault := ⟨.expected "';' after value", at_ .printWord⟩
    unguarded 71 ⟨tokens, at_ .eof, #[]⟩ = .error .fault ⟨tokens.drop 2, at_ .eof, #[fault]⟩ ∧
    IsLeast {later | 2 ≤ later ∧ Boundary tokens 2 later} 2 ∧
    declaration 72 ⟨tokens, at_ .eof, #[]⟩ = .ok none ⟨tokens.drop 5, at_ .eof, #[fault]⟩ ∧
    (Parsed.within? 72 tokens (at_ .eof) = some ⟨[], [fault]⟩ ∧
      Parsed.within? 72 (tokens.drop 2) (at_ .eof) = some ⟨[.print (.literal (.bool true))], []⟩) := by
  intro at_ tokens fault
  refine ⟨rfl, ⟨⟨Nat.le_refl 2, .inr (.inl ⟨at_ .printWord, rfl, rfl⟩)⟩, fun later found => found.1⟩, rfl, rfl, rfl⟩

end Lox.Parse
