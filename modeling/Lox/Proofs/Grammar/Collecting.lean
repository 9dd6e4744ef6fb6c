import Lox.Proofs.Grammar.Taking

/-!
Collecting items is a recursion on the tokens: where it is not over yet, an item is read, and the rest is
collected from where that item ended. The loop that does it has a bound on its rounds and puts the items
in front of those it has; neither shows in what comes out, as every item takes a token.
-/
namespace Lox.Parse

variable {α : Type}

/-- Every round that goes on has taken a token, and none goes on where no token is left. -/
structure Advances (step : α → Parse (Option α)) : Prop where
  shorter : ∀ {value next reader after}, step value reader = .ok (some next) after →
    after.upcoming.length < reader.upcoming.length
  finished : ∀ value reader, reader.upcoming = [] → step value reader = .ok none reader

namespace Advances

variable {step : α → Parse (Option α)} (advances : Advances step)

include advances

theorem rounds_over {reader : Reader} (nothing : reader.upcoming = []) (bound : List Token) (value : α) :
    rounds step bound value reader = .ok value reader := by
  cases bound with
  | nil => rfl
  | cons _ bound =>
    simp only [rounds, Bind.bind, EStateM.bind, advances.finished value reader nothing]
    rfl

/-- A bound on the rounds that covers the tokens at hand is as good as any other. -/
theorem rounds_eq {bound other : List Token} {value : α} {reader : Reader}
    (enough : reader.upcoming.length ≤ bound.length) (enough' : reader.upcoming.length ≤ other.length) :
    rounds step bound value reader = rounds step other value reader := by
  induction bound generalizing other value reader with
  | nil =>
    have nothing : reader.upcoming = [] := List.length_eq_zero_iff.mp (Nat.le_zero.mp enough)
    rw [advances.rounds_over nothing, advances.rounds_over nothing]
  | cons _ bound ih =>
    cases other with
    | nil =>
      have nothing : reader.upcoming = [] := List.length_eq_zero_iff.mp (Nat.le_zero.mp enough')
      rw [advances.rounds_over nothing, advances.rounds_over nothing]
    | cons _ other =>
      simp only [rounds, Bind.bind, EStateM.bind]
      cases outcome : step value reader with
      | error => rfl
      | ok next after =>
        cases next with
        | none => rfl
        | some next =>
          have fewer := advances.shorter outcome
          simp only [List.length_cons] at enough enough'
          exact ih (by omega) (by omega)

/-- A loop is its first round and the loop from there. -/
theorem repeating_eq (value : α) (reader : Reader) :
    repeating value step reader = (step value >>= fun next => match next with
      | none => pure value
      | some next => repeating next step) reader := by
  simp only [repeating, Bind.bind, EStateM.bind]
  cases upcoming : reader.upcoming with
  | nil =>
    rw [advances.finished value reader upcoming]
    rfl
  | cons token rest =>
    simp only [rounds, Bind.bind, EStateM.bind]
    cases outcome : step value reader with
    | error => rfl
    | ok next after =>
      cases next with
      | none => rfl
      | some next =>
        have fewer := advances.shorter outcome
        simp only [upcoming, List.length_cons] at fewer
        exact advances.rounds_eq (by omega) (Nat.le_refl _)

end Advances

/-- An action that takes a token wherever one is at hand, if it ends well. -/
def Consumes (item : Parse α) : Prop :=
  ∀ ⦃reader value after⦄, item reader = .ok value after → reader.upcoming ≠ [] →
    after.upcoming.length < reader.upcoming.length

section Collecting

variable {done : Parse Bool} {item : Parse (Option α)} (isDone : List Token → Bool)
  (looks : ∀ reader, done reader = .ok (isDone reader.upcoming) reader)

include looks

theorem collectStep_done {reader : Reader} (finished : isDone reader.upcoming = true) (items : List α) :
    collectStep done item items reader = .ok none reader := by
  simp only [collectStep, Bind.bind, EStateM.bind, looks, finished]
  rfl

theorem collectStep_more {reader : Reader} (more : isDone reader.upcoming = false) (items : List α) :
    collectStep done item items reader =
      (item >>= fun value => pure (some (value.toList ++ items))) reader := by
  rw [collectStep_item (by rw [looks, more])]
  simp only [Bind.bind, EStateM.bind]
  cases item reader with
  | error => rfl
  | ok value after => cases value <;> rfl

/-- The items there are already stay behind those that are collected. -/
theorem rounds_collectStep_append (bound : List Token) (items earlier : List α) (reader : Reader) :
    rounds (collectStep done item) bound (items ++ earlier) reader =
      ((· ++ earlier) <$> rounds (collectStep done item) bound items) reader := by
  induction bound generalizing items reader with
  | nil => rfl
  | cons _ bound ih =>
    cases finished : isDone reader.upcoming with
    | true =>
      simp only [rounds, Bind.bind, EStateM.bind, Functor.map, EStateM.map, collectStep_done isDone looks finished]
      rfl
    | false =>
      simp only [rounds, Bind.bind, EStateM.bind, Functor.map, EStateM.map, collectStep_more isDone looks finished]
      cases item reader with
      | error => rfl
      | ok value after =>
        simp only [Pure.pure, EStateM.pure, ← List.append_assoc]
        exact ih (value.toList ++ items) after

variable (ended : isDone [] = true) (consumes : Consumes item)

include ended consumes

theorem advances_collectStep : Advances (collectStep done item) where
  shorter := by
    intro items next reader after outcome
    cases finished : isDone reader.upcoming with
    | true =>
      rw [collectStep_done isDone looks finished] at outcome
      cases outcome
    | false =>
      have present : reader.upcoming ≠ [] := fun nothing => by simp [nothing, ended] at finished
      rw [collectStep_more isDone looks finished] at outcome
      simp only [Bind.bind, EStateM.bind] at outcome
      cases read : item reader with
      | error => simp [read] at outcome
      | ok value middle =>
        simp only [read, Pure.pure, EStateM.pure, EStateM.Result.ok.injEq] at outcome
        exact outcome.2 ▸ consumes read present
  finished := fun items reader nothing => collectStep_done isDone looks (by rw [nothing, ended]) items

/-- The recursion: an item, if it comes to something, and the items collected from where it ended. -/
theorem collect_more {reader : Reader} (more : isDone reader.upcoming = false) :
    collect done item reader = (item >>= fun value => (value.toList ++ ·) <$> collect done item) reader := by
  have advances := advances_collectStep isDone looks ended consumes
  rw [collect_eq]
  simp only [Bind.bind, EStateM.bind, Functor.map, EStateM.map, advances.repeating_eq [] reader,
    collectStep_more isDone looks more]
  cases item reader with
  | error => rfl
  | ok value after =>
    have apart : rounds (collectStep done item) after.upcoming ([] ++ value.toList) after = _ :=
      rounds_collectStep_append isDone looks after.upcoming [] value.toList after
    simp only [List.nil_append, Functor.map, EStateM.map] at apart
    simp only [Pure.pure, EStateM.pure, repeating, List.append_nil]
    rw [apart]
    cases rounds (collectStep done item) after.upcoming [] after with
    | error => rfl
    | ok items last =>
      cases value <;> simp

omit ended consumes in
/-- What an item would be where the loop does not get to does not matter: it is read where the loop goes on,
at tokens that are among those at hand when the loop starts. -/
theorem collect_congr {other : Parse (Option α)}
    (suffixes : ∀ ⦃reader value after⦄, item reader = .ok value after →
      after.upcoming <:+ reader.upcoming ∧ after.finish = reader.finish) (start : Reader)
    (agree : ∀ reader : Reader, isDone reader.upcoming = false → reader.upcoming <:+ start.upcoming →
      reader.finish = start.finish → item reader = other reader) :
    collect done item start = collect done other start := by
  have rounds_agree : ∀ (bound : List Token) (items : List α) (reader : Reader),
      reader.upcoming <:+ start.upcoming → reader.finish = start.finish →
      rounds (collectStep done item) bound items reader = rounds (collectStep done other) bound items reader := by
    intro bound
    induction bound with
    | nil => exact fun _ _ _ _ => rfl
    | cons _ bound ih =>
      intro items reader within same
      cases finished : isDone reader.upcoming with
      | true =>
        simp only [rounds, Bind.bind, EStateM.bind, collectStep_done isDone looks finished]
      | false =>
        simp only [rounds, Bind.bind, EStateM.bind, collectStep_more isDone looks finished,
          ← agree reader finished within same]
        cases read : item reader with
        | error => rfl
        | ok value after =>
          obtain ⟨later, finish⟩ := suffixes read
          exact ih _ after (later.trans within) (finish.trans same)
  simp only [collect_eq, Bind.bind, EStateM.bind, repeating]
  rw [rounds_agree start.upcoming [] start (List.suffix_refl _) rfl]

open Grammar

variable {Item : List Token → α → Prop} {First : List Token → Prop} {tokens : List Token} {items : List α}
  (takes : ∀ taken value, Item taken value → Takes item First taken (some value))
  (starts : ∀ taken value rest, Item taken value → First (taken ++ rest) ∧ isDone (taken ++ rest) = false)

include takes starts

/-- Items that have been collected once are collected wherever they stand, and what follows them is
collected as it is by itself. -/
theorem collect_append {left : List Token} {finish : Token} {faults : Array (Located SyntaxFault)}
    {result : List α} {after : Reader} (many : Many Item tokens items) (following : First left)
    (collected : collect done item ⟨tokens ++ left, finish, faults⟩ = .ok result after) {rest : List Token}
    (following' : First rest) (finish' : Token) (faults' : Array (Located SyntaxFault)) :
    collect done item ⟨tokens ++ rest, finish', faults'⟩ =
      ((items ++ ·) <$> collect done item) ⟨rest, finish', faults'⟩ := by
  induction many generalizing result after with
  | nil => exact (congrFun (id_map (collect done item)) _).symm
  | @cons first others value values head tail ih =>
    have begins : ∀ taken value rest, Item taken value → First (taken ++ rest) :=
      fun taken value rest derived => (starts taken value rest derived).1
    rw [List.append_assoc] at collected ⊢
    rw [collect_more isDone looks ended consumes (starts first value _ head).2] at collected ⊢
    have next := first_of_many begins tail following
    have next' := first_of_many begins tail following'
    rcases takes first value head with takes | overruns
    · simp only [Bind.bind, EStateM.bind, takes _ _ _ next, takes _ _ _ next'] at collected ⊢
      -- The items after the first one have been collected too, behind it.
      cases inner : collect done item ⟨others ++ left, finish, faults⟩ with
      | error => simp [Functor.map, EStateM.map, inner] at collected
      | ok values last =>
        have whole := ih inner
        simp only [Functor.map, EStateM.map] at whole ⊢
        rw [whole]
        cases collect done item ⟨rest, finish', faults'⟩ <;> simp
    · obtain ⟨stopped, same⟩ := overruns _ finish faults next
      simp [Bind.bind, EStateM.bind, same] at collected

end Collecting

end Lox.Parse
