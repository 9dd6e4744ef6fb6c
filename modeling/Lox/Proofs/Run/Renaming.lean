import Lox.Proofs.Pairing.Planned

/-!
Two runs that go by distances, where the frames of some scopes hold a variable under another name. References
that lead to such a frame use the new name, and all other ones the same name, so that both runs find the same.
-/
namespace Lox

/-- A new name for a variable. -/
structure Renaming where
  old : String
  new : String

namespace Renaming

variable (naming : Renaming)

/-- What the other run calls a name in the frames of a scope with the variable. -/
def swap (name : String) : String := if name = naming.old then naming.new else name

/-- Neither of the names is a keyword that frames bind. -/
structure Plain : Prop where
  old : naming.old ≠ "this" ∧ naming.old ≠ "super"
  new : naming.new ≠ "this" ∧ naming.new ≠ "super"

/-- The names in the frames of a scope with the variable. The new name is not one of them. -/
def keys (plain : naming.Plain) : Keys where
  may name := name ≠ naming.new
  other := naming.swap
  injective := by
    intro name query may may' same
    unfold swap at same
    split at same <;> split at same <;> simp_all
  keyword := by
    rintro name keyword _ isKeyword
    have old : naming.old ≠ keyword := by
      rcases isKeyword with rfl | rfl
      · exact plain.old.1
      · exact plain.old.2
    have new : naming.new ≠ keyword := by
      rcases isKeyword with rfl | rfl
      · exact plain.new.1
      · exact plain.new.2
    unfold swap
    split <;> simp_all

/-- A name and what the other run calls it, where it leads by its distance. -/
def Leads (layers : List Layer) (name name' : String) : Distance → Prop
  | some distance => ∃ layer, layers[distance]? = some layer ∧ layer.keys.may name ∧ name' = layer.keys.other name
  | none => name' = name

/-- Tokens that are the same but for the name. -/
def Same (token token' : Token) : Prop :=
  token' = token ∨ token.lexeme = naming.old ∧ token' = { token with lexeme := naming.new }

/-- Both runs go by distances. -/
def leaves : Leaves where
  right := .byDistance
  Fair _ := True
  Same := naming.Same
  Reads layers reference reference' := reference'.2 = reference.2 ∧ naming.Same reference.1 reference'.1 ∧
    Leads layers reference.1.lexeme reference'.1.lexeme reference.2
  Assigns layers reference reference' := reference'.2 = reference.2 ∧ naming.Same reference.1 reference'.1 ∧
    Leads layers reference.1.lexeme reference'.1.lexeme reference.2
  Supers _ reference reference' := reference' = reference

variable {naming} {plan : Plan} {frames frames' : Frames} {layers : List Layer} {frame : FrameId} {name name' : String}

/-- Names that lead somewhere by a distance lead to one frame, which holds the same under both. -/
theorem Leads.link {distance : Nat} (leads : Leads layers name name' (some distance)) (holds : plan.Holds frames frames')
    (stands : plan.Stands layers frame) :
    ∃ link, frames.link? frame distance = some link ∧ frames'.link? frame distance = some link ∧
      link < frames.all.size ∧ (plan.keys link).may name ∧ name' = (plan.keys link).other name ∧
      (frames'.names link).get? name' = (frames.names link).get? name := by
  obtain ⟨layer, found, may, spelled⟩ := leads
  have linked := stands.link? distance
  rw [found] at linked
  obtain ⟨link, isLink, present, keys, _⟩ := linked
  rw [holds.same] at isLink present
  rw [← keys] at may spelled
  refine ⟨link, isLink, (holds.link? frame distance).trans isLink, present, may, spelled, ?_⟩
  rw [spelled]
  exact holds.get? may

theorem holder?_global (holds : plan.Holds frames frames') (name : String) :
    frames'.holder? globalFrame name = frames.holder? globalFrame name := by
  simp only [Frames.holder?, holds.chain, holds.root, List.find?_cons, List.find?_nil, holds.names_global]

theorem lookup?_global (holds : plan.Holds frames frames') (name : String) :
    frames'.lookup? globalFrame name = frames.lookup? globalFrame name := by
  unfold Frames.lookup?
  rw [holder?_global holds]
  cases found : frames.holder? globalFrame name with
  | none => rfl
  | some holder =>
    have member := List.mem_of_find?_eq_some found
    rw [holds.root] at member
    obtain rfl := List.mem_singleton.mp member
    simp only [Option.bind_eq_bind, Option.bind_some, holds.names_global]

/-- A keyword in the frame at a distance. -/
theorem getAt_keyword (holds : plan.Holds frames frames') (isKeyword : name = "this" ∨ name = "super")
    (frame : FrameId) (distance : Nat) : frames'.getAt frame distance name = frames.getAt frame distance name := by
  simp only [Frames.getAt, holds.link?, holds.keyword isKeyword]

theorem lawful (naming : Renaming) : naming.leaves.Lawful where
  fair _ := trivial
  read := by
    rintro ⟨plan, machine, machine'⟩ layers ⟨name, note⟩ ⟨name', note'⟩ agrees at_ ⟨rfl, same, leads⟩
    obtain ⟨holds, _⟩ := agrees.state
    have current : machine.current = machine'.current := agrees.current
    cases note' with
    | some distance =>
      obtain ⟨link, isLink, isLink', _, _, _, equal⟩ := leads.link holds at_
      have both : machine'.frames.getAt machine'.current distance name'.lexeme =
          machine.frames.getAt machine.current distance name.lexeme := by
        rw [← current]
        simp only [Frames.getAt, isLink, isLink', equal]
      change (∃ value, _ ∧ Access.readAt distance name.lexeme machine = _ ∧
        Access.readAt distance name'.lexeme machine' = _) ∨ ∃ halt halt',
        Access.readAt distance name.lexeme machine = _ ∧ Access.readAt distance name'.lexeme machine' = _ ∧ _
      simp only [Access.readAt_apply, both]
      cases found : machine.frames.getAt machine.current distance name.lexeme with
      | ok value =>
        obtain ⟨holder, _, bound⟩ := Frames.held_of_getAt found
        exact .inl ⟨value, ⟨holder, _, bound⟩, rfl, rfl⟩
      | error cause => exact .inr ⟨_, _, rfl, rfl, rfl⟩
    | none => exact Pairing.reads_of_lookup same leads (lookup?_global holds _)
  superAndThis := by
    rintro ⟨plan, machine, machine'⟩ layers ⟨⟨keyword, note⟩, method⟩ _ agrees at_ rfl
    obtain ⟨holds, _⟩ := agrees.state
    have current : machine.current = machine'.current := agrees.current
    cases note with
    | none => exact .inr ⟨_, _, rfl, rfl, rfl⟩
    | some distance =>
      have super := getAt_keyword holds (.inr rfl) machine.current distance
      have this := getAt_keyword holds (.inl rfl) machine.current (distance - 1)
      change (∃ pair, _ ∧ Access.byDistance.superAndThis keyword (some distance) machine = _ ∧
        Access.byDistance.superAndThis keyword (some distance) machine' = _) ∨ ∃ halt halt',
        Access.byDistance.superAndThis keyword (some distance) machine = _ ∧
        Access.byDistance.superAndThis keyword (some distance) machine' = _ ∧ _
      simp only [Access.superAndThis_apply, ← current, super, this]
      cases machine.frames.getAt machine.current distance "super" with
      | error cause => exact .inr ⟨_, _, rfl, rfl, rfl⟩
      | ok parent =>
        cases found : machine.frames.getAt machine.current (distance - 1) "this" with
        | error cause => exact .inr ⟨_, _, rfl, rfl, rfl⟩
        | ok receiver =>
          obtain ⟨holder, _, bound⟩ := Frames.held_of_getAt found
          exact .inl ⟨(parent, receiver), ⟨holder, _, bound⟩, rfl, rfl⟩
  assign := by
    rintro ⟨plan, machine, machine'⟩ layers ⟨name, note⟩ ⟨name', note'⟩ value agrees at_ ⟨rfl, same, leads⟩
    obtain ⟨holds, _⟩ := agrees.state
    have current : machine.current = machine'.current := agrees.current
    cases note' with
    | some distance =>
      obtain ⟨link, isLink, isLink', present, may, spelled, _⟩ := leads.link holds at_
      refine .inl ⟨link, present, may, spelled, ?_, ?_⟩
      · exact Access.assignAt_apply.trans (by simp only [isLink])
      · rw [current] at isLink'
        exact Access.assignAt_apply.trans (by simp only [isLink'])
    | none => exact Leaves.assigns_of_holder agrees value same leads (holder?_global holds _)

end Renaming

end Lox
