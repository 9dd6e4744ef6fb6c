import Lox.Proofs.Pairing.Planned

/-!
Looking names up at their distances and looking for them outward from the frame at hand. The two come to the
same if no frame on the way can have the name, and the frame at the distance has it.
-/
namespace Lox

namespace Outward

/-- The frames of the layer at a distance have a name, and those of nearer ones never will. Without a distance,
those of no layer will. -/
def Nearest (layers : List Layer) (name : String) : Distance → Prop
  | some distance => (∃ layer, layers[distance]? = some layer ∧ name ∈ layer.ready) ∧
      ∀ layer ∈ layers.take distance, ¬ layer.keys.may name
  | none => ∀ layer ∈ layers, ¬ layer.keys.may name

/-- One run goes by distances, the other one outward. -/
def leaves : Leaves where
  right := .byChain
  Fair keys := keys.other = id
  Same token token' := token' = token
  Reads layers reference reference' := reference' = reference ∧ Nearest layers reference.1.lexeme reference.2
  Assigns layers reference reference' := reference' = reference ∧ Nearest layers reference.1.lexeme reference.2
  Supers layers reference reference' := reference' = reference ∧ reference.1.1.lexeme = "super" ∧
    ∃ distance, reference.1.2 = some (distance + 1) ∧ Nearest layers "super" (some (distance + 1)) ∧
      Nearest layers "this" (some distance)

theorem diagonal : leaves.pairing.Diagonal where
  same same := same
  reads reads := reads.1
  assigns assigns := assigns.1
  supers supers := supers.1
  declares declares := declares.1
  opens opens := by
    obtain ⟨same, rest⟩ := opens
    clear rest
    induction same with
    | nil => rfl
    | cons head _ ih => rw [head, ih]

theorem frames_ext {frames frames' : Frames} (size : frames'.all.size = frames.all.size)
    (chain : ∀ frame, frames'.chain frame = frames.chain frame)
    (names : ∀ frame, frames'.names frame = frames.names frame) : frames = frames' := by
  obtain ⟨all⟩ := frames
  obtain ⟨all'⟩ := frames'
  simp only [Frames.mk.injEq]
  apply Array.ext size.symm
  intro frame present present'
  have links := chain frame
  have bound := names frame
  simp only [Frames.chain, Frames.names, Array.getElem?_eq_getElem present, Array.getElem?_eq_getElem present',
    List.cons.injEq, true_and] at links bound
  revert links bound
  generalize all[frame] = left
  generalize all'[frame] = right
  obtain ⟨names, outer⟩ := left
  obtain ⟨names', outer'⟩ := right
  rintro rfl rfl
  rfl

/-- The two machines are one. -/
theorem mirror {scene : leaves.pairing.Scene} (agrees : scene.Agrees) : scene.left = scene.right := by
  obtain ⟨holds, fair⟩ := agrees.state
  refine agrees.mirror diagonal (frames_ext holds.size holds.chain fun frame => ?_)
  have same : (scene.world.keys frame).other = id := fair frame
  rw [holds.names, same, Table.rekey_id]

section Lookup

variable {plan : Plan} {frames frames' : Frames} {layers : List Layer} {frame : FrameId} {name : String}

/-- The search outward passes by frames that cannot have the name. -/
theorem find_links {links : List FrameId} (holds : plan.Holds frames frames')
    (fit : List.Forall₂ (fun link layer => link ≠ globalFrame ∧ link < plan.frames.all.size ∧
      plan.keys link = layer.keys ∧ ∀ name ∈ layer.ready, (plan.frames.names link).contains name = true) links layers)
    (outer : List FrameId) {distance : Distance} (nearest : Nearest layers name distance) :
    (links ++ outer).find? (fun link => (frames.names link).contains name) = match distance with
      | some count => links[count]?
      | none => outer.find? fun link => (frames.names link).contains name := by
  have same := holds.same
  induction fit generalizing distance with
  | nil =>
    cases distance with
    | some count => simp [Nearest] at nearest
    | none => rfl
  | @cons link layer links layers head tail ih =>
    have passed (never : ¬ layer.keys.may name) : (frames.names link).contains name = false := by
      rw [Bool.eq_false_iff]
      intro held
      have may := holds.may link name held
      rw [head.2.2.1] at may
      exact never may
    cases distance with
    | none =>
      rw [List.cons_append, List.find?_cons_of_neg (by simp [passed (nearest layer List.mem_cons_self)])]
      have outside : Nearest layers name none := fun layer member => nearest layer (List.mem_cons_of_mem _ member)
      exact ih outside
    | some count =>
      obtain ⟨⟨target, found, ready⟩, never⟩ := nearest
      cases count with
      | zero =>
        simp only [List.getElem?_cons_zero, Option.some.injEq] at found
        subst found
        have held : (frames.names link).contains name = true := same ▸ head.2.2.2 name ready
        rw [List.cons_append, List.find?_cons_of_pos (by simp [held])]
        rfl
      | succ count =>
        rw [List.cons_append, List.find?_cons_of_neg (by simp [passed (never layer (by simp))])]
        have further : Nearest layers name (some count) :=
          ⟨⟨target, by simpa using found, ready⟩, fun layer member => never layer (by simp [member])⟩
        exact ih further

/-- What the search outward finds is the frame at the distance, and the global frame or nothing if there is
none. -/
theorem holder?_eq (holds : plan.Holds frames frames') (stands : plan.Stands layers frame) {distance : Distance}
    (nearest : Nearest layers name distance) :
    frames.holder? frame name = match distance with
      | some count => frames.link? frame count
      | none => frames.holder? globalFrame name := by
  obtain ⟨links, chain, fit⟩ := stands
  rw [holds.same] at chain
  have found := find_links holds fit [globalFrame] nearest
  unfold Frames.holder?
  rw [chain, found]
  cases distance with
  | some count =>
    have length := fit.length_eq
    obtain ⟨⟨layer, held, _⟩, _⟩ := nearest
    have near : count < links.length := by
      rw [length]
      exact (List.getElem?_eq_some_iff.mp held).1
    simp only [Frames.link?, chain, List.getElem?_append_left near]
  | none => simp only [holds.root]

/-- The frame at the distance has the name. -/
theorem getAt_eq {count : Nat} (holds : plan.Holds frames frames') (stands : plan.Stands layers frame)
    (nearest : Nearest layers name (some count)) :
    ∃ link value, frames.link? frame count = some link ∧ link < frames.all.size ∧ (plan.keys link).may name ∧
      (frames.names link).get? name = some value := by
  obtain ⟨⟨layer, found, ready⟩, _⟩ := nearest
  have linked := stands.link? count
  rw [found] at linked
  obtain ⟨link, isLink, present, _, bound⟩ := linked
  rw [holds.same] at isLink present bound
  have held := bound name ready
  obtain ⟨value, isValue⟩ := Option.isSome_iff_exists.mp held
  exact ⟨link, value, isLink, present, holds.may link name held, isValue⟩

end Lookup

section Actions

variable {plan : Plan} {machine : Machine} {frames' : Frames} {layers : List Layer}

/-- Reading a name that is there. -/
theorem read_eq {count : Nat} (holds : plan.Holds machine.frames frames') (stands : plan.Stands layers machine.current)
    (name : Token) (nearest : Nearest layers name.lexeme (some count)) :
    ∃ frame value, (machine.frames.names frame).get? name.lexeme = some value ∧
      machine.frames.getAt machine.current count name.lexeme = .ok value ∧
      Access.readFrom Machine.current name machine = .ok value machine := by
  obtain ⟨link, value, isLink, _, _, isValue⟩ := getAt_eq holds stands nearest
  have holder := holder?_eq holds stands nearest
  simp only at holder
  refine ⟨link, value, isValue, ?_, ?_⟩
  · simp only [Frames.getAt, isLink, isValue]
  · simp only [Access.readFrom_apply, Frames.lookup?, holder, isLink, Option.bind_eq_bind, Option.bind_some, isValue]

theorem lookup?_global {name : String} (holds : plan.Holds machine.frames frames')
    (stands : plan.Stands layers machine.current) (nearest : Nearest layers name none) :
    machine.frames.lookup? machine.current name = machine.frames.lookup? globalFrame name := by
  simp only [Frames.lookup?, holder?_eq holds stands nearest]

end Actions

theorem lawful : leaves.Lawful where
  fair _ := rfl
  read := by
    rintro ⟨plan, machine, machine'⟩ layers ⟨name, note⟩ _ agrees at_ ⟨rfl, nearest⟩
    obtain ⟨holds, _⟩ := agrees.state
    obtain rfl : machine = machine' := mirror agrees
    cases note with
    | some count =>
      obtain ⟨frame, value, held, near, far⟩ := read_eq holds at_ name nearest
      refine .inl ⟨value, ⟨frame, _, held⟩, ?_, far⟩
      exact Access.readAt_apply.trans (by simp only [near])
    | none =>
      exact Pairing.reads_of_lookup rfl rfl (lookup?_global holds at_ nearest)
  superAndThis := by
    rintro ⟨plan, machine, machine'⟩ layers ⟨⟨keyword, note⟩, method⟩ _ agrees at_
      ⟨rfl, spelled, count, noted, super, this⟩
    obtain ⟨holds, _⟩ := agrees.state
    obtain rfl : machine = machine' := mirror agrees
    simp only at spelled noted
    subst noted
    rw [← spelled] at super
    obtain ⟨_, parent, _, near, far⟩ := read_eq holds at_ keyword super
    obtain ⟨frame, receiver, held, near', far'⟩ := read_eq holds at_ { keyword with lexeme := "this" } this
    refine .inl ⟨(parent, receiver), ⟨frame, _, held⟩, ?_, ?_⟩
    · rw [spelled] at near
      exact Access.superAndThis_apply.trans (by simp only [near, Nat.add_sub_cancel, near'])
    · change (do
        let parent ← Access.readFrom Machine.current keyword
        return (parent, ← Access.readFrom Machine.current { keyword with lexeme := "this" })) machine = _
      simp only [Bind.bind, EStateM.bind, far, far']
      rfl
  assign := by
    rintro ⟨plan, machine, machine'⟩ layers ⟨name, note⟩ _ value agrees at_ ⟨rfl, nearest⟩
    obtain ⟨holds, fair⟩ := agrees.state
    obtain rfl : machine = machine' := mirror agrees
    have holder := holder?_eq holds at_ nearest
    have spelled (frame : FrameId) : name.lexeme = (plan.keys frame).other name.lexeme := by
      have same : (plan.keys frame).other = id := fair frame
      rw [same]
      rfl
    cases note with
    | some count =>
      obtain ⟨link, _, isLink, present, may, _⟩ := getAt_eq holds at_ nearest
      refine .inl ⟨link, present, may, spelled link, ?_, ?_⟩
      · exact Access.assignAt_apply.trans (by simp only [isLink])
      · exact Access.assignFrom_apply.trans (by simp only [holder, isLink])
    | none => exact Leaves.assigns_of_holder agrees value rfl rfl holder

end Outward

end Lox
