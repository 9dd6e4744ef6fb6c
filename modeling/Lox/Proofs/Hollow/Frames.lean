import Lox.Proofs.Pairing.Planned
import Lox.Proofs.Scope.Hollow

/-!
Two runs of which the first one makes frames that the second one does without. In such a hollow frame nothing is ever
bound. All other frames have a twin in the other run that is made at the same time and holds the same names with the
same values, but the numbers of the two differ, and so do the distances to what lies outside of a hollow frame. All
other objects have the same numbers in both runs.
-/
namespace Lox

namespace Frames

variable {frames : Frames} {frame enclosing : FrameId}

theorem link?_zero (present : frame < frames.all.size) : frames.link? frame 0 = some frame := by
  simp [link?, chain, Array.getElem?_eq_getElem present]

theorem Grow.link? {after : Frames} (grow : frames.Grow after) (present : frame < frames.all.size) (distance : Nat) :
    after.link? frame distance = frames.link? frame distance := by
  simp only [Frames.link?, grow.chain frame present]

theorem link?_openFrame (bindings : List (String × Value)) (distance : Nat) :
    (frames.openFrame enclosing bindings).2.link? frames.all.size (distance + 1) = frames.link? enclosing distance := by
  simp only [Frames.link?, chain_openFrame, List.getElem?_cons_succ]

theorem link?_create (distance : Nat) :
    (frames.create (some enclosing)).2.link? frames.all.size (distance + 1) = frames.link? enclosing distance :=
  link?_openFrame [] distance

end Frames

namespace Hollow

/-- The frames of two runs, with the twin of each frame of the first one that has one. -/
structure Twins where
  left : Frames
  right : Frames
  twin : FrameId → Option FrameId

namespace Twins

variable {twins before after : Twins} {hollow : Option Nat} {frame frame' : FrameId} {name : String}
  {value : Value}

structure Later (before after : Twins) : Prop where
  left : before.left.Grow after.left
  right : before.right.Grow after.right
  twin : ∀ {frame frame'}, before.twin frame = some frame' → after.twin frame = some frame'

/-- Twins hold the same. -/
structure Holds (twins : Twins) : Prop where
  root : twins.left.chain globalFrame = [globalFrame]
  root' : twins.right.chain globalFrame = [globalFrame]
  global : twins.twin globalFrame = some globalFrame
  present : ∀ {frame frame'}, twins.twin frame = some frame' →
    frame < twins.left.all.size ∧ frame' < twins.right.all.size
  injective : ∀ {frame other frame'}, twins.twin frame = some frame' → twins.twin other = some frame' → frame = other
  names : ∀ {frame frame'}, twins.twin frame = some frame' → twins.left.names frame = twins.right.names frame'

/-- Two frames at the same place, the first one perhaps with a hollow frame around it: apart from that the frames
around them are twins, one by one. Right inside of a hollow frame it is the hollow frame itself. -/
structure Stands (twins : Twins) (hollow : Option Nat) (frame frame' : FrameId) : Prop where
  present : frame < twins.left.all.size
  present' : frame' < twins.right.all.size
  links : ∀ distance,
    (∃ link link', twins.left.link? frame (shift hollow distance) = some link ∧
      twins.right.link? frame' distance = some link' ∧ twins.twin link = some link') ∨
    (twins.left.link? frame (shift hollow distance) = none ∧ twins.right.link? frame' distance = none)

theorem Stands.mono (stands : before.Stands hollow frame frame') (later : before.Later after) :
    after.Stands hollow frame frame' where
  present := Nat.lt_of_lt_of_le stands.present later.left.size
  present' := Nat.lt_of_lt_of_le stands.present' later.right.size
  links distance := by
    rw [later.left.link? stands.present, later.right.link? stands.present']
    obtain ⟨link, link', linked, linked', twin⟩ | missing := stands.links distance
    · exact .inl ⟨link, link', linked, linked', later.twin twin⟩
    · exact .inr missing

theorem Stands.twin (stands : twins.Stands hollow frame frame') (apart : hollow ≠ some 0) :
    twins.twin frame = some frame' := by
  have first := stands.links 0
  rw [shift_zero apart, Frames.link?_zero stands.present, Frames.link?_zero stands.present'] at first
  obtain ⟨_, _, ⟨⟩, ⟨⟩, twin⟩ | ⟨⟨⟩, _⟩ := first
  exact twin

/-- The same is found at corresponding distances. -/
theorem Stands.getAt (stands : twins.Stands hollow frame frame') (holds : twins.Holds) (distance : Nat)
    (name : String) : twins.left.getAt frame (shift hollow distance) name = twins.right.getAt frame' distance name := by
  unfold Frames.getAt
  obtain ⟨link, link', linked, linked', twin⟩ | ⟨missing, missing'⟩ := stands.links distance
  · simp only [linked, linked', holds.names twin]
  · simp only [missing, missing']

/-- The same is found in the global frame. -/
theorem Holds.lookup?_global (holds : twins.Holds) (name : String) :
    twins.left.lookup? globalFrame name = twins.right.lookup? globalFrame name := by
  simp only [Frames.lookup?, Frames.holder?, holds.root, holds.root', List.find?_cons, List.find?_nil,
    holds.names holds.global]
  split <;> simp [holds.names holds.global]

theorem Holds.holder?_global (holds : twins.Holds) (name : String) :
    twins.left.holder? globalFrame name = twins.right.holder? globalFrame name := by
  simp only [Frames.holder?, holds.root, holds.root', List.find?_cons, List.find?_nil, holds.names holds.global]

/-- Twins with a name bound in two of them. -/
def bound (twins : Twins) (frame frame' : FrameId) (name : String) (value : Value) : Twins :=
  ⟨twins.left.define frame name value, twins.right.define frame' name value, twins.twin⟩

theorem later_bound (twins : Twins) (frame frame' : FrameId) (name : String) (value : Value) :
    twins.Later (twins.bound frame frame' name value) :=
  ⟨Frames.grow_define _ _ _ _, Frames.grow_define _ _ _ _, id⟩

theorem Holds.bound (holds : twins.Holds) (twin : twins.twin frame = some frame') (name : String) (value : Value) :
    (twins.bound frame frame' name value).Holds where
  root := by simp only [Twins.bound, Frames.chain_define, holds.root]
  root' := by simp only [Twins.bound, Frames.chain_define, holds.root']
  global := holds.global
  present other := by simpa [Twins.bound, Frames.define] using holds.present other
  injective := holds.injective
  names := by
    intro other other' twin'
    obtain ⟨present, present'⟩ := holds.present twin
    simp only [Twins.bound, Frames.names_define, present, present', and_true, holds.names twin']
    by_cases same : frame = other
    · have same' : frame' = other' := Option.some.inj (twin.symm.trans ((congrArg _ same).trans twin'))
      rw [if_pos same, if_pos same']
    · have apart : frame' ≠ other' := fun same' => same (holds.injective twin (same' ▸ twin'))
      rw [if_neg same, if_neg apart]

/-- Twins with a new frame in each run, inside of two that stand at the same place. -/
def opened (twins : Twins) (frame frame' : FrameId) (bindings : List (String × Value)) : Twins where
  left := (twins.left.openFrame frame bindings).2
  right := (twins.right.openFrame frame' bindings).2
  twin other := if other = twins.left.all.size then some twins.right.all.size else twins.twin other

theorem Holds.later_opened (holds : twins.Holds) (frame frame' : FrameId) (bindings : List (String × Value)) :
    twins.Later (twins.opened frame frame' bindings) where
  left := Frames.grow_openFrame _ _ _
  right := Frames.grow_openFrame _ _ _
  twin := by
    intro other other' twin
    have older : other ≠ twins.left.all.size := Nat.ne_of_lt (holds.present twin).1
    simpa only [opened, older, if_false] using twin

/-- Two twins are the new ones, or there were before. -/
theorem twin_opened {bindings : List (String × Value)} {other other' : FrameId}
    (twin : (twins.opened frame frame' bindings).twin other = some other') :
    (other = twins.left.all.size ∧ other' = twins.right.all.size) ∨ twins.twin other = some other' := by
  simp only [opened] at twin
  split at twin
  · rename_i new
    cases twin
    exact .inl ⟨new, rfl⟩
  · exact .inr twin

theorem Holds.opened_nil (holds : twins.Holds) (frame frame' : FrameId) : (twins.opened frame frame' []).Holds where
  root := ((Frames.grow_openFrame _ _ _).chain _ (holds.present holds.global).1).trans holds.root
  root' := ((Frames.grow_openFrame _ _ _).chain _ (holds.present holds.global).2).trans holds.root'
  global := (holds.later_opened frame frame' []).twin holds.global
  present := by
    intro other other' twin
    obtain ⟨rfl, rfl⟩ | older := twin_opened twin
    · simp [Twins.opened]
    · obtain ⟨present, present'⟩ := holds.present older
      exact ⟨Nat.lt_of_lt_of_le present (Frames.grow_openFrame _ _ _).size,
        Nat.lt_of_lt_of_le present' (Frames.grow_openFrame _ _ _).size⟩
  injective := by
    intro first second last twin twin'
    obtain ⟨new, new'⟩ | older := twin_opened twin <;> obtain ⟨last, last'⟩ | older' := twin_opened twin'
    · rw [new, last]
    · exact absurd (holds.present older').2 (new' ▸ Nat.lt_irrefl _)
    · exact absurd (holds.present older).2 (last' ▸ Nat.lt_irrefl _)
    · exact holds.injective older older'
  names := by
    intro other other' twin
    have same : twins.left.names other = twins.right.names other' := by
      obtain ⟨rfl, rfl⟩ | older := twin_opened twin
      · rw [Frames.names_eq_empty_of_le (Nat.le_refl _), Frames.names_eq_empty_of_le (Nat.le_refl _)]
      · exact holds.names older
    exact (Frames.names_create (some frame) other).trans (same.trans (Frames.names_create (some frame') other').symm)

theorem Holds.opened (holds : twins.Holds) (frame frame' : FrameId) (bindings : List (String × Value)) :
    (twins.opened frame frame' bindings).Holds := by
  -- The names are bound one after the other in the new frames, which are twins.
  have binds (twins : Twins) (holds : twins.Holds) {frame frame' : FrameId} (twin : twins.twin frame = some frame') :
      Holds ⟨twins.left.defineAll frame bindings, twins.right.defineAll frame' bindings, twins.twin⟩ := by
    induction bindings generalizing twins with
    | nil => exact holds
    | cons first rest ih => exact ih (twins.bound frame frame' first.1 first.2) (holds.bound twin first.1 first.2) twin
  have new : (twins.opened frame frame' []).twin twins.left.all.size = some twins.right.all.size := by
    simp [Twins.opened]
  exact binds (twins.opened frame frame' []) (holds.opened_nil frame frame') new

theorem Stands.opened (stands : twins.Stands hollow frame frame') (holds : twins.Holds)
    (bindings : List (String × Value)) :
    (twins.opened frame frame' bindings).Stands (deeper hollow) twins.left.all.size twins.right.all.size where
  present := by simp [Twins.opened]
  present' := by simp [Twins.opened]
  links distance := by
    cases distance with
    | zero =>
      rw [shift_deeper_zero, Frames.link?_zero (by simp [Twins.opened]), Frames.link?_zero (by simp [Twins.opened])]
      exact .inl ⟨_, _, rfl, rfl, by simp [Twins.opened]⟩
    | succ distance =>
      rw [shift_deeper_succ]
      simp only [Twins.opened, Frames.link?_openFrame]
      obtain ⟨link, link', linked, linked', twin⟩ | missing := stands.links distance
      · exact .inl ⟨link, link', linked, linked', (holds.later_opened frame frame' bindings).twin twin⟩
      · exact .inr missing

/-- Twins with a new frame in the first run only. -/
def hollowed (twins : Twins) (frame : FrameId) : Twins :=
  { twins with left := (twins.left.create (some frame)).2 }

theorem later_hollowed (twins : Twins) (frame : FrameId) : twins.Later (twins.hollowed frame) :=
  ⟨Frames.grow_create _ _, .refl _, id⟩

theorem Holds.hollowed (holds : twins.Holds) (frame : FrameId) : (twins.hollowed frame).Holds where
  root := ((Frames.grow_create _ _).chain _ (holds.present holds.global).1).trans holds.root
  root' := holds.root'
  global := holds.global
  present twin := ⟨Nat.lt_of_lt_of_le (holds.present twin).1 (Frames.grow_create _ _).size, (holds.present twin).2⟩
  injective := holds.injective
  names := by
    intro other other' twin
    exact (Frames.names_create (some frame) other).trans (holds.names twin)

/-- Inside of the new frame is where the hollow one is at hand. -/
theorem Stands.hollowed (stands : twins.Stands none frame frame') :
    (twins.hollowed frame).Stands (some 0) twins.left.all.size frame' where
  present := by simp [Twins.hollowed, Frames.create]
  present' := stands.present'
  links distance := by
    have within : shift (some 0) distance = distance + 1 := by simp [shift]
    have same : (twins.hollowed frame).left.link? twins.left.all.size (distance + 1) =
        twins.left.link? frame distance := Frames.link?_create distance
    rw [within, same]
    exact stands.links distance

end Twins

end Hollow

end Lox
