import Lox.Proofs.Pairing.Planned
import Mathlib.Order.Bounds.Basic

/-!
Frames as a forest: each has been made inside another one or in none, and many may share those around them. A name is
looked up by walking outward to the nearest frame that binds it, or taken at a distance that is known beforehand. At
the distance of that nearest frame the two ways come to the same, for reading and for assigning; and an assignment is
seen from exactly those frames whose nearest binding it has changed.
-/
namespace Lox

namespace Frames

/-- Frames as they come about, one operation after the other, beside a list of what each of them was made in. -/
inductive Forest : List (Option FrameId) → Frames → Prop
  | empty : Forest [] {}
  | create {parents : List (Option FrameId)} {frames : Frames} (forest : Forest parents frames)
    (enclosing : Option FrameId) (present : ∀ outer ∈ enclosing, outer < parents.length) :
    Forest (parents ++ [enclosing]) (frames.create enclosing).2
  | define {parents : List (Option FrameId)} {frames : Frames} (forest : Forest parents frames) (frame : FrameId)
    (name : String) (value : Value) : Forest parents (frames.define frame name value)
  | assign {parents : List (Option FrameId)} {frames after : Frames} {frame : FrameId} {name : String} {value : Value}
    (forest : Forest parents frames) (assigned : frames.assign? frame name value = some after) : Forest parents after
  | setAt {parents : List (Option FrameId)} {frames after : Frames} {frame : FrameId} {distance : Nat} {name : String}
    {value : Value} (forest : Forest parents frames)
    (assigned : frames.setAt? frame distance name value = some after) : Forest parents after

/-- Going outward from a frame, over a number of links, from each frame to the one that it was made in. -/
inductive Outward (parents : List (Option FrameId)) : FrameId → Nat → FrameId → Prop
  | here {frame : FrameId} (present : frame < parents.length) : Outward parents frame 0 frame
  | out {frame enclosing link : FrameId} {distance : Nat} (inside : parents[frame]? = some (some enclosing))
    (onward : Outward parents enclosing distance link) : Outward parents frame (distance + 1) link

/-- The distances at which frames that bind a name are around a frame. -/
def bindings (parents : List (Option FrameId)) (frames : Frames) (frame : FrameId) (name : String) : Set Nat :=
  {distance | ∃ link, Outward parents frame distance link ∧ (frames.names link).contains name = true}

/-- The nearest frame that binds a name is `holder`, at a distance. -/
structure Nearest (parents : List (Option FrameId)) (frames : Frames) (frame : FrameId) (name : String)
    (distance : Nat) (holder : FrameId) : Prop where
  outward : Outward parents frame distance holder
  least : IsLeast (bindings parents frames frame name) distance

/-- All frames but one, and what that one was made in, are as before. -/
structure ChangesOnly (frame : FrameId) (before after : Frames) : Prop where
  size : after.all.size = before.all.size
  chain : ∀ other, after.chain other = before.chain other
  elsewhere : ∀ other, other ≠ frame → after.all[other]? = before.all[other]?

/-- One frame has another value for a name that it had already, and nothing else is changed. -/
structure Rebinds (frame : FrameId) (name : String) (value : Value) (before after : Frames) : Prop
    extends ChangesOnly frame before after where
  listed : (after.names frame).names = (before.names frame).names
  held : (after.names frame).get? name = some value
  others : ∀ query, query ≠ name → (after.names frame).get? query = (before.names frame).get? query

/-- A machine with these frames, one of them at hand. -/
def AtHand (frames : Frames) (frame : FrameId) (machine : Machine) : Prop :=
  machine.frames = frames ∧ machine.current = frame

variable {parents : List (Option FrameId)} {frames after : Frames} {frame holder link : FrameId} {name : String}
  {value : Value} {distance : Nat}

theorem contains_of_holder? (found : frames.holder? frame name = some holder) :
    (frames.names holder).contains name = true := by
  unfold holder? at found
  simpa using List.find?_some found

theorem eq_define_of_assign? (assigned : frames.assign? frame name value = some after) :
    ∃ holder, frames.holder? frame name = some holder ∧ after = frames.define holder name value := by
  obtain ⟨holder, found, same⟩ := Option.bind_eq_some_iff.mp assigned
  exact ⟨holder, found, (Option.some.inj same).symm⟩

theorem eq_define_of_setAt? (assigned : frames.setAt? frame distance name value = some after) :
    ∃ link, frames.link? frame distance = some link ∧ after = frames.define link name value := by
  obtain ⟨link, found, same⟩ := Option.bind_eq_some_iff.mp assigned
  exact ⟨link, found, (Option.some.inj same).symm⟩

theorem changesOnly_define (frames : Frames) (frame : FrameId) (name : String) (value : Value) :
    ChangesOnly frame frames (frames.define frame name value) where
  size := by simp [define]
  chain other := chain_define frames frame other name value
  elsewhere other distinct := by simp [define, Array.getElem?_modify, distinct.symm]

/-- Binding a name in a frame that has it changes the value and nothing else. -/
theorem rebinds_define (bound : (frames.names frame).contains name = true) (value : Value) :
    Rebinds frame name value frames (frames.define frame name value) := by
  have present : frame < frames.all.size := by
    by_contra absent
    simp [names_eq_empty_of_le (Nat.not_lt.mp absent), Table.contains] at bound
  have names := names_define_self frames present name value
  refine ⟨changesOnly_define frames frame name value, ?_, ?_, fun query distinct => ?_⟩
  · rw [names, Table.names_set, if_pos ((Table.mem_names_iff _ _).mpr bound)]
  · rw [names, Table.get?_set_self]
  · rw [names, Table.get?_set_of_ne _ distinct]

/-- What frames know of where they were made: around a frame are the one that it was made in, which is older, and those
around that. -/
structure Linked (parents : List (Option FrameId)) (frames : Frames) : Prop where
  size : frames.all.size = parents.length
  older : ∀ {frame outer : FrameId}, parents[frame]? = some (some outer) → outer < frame
  chain : ∀ {frame : FrameId} {enclosing : Option FrameId}, parents[frame]? = some enclosing →
    frames.chain frame = frame :: (enclosing.map frames.chain).getD []

theorem Linked.define (linked : Linked parents frames) (frame : FrameId) (name : String) (value : Value) :
    Linked parents (frames.define frame name value) where
  size := (changesOnly_define frames frame name value).size.trans linked.size
  older := linked.older
  chain made := by
    have kept : (frames.define frame name value).chain = frames.chain :=
      funext (chain_define frames frame · name value)
    rw [kept, linked.chain made]

/-- A frame in a list with one more at its end is among the earlier ones or the new one. -/
theorem made_or_latest {latest enclosing : Option FrameId} (made : (parents ++ [latest])[frame]? = some enclosing) :
    parents[frame]? = some enclosing ∨ frame = parents.length ∧ latest = enclosing := by
  by_cases earlier : frame < parents.length
  · exact .inl (by rwa [List.getElem?_append_left earlier] at made)
  · have within := (List.getElem?_eq_some_iff.mp made).1
    rw [List.length_append, List.length_singleton] at within
    have last : frame = parents.length := Nat.le_antisymm (Nat.lt_succ_iff.mp within) (Nat.not_lt.mp earlier)
    rw [last, List.getElem?_concat_length, Option.some.injEq] at made
    exact .inr ⟨last, made⟩

theorem Linked.create (linked : Linked parents frames) {latest : Option FrameId}
    (present : ∀ outer ∈ latest, outer < parents.length) :
    Linked (parents ++ [latest]) (frames.create latest).2 where
  size := by simp [Frames.create, linked.size]
  older made := by
    rcases made_or_latest made with made | ⟨rfl, rfl⟩
    · exact linked.older made
    · exact present _ rfl
  chain {frame enclosing} made := by
    have kept {outer : FrameId} (before : outer < parents.length) :
        (frames.create latest).2.chain outer = frames.chain outer :=
      chain_create_of_lt frames latest (linked.size ▸ before)
    rcases made_or_latest made with made | ⟨rfl, rfl⟩
    · have before := (List.getElem?_eq_some_iff.mp made).1
      rw [kept before, linked.chain made]
      cases enclosing with
      | none => rfl
      | some outer => simp [kept (Nat.lt_trans (linked.older made) before)]
    · rw [← linked.size]
      cases latest with
      | none => simp [Frames.create, Frames.chain]
      | some outer =>
        rw [Option.map_some, Option.getD_some, kept (present outer rfl)]
        exact chain_create_self frames outer

theorem Forest.linked (forest : Forest parents frames) : Linked parents frames := by
  induction forest with
  | empty => exact ⟨rfl, by simp, by simp⟩
  | create _ _ present ih => exact ih.create present
  | define _ frame name value ih => exact ih.define frame name value
  | assign _ assigned ih =>
    obtain ⟨holder, _, rfl⟩ := eq_define_of_assign? assigned
    exact ih.define _ _ _
  | setAt _ assigned ih =>
    obtain ⟨link, _, rfl⟩ := eq_define_of_setAt? assigned
    exact ih.define _ _ _

namespace Linked

theorem chain_of_absent (linked : Linked parents frames) (absent : parents[frame]? = none) :
    frames.chain frame = [] := by
  have beyond := List.getElem?_eq_none_iff.mp absent
  rw [← linked.size] at beyond
  simp [Frames.chain, Array.getElem?_eq_none beyond]

/-- Walking outward goes along the links that frames have been made with. -/
theorem link?_eq_some_iff (linked : Linked parents frames) :
    frames.link? frame distance = some link ↔ Outward parents frame distance link := by
  induction distance generalizing frame with
  | zero =>
    constructor
    · intro found
      cases made : parents[frame]? with
      | none => simp [link?, linked.chain_of_absent made] at found
      | some enclosing =>
        rw [link?, linked.chain made, List.getElem?_cons_zero, Option.some.injEq] at found
        exact found ▸ .here (List.getElem?_eq_some_iff.mp made).1
    · rintro ⟨present⟩
      rw [link?, linked.chain (List.getElem?_eq_getElem present), List.getElem?_cons_zero]
  | succ distance ih =>
    constructor
    · intro found
      cases made : parents[frame]? with
      | none => simp [link?, linked.chain_of_absent made] at found
      | some enclosing =>
        rw [link?, linked.chain made, List.getElem?_cons_succ] at found
        cases enclosing with
        | none => simp at found
        | some outer => exact .out made (ih.mp found)
    · rintro (_ | ⟨inside, onward⟩)
      rw [link?, linked.chain inside, List.getElem?_cons_succ]
      exact ih.mpr onward

/-- The frame that a search ends at is the one at the least distance. -/
theorem holder?_eq_some_iff (linked : Linked parents frames) :
    frames.holder? frame name = some holder ↔ ∃ distance, Nearest parents frames frame name distance holder := by
  rw [holder?, List.find?_eq_some_iff_getElem]
  constructor
  · rintro ⟨bound, distance, within, same, unbound⟩
    have found : frames.link? frame distance = some holder := List.getElem?_eq_some_iff.mpr ⟨within, same⟩
    have outward := linked.link?_eq_some_iff.mp found
    refine ⟨distance, outward, ⟨holder, outward, bound⟩, ?_⟩
    rintro nearer ⟨link, walked, binds⟩
    by_contra less
    obtain ⟨within', same'⟩ := List.getElem?_eq_some_iff.mp (linked.link?_eq_some_iff.mpr walked)
    have refused := unbound nearer (Nat.not_le.mp less)
    rw [same', binds] at refused
    cases refused
  · rintro ⟨distance, outward, ⟨link, walked, bound⟩, least⟩
    have found := linked.link?_eq_some_iff.mpr outward
    obtain rfl : holder = link := Option.some.inj (found.symm.trans (linked.link?_eq_some_iff.mpr walked))
    obtain ⟨within, same⟩ := List.getElem?_eq_some_iff.mp found
    refine ⟨bound, distance, within, same, fun nearer less => ?_⟩
    have walked' := linked.link?_eq_some_iff.mp (List.getElem?_eq_getElem (Nat.lt_trans less within))
    by_contra binds
    rw [Bool.not_eq_true', Bool.not_eq_false] at binds
    exact absurd (least ⟨_, walked', binds⟩) (Nat.not_le.mpr less)

/-- A search that ends at a frame has found a binding, so it does not where there is none. -/
theorem holder?_eq_none (linked : Linked parents frames) (unbound : bindings parents frames frame name = ∅) :
    frames.holder? frame name = none := by
  cases found : frames.holder? frame name with
  | none => rfl
  | some holder =>
    obtain ⟨distance, nearest⟩ := linked.holder?_eq_some_iff.mp found
    exact absurd nearest.least.1 (unbound ▸ Set.notMem_empty distance)

/-- At the distance of the nearest binding is what a search finds. -/
theorem lookup?_eq_getAt (linked : Linked parents frames)
    (nearest : Nearest parents frames frame name distance holder) :
    ∃ held, frames.lookup? frame name = some held ∧ frames.getAt frame distance name = .ok held := by
  have found : frames.holder? frame name = some holder := linked.holder?_eq_some_iff.mpr ⟨distance, nearest⟩
  have walked := linked.link?_eq_some_iff.mpr nearest.outward
  obtain ⟨held, bound⟩ := Option.isSome_iff_exists.mp (contains_of_holder? found)
  exact ⟨held, by simp [lookup?, found, bound], by simp [getAt, walked, bound]⟩

/-- An assignment that searches binds the name where one at the distance of the nearest binding does. -/
theorem assign?_eq_setAt? (linked : Linked parents frames)
    (nearest : Nearest parents frames frame name distance holder) (value : Value) :
    frames.assign? frame name value = some (frames.define holder name value) ∧
      frames.setAt? frame distance name value = some (frames.define holder name value) := by
  have found : frames.holder? frame name = some holder := linked.holder?_eq_some_iff.mpr ⟨distance, nearest⟩
  have walked := linked.link?_eq_some_iff.mpr nearest.outward
  exact ⟨by simp [assign?, found], by simp [setAt?, walked]⟩

end Linked

theorem Nearest.bound (nearest : Nearest parents frames frame name distance holder) (linked : Linked parents frames) :
    (frames.names holder).contains name = true :=
  contains_of_holder? (linked.holder?_eq_some_iff.mpr ⟨distance, nearest⟩)

/-- Where a search ends depends on the links and on which frames bind the name, and these stay as they are if a name is
bound again. -/
theorem holder?_define (bound : (frames.names holder).contains name = true) (value : Value) (observer : FrameId)
    (query : String) : (frames.define holder name value).holder? observer query = frames.holder? observer query := by
  have same (link : FrameId) :
      ((frames.define holder name value).names link).contains query = (frames.names link).contains query := by
    rw [Bool.eq_iff_iff, contains_define]
    refine or_iff_left_of_imp ?_
    rintro ⟨rfl, _, rfl⟩
    exact bound
  simp only [holder?, chain_define, same]

/-- A new value is seen from the frames whose search for the name ends where it was changed, and from no others. -/
theorem lookup?_define (bound : (frames.names holder).contains name = true) (value : Value) (observer : FrameId)
    (query : String) :
    (frames.define holder name value).lookup? observer query =
      if query = name ∧ frames.holder? observer name = some holder then some value
      else frames.lookup? observer query := by
  have rebinds := rebinds_define bound value
  simp only [lookup?, holder?_define bound]
  by_cases asked : query = name
  · subst asked
    cases found : frames.holder? observer query with
    | none => simp
    | some link =>
      by_cases same : link = holder
      · subst same
        simpa using rebinds.held
      · simp [same, names_define_of_ne frames (Ne.symm same)]
  · cases found : frames.holder? observer query with
    | none => simp [asked]
    | some link =>
      by_cases same : link = holder
      · subst same
        simpa [asked] using rebinds.others query asked
      · simp [asked, names_define_of_ne frames (Ne.symm same)]

/-- Searching for a name and taking it at a distance come to the same. Around a frame of any forest, let a name be bound
at some distances. At the least of them is the value that a search finds, and an assignment there is the one that a
search makes: it gives the name another value in that one frame and changes nothing else, so that the new value is found
from every frame whose nearest binding this is, and from every other one what was found before. If there is no such
distance, both searches are at fault and leave all as it is. A definition changes its own frame only. -/
theorem nearest_binding_decides (forest : Forest parents frames) (present : frame < parents.length) (name : String)
    (value : Value) :
    (∀ distance holder, Nearest parents frames frame name distance holder →
      (∃ held, frames.lookup? frame name = some held ∧ frames.getAt frame distance name = .ok held) ∧
      (∃ after, frames.assign? frame name value = some after ∧ frames.setAt? frame distance name value = some after ∧
        Rebinds holder name value frames after ∧
        ∀ observer query,
          (query = name ∧ (∃ distance, Nearest parents frames observer name distance holder) →
            after.lookup? observer query = some value) ∧
          (¬(query = name ∧ ∃ distance, Nearest parents frames observer name distance holder) →
            after.lookup? observer query = frames.lookup? observer query)) ∧
      ∀ (machine : Machine) (token : Token), frames.AtHand frame machine → token.lexeme = name →
        Access.readFrom Machine.current token machine = Access.readAt distance name machine ∧
        Access.assignFrom Machine.current token value machine = Access.assignAt distance name value machine) ∧
    (bindings parents frames frame name = ∅ →
      frames.lookup? frame name = none ∧ frames.assign? frame name value = none ∧
      ∀ (machine : Machine) (token : Token), frames.AtHand frame machine → token.lexeme = name →
        ∃ fault : RuntimeFault, fault.message.text = "Undefined variable '" ++ name ++ "'." ∧
          Access.readFrom Machine.current token machine = .error (.fault ⟨fault, token⟩) machine ∧
          Access.assignFrom Machine.current token value machine = .error (.fault ⟨fault, token⟩) machine) ∧
    ChangesOnly frame frames (frames.define frame name value) ∧
      (frames.define frame name value).names frame = (frames.names frame).set name value := by
  have linked := forest.linked
  refine ⟨fun distance holder nearest => ?_, fun unbound => ?_, changesOnly_define frames frame name value,
    names_define_self frames (linked.size ▸ present) name value⟩
  · have bound := nearest.bound linked
    have found : frames.holder? frame name = some holder := linked.holder?_eq_some_iff.mpr ⟨distance, nearest⟩
    have walked := linked.link?_eq_some_iff.mpr nearest.outward
    obtain ⟨held, searched, taken⟩ := linked.lookup?_eq_getAt nearest
    obtain ⟨assigned, set⟩ := linked.assign?_eq_setAt? nearest value
    refine ⟨⟨held, searched, taken⟩, ⟨_, assigned, set, rebinds_define bound value, fun observer query => ?_⟩, ?_⟩
    · rw [lookup?_define bound, ← linked.holder?_eq_some_iff]
      exact ⟨fun seen => if_pos seen, fun hidden => if_neg hidden⟩
    · rintro machine token ⟨rfl, rfl⟩ rfl
      rw [Access.readFrom_apply, Access.readAt_apply, Access.assignFrom_apply, Access.assignAt_apply, searched, taken,
        found, walked]
      exact ⟨rfl, rfl⟩
  · have missing := linked.holder?_eq_none unbound
    have unread : frames.lookup? frame name = none := by simp [lookup?, missing]
    refine ⟨unread, by simp [assign?, missing], ?_⟩
    rintro machine token ⟨rfl, rfl⟩ rfl
    have told : (RuntimeFault.undefinedVariable token.lexeme).message.text =
        "Undefined variable '" ++ token.lexeme ++ "'." := by
      simp [RuntimeFault.message, Text.Styled.text, Text.Span.text, String.append_assoc]
    refine ⟨_, told, ?_, ?_⟩
    · rw [Access.readFrom_apply, unread]
    · rw [Access.assignFrom_apply, missing]

/-- Two frames share the one around them, which binds `a`; one of the two binds it as well, and in the other one stands
a fourth frame. An assignment from there is seen by the frame in between, and not by the one that has its own. -/
theorem nearest_binding_decides_for_siblings :
    let parents := [none, some 0, some 0, some 1]
    let frames := ((((create {} none).2.create (some 0)).2.create (some 0)).2.create (some 1)).2
      |>.define 0 "a" .nil |>.define 2 "a" (.bool true)
    Forest parents frames ∧ 3 < parents.length ∧ Nearest parents frames 3 "a" 2 0 ∧
      bindings parents frames 3 "b" = ∅ ∧
      ∃ after, frames.assign? 3 "a" (.bool false) = some after ∧ frames.setAt? 3 2 "a" (.bool false) = some after ∧
        after.lookup? 1 "a" = some (.bool false) ∧ after.lookup? 2 "a" = frames.lookup? 2 "a" ∧
        frames.assign? 3 "b" .nil = none := by
  intro parents frames
  have siblings := ((Forest.empty.create none (by simp)).create (some 0) (by simp)).create (some 0) (by simp)
  have forest : Forest parents frames :=
    ((siblings.create (some 1) (by simp)).define 0 "a" .nil).define 2 "a" (.bool true)
  have outward : Outward parents 3 2 0 := .out rfl (.out rfl (.here (by decide)))
  have nearest : Nearest parents frames 3 "a" 2 0 := by
    refine ⟨outward, ⟨0, outward, by decide⟩, ?_⟩
    rintro nearer ⟨link, walked, bound⟩
    have found := forest.linked.link?_eq_some_iff.mpr walked
    match nearer with
    | 0 =>
      obtain rfl : 3 = link := Option.some.inj found
      exact absurd bound (by decide)
    | 1 =>
      obtain rfl : 1 = link := Option.some.inj found
      exact absurd bound (by decide)
    | _ + 2 => omega
  have unbound : bindings parents frames 3 "b" = ∅ := by
    refine Set.eq_empty_of_forall_notMem ?_
    rintro distance ⟨link, _, bound⟩
    have fresh : ({} : Frames).names link = .empty := names_eq_empty_of_le (Nat.zero_le link)
    simp only [frames, contains_define, names_create, fresh] at bound
    simp [Table.contains] at bound
  have present : (3 : FrameId) < parents.length := by decide
  obtain ⟨_, ⟨after, assigned, set, _, seen⟩, _⟩ :=
    (nearest_binding_decides forest present "a" (.bool false)).1 2 0 nearest
  obtain ⟨_, refused, _⟩ := (nearest_binding_decides forest present "b" .nil).2.1 unbound
  have holder₁ : frames.holder? 1 "a" = some 0 := by decide
  have holder₂ : frames.holder? 2 "a" = some 2 := by decide
  refine ⟨forest, present, nearest, unbound, after, assigned, set, (seen 1 "a").1 ?_, (seen 2 "a").2 ?_, refused⟩
  · exact ⟨rfl, forest.linked.holder?_eq_some_iff.mp holder₁⟩
  · rintro ⟨_, elsewhere⟩
    have same := holder₂.symm.trans (forest.linked.holder?_eq_some_iff.mpr elsewhere)
    exact absurd (Option.some.inj same) (by decide)

end Frames

end Lox
