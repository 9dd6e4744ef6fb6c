import Lox.Proofs.Run.Store

/-!
Frames of two runs that hold the same values, though perhaps under different names. For each frame it is
planned which names it may ever hold and what the other run calls them.
-/
namespace Lox

namespace Table

variable {α : Type} {table : Table α} {other : String → String} {name target : String}

/-- The table under other names. -/
def rekey (other : String → String) (table : Table α) : Table α :=
  ⟨table.entries.map fun entry => (other entry.1, entry.2)⟩

/-- Of the names in the table, `target` is what `name` is called and no other one. -/
def Calls (table : Table α) (other : String → String) (name target : String) : Prop :=
  ∀ query, table.contains query = true → (other query = target ↔ query = name)

theorem Calls.tail {key : String} {value : α} {rest : List (String × α)}
    (calls : Calls ⟨(key, value) :: rest⟩ other name target) : Calls ⟨rest⟩ other name target := by
  intro query held
  apply calls query
  simp only [contains, get?, List.lookup_cons] at held ⊢
  split
  · rfl
  · exact held

theorem Calls.head {key : String} {value : α} {rest : List (String × α)}
    (calls : Calls ⟨(key, value) :: rest⟩ other name target) : other key = target ↔ key = name :=
  calls key (by simp [contains, get?])

theorem get?_rekey (calls : table.Calls other name target) : (table.rekey other).get? target = table.get? name := by
  obtain ⟨entries⟩ := table
  induction entries with
  | nil => rfl
  | cons entry rest ih =>
    obtain ⟨key, value⟩ := entry
    have tail := ih calls.tail
    have head : (target == other key) = (name == key) := by
      rw [Bool.eq_iff_iff, beq_iff_eq, beq_iff_eq, eq_comm, calls.head, eq_comm]
    simp only [rekey, get?, List.map_cons, List.lookup_cons, head] at tail ⊢
    rw [tail]

theorem rekey_set (calls : table.Calls other name (other name)) (value : α) :
    (table.set name value).rekey other = (table.rekey other).set (other name) value := by
  obtain ⟨entries⟩ := table
  simp only [rekey, set, mk.injEq]
  induction entries with
  | nil => rfl
  | cons entry rest ih =>
    obtain ⟨key, old⟩ := entry
    have tail := ih calls.tail
    by_cases same : key = name
    · simp [setIn, same]
    · have apart : other key ≠ other name := fun equal => same (calls.head.mp equal)
      simp only [setIn, same, if_false, List.map_cons, apart, tail]

theorem rekey_id (table : Table α) : table.rekey id = table := by
  obtain ⟨entries⟩ := table
  simp [rekey]

end Table

/-- The names that a frame may hold, and the names under which the frame of the other run holds the same. No
name is taken for a keyword. -/
structure Keys where
  may : String → Prop
  other : String → String
  injective : ∀ {name query}, may name → may query → other name = other query → name = query
  keyword : ∀ {name keyword}, may name → keyword = "this" ∨ keyword = "super" → (other name = keyword ↔ name = keyword)

namespace Keys

/-- Some names, which the other run has as well. -/
def only (may : String → Prop) : Keys := ⟨may, id, fun _ _ same => same, fun _ _ => .rfl⟩

/-- Any names. -/
def all : Keys := only fun _ => True

end Keys

/-- A scope around a place: the names of its frames, and those that they have at that point. -/
structure Layer where
  keys : Keys
  ready : List String

namespace Layer

/-- A declaration inside some layers. At the top level it is for the global frame, where names are the same. -/
def Declares (layers : List Layer) (name name' : String) (after : List Layer) : Prop :=
  match layers with
  | [] => name' = name ∧ after = []
  | layer :: outer => layer.keys.may name ∧ name' = layer.keys.other name ∧
      after = ⟨layer.keys, name :: layer.ready⟩ :: outer

/-- The layer of the methods of a class that has a superclass. -/
def ofSuper : Layer := ⟨.only (· = "super"), ["super"]⟩

/-- The layer of a bound method. -/
def ofThis : Layer := ⟨.only (· = "this"), ["this"]⟩

/-- The layers around the methods of a class, before they are bound. -/
def inherited (hasSuperclass : Bool) (layers : List Layer) : List Layer :=
  if hasSuperclass then ofSuper :: layers else layers

theorem ready_inherited (hasSuperclass : Bool) (layers : List Layer) :
    (ofThis :: inherited hasSuperclass layers).map ready = Node.classScopes hasSuperclass ++ layers.map ready := by
  cases hasSuperclass <;> rfl

/-- Layers with more names ready in the innermost one. -/
def grown (names : List String) : List Layer → List Layer
  | [] => []
  | layer :: outer => ⟨layer.keys, names ++ layer.ready⟩ :: outer

/-- The innermost layer may have a name. At the top level any name may be declared. -/
def Allows (name : String) : List Layer → Prop
  | [] => True
  | layer :: _ => layer.keys.may name

theorem ready_grown (names : List String) (layers : List Layer) :
    (grown names layers).map ready = Place.declare names (layers.map ready) := by
  cases layers <;> rfl

theorem grown_nil (layers : List Layer) : grown [] layers = layers := by
  cases layers <;> rfl

theorem allows_grown {name : String} {names : List String} {layers : List Layer} :
    Allows name (grown names layers) ↔ Allows name layers := by
  cases layers <;> rfl

theorem grown_grown (later earlier : List String) (layers : List Layer) :
    grown later (grown earlier layers) = grown (later ++ earlier) layers := by
  cases layers <;> simp [grown]

end Layer

/-- The frames of a run, with the names planned for them. -/
structure Plan where
  frames : Frames
  keys : FrameId → Keys

namespace Plan

variable {plan before middle after : Plan} {frames frames' : Frames} {frame : FrameId} {layers : List Layer}
  {name : String} {value : Value}

/-- Frames keep what they have, and what is planned for them. -/
structure Later (before after : Plan) : Prop where
  grow : before.frames.Grow after.frames
  keys : ∀ frame < before.frames.all.size, after.keys frame = before.keys frame

theorem Later.refl (plan : Plan) : plan.Later plan := ⟨.refl _, fun _ _ => rfl⟩

theorem Later.trans (first : before.Later middle) (second : middle.Later after) : before.Later after where
  grow := first.grow.trans second.grow
  keys frame older := by rw [second.keys frame (Nat.lt_of_lt_of_le older first.grow.size), first.keys frame older]

/-- A frame that stands inside some layers: around it are frames for all of them, and outside of those the
global frame. -/
def Stands (plan : Plan) (layers : List Layer) (frame : FrameId) : Prop :=
  ∃ links, plan.frames.chain frame = links ++ [globalFrame] ∧
    List.Forall₂ (fun link layer => link ≠ globalFrame ∧ link < plan.frames.all.size ∧ plan.keys link = layer.keys ∧
      ∀ name ∈ layer.ready, (plan.frames.names link).contains name = true) links layers

namespace Stands

theorem present (stands : plan.Stands layers frame) : frame < plan.frames.all.size := by
  obtain ⟨links, chain, _⟩ := stands
  cases links with
  | nil => exact (Frames.lt_size_of_chain chain).1
  | cons link links => exact (Frames.lt_size_of_chain chain).1

theorem mono (stands : before.Stands layers frame) (later : before.Later after) : after.Stands layers frame := by
  have older := stands.present
  obtain ⟨links, chain, fit⟩ := stands
  refine ⟨links, by rw [later.grow.chain frame older, chain], fit.imp fun link layer ⟨inner, present, keys, ready⟩ => ?_⟩
  exact ⟨inner, Nat.lt_of_lt_of_le present later.grow.size, (later.keys link present).trans keys,
    fun name member => later.grow.names link name (ready name member)⟩

/-- The frame at a distance stands for the layer there; right outside of the layers is the global frame. -/
theorem link? (stands : plan.Stands layers frame) (distance : Nat) :
    match layers[distance]? with
    | some layer => ∃ link, plan.frames.link? frame distance = some link ∧ link < plan.frames.all.size ∧
        plan.keys link = layer.keys ∧ ∀ name ∈ layer.ready, (plan.frames.names link).contains name = true
    | none => ∀ link, plan.frames.link? frame distance = some link → link = globalFrame := by
  obtain ⟨links, chain, fit⟩ := stands
  have same := List.Forall₂.length_eq fit
  by_cases near : distance < layers.length
  · have inside : distance < links.length := by omega
    obtain ⟨_, present, keys, ready⟩ := List.forall₂_iff_get.mp fit |>.2 distance inside near
    rw [List.getElem?_eq_getElem near]
    refine ⟨links[distance], ?_, present, keys, ready⟩
    rw [Frames.link?, chain, List.getElem?_append_left inside, List.getElem?_eq_getElem inside]
  · rw [List.getElem?_eq_none (by omega)]
    intro link found
    rw [Frames.link?, chain, List.getElem?_append_right (by omega)] at found
    exact List.mem_singleton.mp (List.mem_of_getElem? found)

end Stands

/-- The frames of two runs are as planned. -/
structure Holds (plan : Plan) (frames frames' : Frames) : Prop where
  same : plan.frames = frames
  root : frames.chain globalFrame = [globalFrame]
  size : frames'.all.size = frames.all.size
  chain : ∀ frame, frames'.chain frame = frames.chain frame
  names : ∀ frame, frames'.names frame = (frames.names frame).rekey (plan.keys frame).other
  may : ∀ frame name, (frames.names frame).contains name = true → (plan.keys frame).may name
  global : plan.keys globalFrame = .all

namespace Holds

theorem calls (holds : plan.Holds frames frames') (may : (plan.keys frame).may name) :
    (frames.names frame).Calls (plan.keys frame).other name ((plan.keys frame).other name) :=
  fun query held => ⟨(plan.keys frame).injective (holds.may frame query held) may, fun same => by rw [same]⟩

theorem get? (holds : plan.Holds frames frames') (may : (plan.keys frame).may name) :
    (frames'.names frame).get? ((plan.keys frame).other name) = (frames.names frame).get? name := by
  rw [holds.names]
  exact Table.get?_rekey (holds.calls may)

theorem keyword (holds : plan.Holds frames frames') (isKeyword : name = "this" ∨ name = "super") (frame : FrameId) :
    (frames'.names frame).get? name = (frames.names frame).get? name := by
  rw [holds.names]
  exact Table.get?_rekey fun query held => (plan.keys frame).keyword (holds.may frame query held) isKeyword

theorem link? (holds : plan.Holds frames frames') (frame : FrameId) (distance : Nat) :
    frames'.link? frame distance = frames.link? frame distance := by
  simp only [Frames.link?, holds.chain]

theorem names_global (holds : plan.Holds frames frames') : frames'.names globalFrame = frames.names globalFrame := by
  rw [holds.names, holds.global]
  exact Table.rekey_id _

/-- A name that a frame may have is bound in it. -/
theorem define (holds : plan.Holds frames frames') (present : frame < frames.all.size)
    (may : (plan.keys frame).may name) (value : Value) :
    Holds ⟨frames.define frame name value, plan.keys⟩ (frames.define frame name value)
      (frames'.define frame ((plan.keys frame).other name) value) where
  same := rfl
  root := by rw [Frames.chain_define, holds.root]
  size := by simp [Frames.define, holds.size]
  chain other := by simp [holds.chain]
  names other := by
    have present' : frame < frames'.all.size := holds.size ▸ present
    rw [Frames.names_define, Frames.names_define]
    by_cases same : frame = other
    · subst same
      simp only [present, present', and_self, if_true, holds.names]
      exact (Table.rekey_set (holds.calls may) value).symm
    · simp only [same, false_and, if_false, holds.names]
  may other query held := by
    rcases (Frames.contains_define _ _ _ _).mp held with older | ⟨rfl, _, rfl⟩
    · exact holds.may other query older
    · exact may
  global := holds.global

end Holds

theorem later_define (plan : Plan) (frame : FrameId) (name : String) (value : Value) :
    plan.Later ⟨plan.frames.define frame name value, plan.keys⟩ :=
  ⟨Frames.grow_define _ _ _ _, fun _ _ => rfl⟩

/-- Binding a name in a frame gets it ready in the layer that the frame stands for. -/
theorem Stands.define {layer : Layer} (stands : plan.Stands (layer :: layers) frame) (name : String) (value : Value) :
    Stands ⟨plan.frames.define frame name value, plan.keys⟩ (⟨layer.keys, name :: layer.ready⟩ :: layers) frame := by
  have present := stands.present
  have moved := stands.mono (plan.later_define frame name value)
  obtain ⟨links, chain, fit⟩ := moved
  refine ⟨links, chain, ?_⟩
  cases fit with
  | @cons link _ links _ head tail =>
    obtain ⟨_, rfl⟩ := Frames.lt_size_of_chain chain
    refine .cons ⟨head.1, head.2.1, head.2.2.1, fun query member => ?_⟩ tail
    rcases List.mem_cons.mp member with rfl | older
    · exact (Frames.contains_define _ _ _ _).mpr (.inr ⟨rfl, present, rfl⟩)
    · exact head.2.2.2 query older

/-- The frame at hand at the top level. -/
theorem Stands.eq_global (stands : plan.Stands [] frame) : frame = globalFrame := by
  obtain ⟨links, chain, fit⟩ := stands
  cases fit
  exact (Frames.lt_size_of_chain chain).2.symm

theorem Stands.keys {layer : Layer} (stands : plan.Stands (layer :: layers) frame) : plan.keys frame = layer.keys := by
  obtain ⟨links, chain, fit⟩ := stands
  cases fit with
  | cons head _ =>
    obtain ⟨_, rfl⟩ := Frames.lt_size_of_chain chain
    exact head.2.2.1

theorem Stands.weaken {keys : Keys} {ready fewer : List String} (stands : plan.Stands (⟨keys, ready⟩ :: layers) frame)
    (among : ∀ name ∈ fewer, name ∈ ready) : plan.Stands (⟨keys, fewer⟩ :: layers) frame := by
  obtain ⟨links, chain, fit⟩ := stands
  cases fit with
  | cons head tail =>
    refine ⟨_, chain, .cons ⟨head.1, head.2.1, head.2.2.1, fun name member => ?_⟩ tail⟩
    exact head.2.2.2 name (among name member)

/-- What is declared where a frame stands is bound in it. -/
theorem Holds.declare {name' : String} {next : List Layer} (holds : plan.Holds frames frames')
    (stands : plan.Stands layers frame) (declares : Layer.Declares layers name name' next) (value : Value) :
    Holds ⟨frames.define frame name value, plan.keys⟩ (frames.define frame name value) (frames'.define frame name' value) ∧
      Stands ⟨frames.define frame name value, plan.keys⟩ next frame := by
  have same := holds.same
  subst same
  cases layers with
  | nil =>
    obtain ⟨rfl, rfl⟩ := declares
    have global := stands.eq_global
    subst global
    have may : (plan.keys globalFrame).may name' := by
      rw [holds.global]
      trivial
    have bound := holds.define stands.present may value
    rw [holds.global] at bound
    exact ⟨bound, stands.mono (plan.later_define _ _ _)⟩
  | cons layer outer =>
    obtain ⟨may, rfl, rfl⟩ := declares
    rw [← stands.keys] at may
    have bound := holds.define stands.present may value
    rw [stands.keys] at bound
    exact ⟨bound, stands.define name value⟩

/-- The plan with a new frame inside another one. -/
def extend (plan : Plan) (enclosing : FrameId) (keys : Keys) : Plan :=
  ⟨(plan.frames.create (some enclosing)).2, fun frame => if frame = plan.frames.all.size then keys else plan.keys frame⟩

theorem later_extend (plan : Plan) (enclosing : FrameId) (keys : Keys) : plan.Later (plan.extend enclosing keys) :=
  ⟨Frames.grow_create _ _, fun frame older => by simp [extend, Nat.ne_of_lt older]⟩

theorem chain_create (frames : Frames) (enclosing frame : FrameId) :
    (frames.create (some enclosing)).2.chain frame =
      if frame = frames.all.size then frame :: frames.chain enclosing else frames.chain frame := by
  by_cases new : frame = frames.all.size
  · simp [new, Frames.chain, Frames.create]
  · simp [new, Frames.chain, Frames.create, Array.getElem?_push]

theorem Holds.extend (holds : plan.Holds frames frames') {enclosing : FrameId} (keys : Keys) :
    (plan.extend enclosing keys).Holds (frames.create (some enclosing)).2 (frames'.create (some enclosing)).2 := by
  have sized : globalFrame < frames.all.size := (Frames.lt_size_of_chain holds.root).1
  have same := holds.same
  subst same
  refine ⟨rfl, ?_, by simp [Frames.create, holds.size], fun frame => ?_, fun frame => ?_, fun frame name held => ?_, ?_⟩
  · rw [Frames.chain_create_of_lt _ _ sized, holds.root]
  · simp only [chain_create, holds.size, holds.chain]
  · rw [Frames.names_create, Frames.names_create]
    by_cases new : frame = plan.frames.all.size
    · have empty : plan.frames.names frame = .empty := Frames.names_eq_empty_of_le (by simp [new])
      have empty' : frames'.names frame = .empty := Frames.names_eq_empty_of_le (by simp [holds.size, new])
      rw [empty, empty']
      rfl
    · simp only [Plan.extend, new, if_false, holds.names]
  · rw [Frames.names_create] at held
    have older : frame ≠ plan.frames.all.size := by
      rintro rfl
      rw [Frames.names_eq_empty_of_le (Nat.le_refl _)] at held
      cases held
    simpa only [Plan.extend, older, if_false] using holds.may frame name held
  · simp [Plan.extend, Nat.ne_of_lt sized, holds.global]

/-- Names that a frame may have are bound in it. -/
theorem Holds.defineAll {keys : FrameId → Keys} (holds : Holds ⟨frames, keys⟩ frames frames')
    (present : frame < frames.all.size) {names : List String} (may : ∀ name ∈ names, (keys frame).may name)
    (values : List Value) :
    Holds ⟨frames.defineAll frame (names.zip values), keys⟩ (frames.defineAll frame (names.zip values))
      (frames'.defineAll frame ((names.map (keys frame).other).zip values)) := by
  induction names generalizing frames frames' values with
  | nil => exact holds
  | cons first rest ih =>
    cases values with
    | nil => exact holds
    | cons value values =>
      have head := holds.define present (may first List.mem_cons_self) value
      have sized : frame < (frames.define frame first value).all.size := by simpa [Frames.define] using present
      exact ih head sized (fun name member => may name (List.mem_cons_of_mem _ member)) values

/-- The plan with a new frame inside another one, in which some names are bound. -/
def opened (plan : Plan) (enclosing : FrameId) (keys : Keys) (names : List String) (values : List Value) : Plan :=
  ⟨(plan.frames.openFrame enclosing (names.zip values)).2, (plan.extend enclosing keys).keys⟩

theorem later_opened (plan : Plan) (enclosing : FrameId) (keys : Keys) (names : List String) (values : List Value) :
    plan.Later (plan.opened enclosing keys names values) :=
  ⟨Frames.grow_openFrame _ _ _, (plan.later_extend enclosing keys).keys⟩

theorem Holds.openFrame (holds : plan.Holds frames frames') {enclosing : FrameId} {keys : Keys} {names : List String}
    (may : ∀ name ∈ names, keys.may name) (values : List Value) :
    (plan.opened enclosing keys names values).Holds (frames.openFrame enclosing (names.zip values)).2
      (frames'.openFrame enclosing ((names.map keys.other).zip values)).2 := by
  have same := holds.same
  subst same
  have chosen : (plan.extend enclosing keys).keys plan.frames.all.size = keys := by simp [Plan.extend]
  have present : plan.frames.all.size < (plan.frames.create (some enclosing)).2.all.size := by simp [Frames.create]
  have allowed : ∀ name ∈ names, ((plan.extend enclosing keys).keys plan.frames.all.size).may name := by rwa [chosen]
  have bound := (holds.extend keys).defineAll present allowed values
  have new : (frames'.create (some enclosing)).1 = plan.frames.all.size := holds.size
  simp only [if_true] at bound
  unfold Frames.openFrame
  rw [new]
  exact bound

theorem Stands.models (stands : plan.Stands layers frame) : plan.frames.Models (layers.map Layer.ready) frame := by
  obtain ⟨links, chain, fit⟩ := stands
  refine ⟨links, chain, List.forall₂_map_right_iff.mpr (fit.imp fun link layer ⟨inner, present, _, ready⟩ => ?_)⟩
  exact ⟨inner, present, ready⟩

theorem Stands.openFrame (stands : plan.Stands layers frame) (root : plan.frames.chain globalFrame = [globalFrame])
    (keys : Keys) {names : List String} {values : List Value} (enough : names.length = values.length) :
    (plan.opened frame keys names values).Stands (⟨keys, names⟩ :: layers) plan.frames.all.size := by
  have sized : globalFrame < plan.frames.all.size := (Frames.lt_size_of_chain root).1
  have listed : (names.zip values).map Prod.fst = names := List.map_fst_zip (Nat.le_of_eq enough)
  have moved := stands.mono (plan.later_opened frame keys names values)
  have kept : (plan.opened frame keys names values).frames.chain frame = plan.frames.chain frame :=
    (plan.later_opened frame keys names values).grow.chain frame stands.present
  -- The names of the new frame are those that the live counterpart of a scope gets.
  obtain ⟨_, chain', fit'⟩ := stands.models.openFrame sized (names.zip values)
  rw [listed] at fit'
  obtain ⟨links, chain, fit⟩ := moved
  cases fit' with
  | @cons link _ _ _ head _ =>
    have same : link = plan.frames.all.size := (Frames.lt_size_of_chain chain').2
    subst same
    refine ⟨plan.frames.all.size :: links, ?_, .cons ⟨(Nat.ne_of_lt sized).symm, ?_, ?_, ?_⟩ fit⟩
    · rw [kept] at chain
      exact (Frames.chain_openFrame _ _ _).trans (congrArg (plan.frames.all.size :: ·) chain)
    · exact head.2.1
    · simp [opened, extend]
    · exact head.2.2

end Plan

end Lox
