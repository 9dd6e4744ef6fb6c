import Lox.Proofs.Run.Store
import Mathlib.Logic.Relation

/-!
Methods and the instances they are bound to. A bound method is a copy of a method that some class has itself. It is
closed over a frame of its own, right inside the one that the method is closed over, and the class of the instance
descends from that class. No change to a store that a program can make alters this.
-/
namespace Lox

/-- The names that frames bind but that programs cannot declare. -/
def IsKeyword (name : String) : Prop := name = "this" ∨ name = "super"

theorem Token.Plain.ne_keyword {token : Token} (plain : token.Plain) {keyword : String} (isKeyword : IsKeyword keyword) :
    keyword ≠ token.lexeme := by
  rcases isKeyword with rfl | rfl
  · exact plain.1.symm
  · exact plain.2.symm

namespace Frames

/-- Frames that are there stay linked as they are, and keep what they bind to the keywords. -/
structure Keep (before after : Frames) : Prop where
  size : before.all.size ≤ after.all.size
  chain : ∀ frame < before.all.size, after.chain frame = before.chain frame
  keyword : ∀ frame < before.all.size, ∀ keyword, IsKeyword keyword →
    (after.names frame).get? keyword = (before.names frame).get? keyword

theorem Keep.refl (frames : Frames) : frames.Keep frames := ⟨Nat.le_refl _, fun _ _ => rfl, fun _ _ _ _ => rfl⟩

theorem Keep.trans {before middle after : Frames} (first : before.Keep middle) (second : middle.Keep after) :
    before.Keep after where
  size := Nat.le_trans first.size second.size
  chain frame older := by rw [second.chain frame (Nat.lt_of_lt_of_le older first.size), first.chain frame older]
  keyword frame older keyword isKeyword := by
    rw [second.keyword frame (Nat.lt_of_lt_of_le older first.size) keyword isKeyword,
      first.keyword frame older keyword isKeyword]

variable {frames : Frames}

theorem keep_define {name : Token} (plain : name.Plain) (frame : FrameId) (value : Value) :
    frames.Keep (frames.define frame name.lexeme value) where
  size := (grow_define frames frame name.lexeme value).size
  chain other _ := chain_define frames frame other name.lexeme value
  keyword other _ keyword isKeyword := by
    rw [names_define]
    split
    · rw [Table.get?_set_of_ne _ (plain.ne_keyword isKeyword)]
    · rfl

theorem keep_openFrame (frames : Frames) (enclosing : FrameId) (bindings : List (String × Value)) :
    frames.Keep (frames.openFrame enclosing bindings).2 where
  size := (grow_openFrame frames enclosing bindings).size
  chain := (grow_openFrame frames enclosing bindings).chain
  keyword frame older _ _ := by
    have apart : (frames.create (some enclosing)).1 ≠ frame := Nat.ne_of_gt older
    rw [openFrame, names_defineAll_of_ne apart, names_create]

/-- A frame in which programs may declare names binds no keyword. -/
def Bare (frames : Frames) (frame : FrameId) : Prop :=
  ∀ keyword, IsKeyword keyword → (frames.names frame).get? keyword = none

theorem Bare.mono {after : Frames} {frame : FrameId} (bare : frames.Bare frame) (keep : frames.Keep after)
    (present : frame < frames.all.size) : after.Bare frame :=
  fun keyword isKeyword => (keep.keyword frame present keyword isKeyword).trans (bare keyword isKeyword)

theorem get?_defineAll_of_not_mem {frame other : FrameId} {bindings : List (String × Value)} {query : String}
    (absent : query ∉ bindings.map Prod.fst) :
    ((frames.defineAll frame bindings).names other).get? query = (frames.names other).get? query := by
  induction bindings generalizing frames with
  | nil => rfl
  | cons first rest ih =>
    rw [List.map_cons, List.mem_cons, not_or] at absent
    refine (ih absent.2).trans ?_
    rw [names_define]
    split
    · exact Table.get?_set_of_ne _ absent.1 _
    · rfl

theorem bare_openFrame (enclosing : FrameId) {bindings : List (String × Value)}
    (plain : ∀ name ∈ bindings.map Prod.fst, ¬ IsKeyword name) :
    (frames.openFrame enclosing bindings).2.Bare frames.all.size := by
  intro keyword isKeyword
  refine (get?_defineAll_of_not_mem fun member => plain keyword member isKeyword).trans ?_
  rw [names_create, names_eq_empty_of_le (Nat.le_refl _)]
  rfl

/-- A new frame with one name. -/
theorem names_openFrame_singleton (enclosing : FrameId) (name : String) (value : Value) :
    (frames.openFrame enclosing [(name, value)]).2.names frames.all.size = Table.empty.set name value := by
  have present : frames.all.size < (frames.create (some enclosing)).2.all.size := by simp [create]
  refine (names_define_self _ present name value).trans ?_
  rw [names_create, names_eq_empty_of_le (Nat.le_refl _)]

end Frames

namespace Store

variable {store before middle after : Store} {function : Function} {receiver : InstanceId} {owner id link : ClassId}

/-- The second class is the superclass of the first. -/
def Inherits (store : Store) (id parent : ClassId) : Prop := store.superclass? id = some parent

/-- The classes are the same, or superclass links lead from the first to the second. -/
def Descends (store : Store) : ClassId → ClassId → Prop := Relation.ReflTransGen store.Inherits

/-- The class of an instance descends from another class. -/
def Serves (store : Store) (owner : ClassId) (receiver : InstanceId) : Prop :=
  ∃ found, store.instances[receiver]? = some found ∧ store.Descends found.owner owner

/-- A method that a class has itself. -/
def Owns (store : Store) (owner : ClassId) (method : Function) : Prop :=
  ∃ found name id, store.classes[owner]? = some found ∧ found.methods.get? name = some id ∧
    store.functions[id]? = some method ∧ method.isInitializer = decide (name = initializerName)

/-- A frame that the methods of a class with this superclass are closed over. -/
structure Closes (store : Store) (parent : Option ClassId) (frame : FrameId) : Prop where
  present : frame < store.frames.all.size
  super : (store.frames.names frame).get? "super" = parent.map .class
  this : (store.frames.names frame).get? "this" = none

/-- A copy of a method of a class, bound to an instance. -/
structure Bond (store : Store) (function : Function) (receiver : InstanceId) (owner : ClassId) : Prop where
  copied : ∃ method, store.Owns owner method ∧ store.Closes (store.superclass? owner) method.closure ∧
    function = { method with closure := function.closure } ∧
    store.frames.chain function.closure = function.closure :: store.frames.chain method.closure
  this : (store.frames.names function.closure).get? "this" = some (.instance receiver)
  serves : store.Serves owner receiver

/-- The invariant of the classes and the bound methods of a running program. -/
structure Bonded (store : Store) : Prop where
  closures : ∀ (id : FunctionId) (function : Function), store.functions[id]? = some function →
    function.closure < store.frames.all.size
  ancestors : ∀ (id : ClassId) (found : Class), store.classes[id]? = some found →
    found.ancestors = [] ∨ ∃ parent < id, found.ancestors = store.lineage parent
  methods : ∀ (owner : ClassId) (found : Class) (name : String) (id : FunctionId), store.classes[owner]? = some found →
    found.methods.get? name = some id → ∃ method, store.functions[id]? = some method ∧
      method.isInitializer = decide (name = initializerName) ∧ store.Closes (store.superclass? owner) method.closure
  bound : ∀ (id : FunctionId) (function : Function) (value : Value), store.functions[id]? = some function →
    (store.frames.names function.closure).get? "this" = some value →
    ∃ receiver owner, value = .instance receiver ∧ store.Bond function receiver owner

/-- What a later store has of an earlier one. -/
structure Keeps (before after : Store) : Prop where
  frames : before.frames.Keep after.frames
  functions : ∀ (id : FunctionId) (function : Function), before.functions[id]? = some function →
    after.functions[id]? = some function
  classes : ∀ (id : ClassId) (found : Class), before.classes[id]? = some found → after.classes[id]? = some found
  owners : ∀ (id : InstanceId) (found : Instance), before.instances[id]? = some found →
    ∃ found', after.instances[id]? = some found' ∧ found'.owner = found.owner

theorem Keeps.refl (store : Store) : store.Keeps store :=
  ⟨.refl _, fun _ _ => id, fun _ _ => id, fun _ found held => ⟨found, held, rfl⟩⟩

theorem Keeps.trans (first : before.Keeps middle) (second : middle.Keeps after) : before.Keeps after where
  frames := first.frames.trans second.frames
  functions id function held := second.functions id function (first.functions id function held)
  classes id found held := second.classes id found (first.classes id found held)
  owners id found held := by
    obtain ⟨found', held', same⟩ := first.owners id found held
    obtain ⟨found'', held'', same'⟩ := second.owners id found' held'
    exact ⟨found'', held'', same'.trans same⟩

section Mono

theorem Keeps.superclass? (keeps : before.Keeps after) {found : Class} (held : before.classes[id]? = some found) :
    after.superclass? id = before.superclass? id := by
  unfold Store.superclass?
  rw [held, keeps.classes id found held]

theorem Keeps.lineage (keeps : before.Keeps after) {found : Class} (held : before.classes[id]? = some found) :
    after.lineage id = before.lineage id := by
  unfold Store.lineage
  rw [held, keeps.classes id found held]

theorem Inherits.mono (inherits : before.Inherits id link) (keeps : before.Keeps after) : after.Inherits id link := by
  unfold Inherits at *
  cases held : before.classes[id]? with
  | none => simp [Store.superclass?, held] at inherits
  | some found => rwa [keeps.superclass? held]

theorem Descends.mono (descends : before.Descends id link) (keeps : before.Keeps after) :
    after.Descends id link := by
  induction descends with
  | refl => exact .refl
  | tail _ inherits ih => exact ih.tail (inherits.mono keeps)

theorem Serves.mono (serves : before.Serves owner receiver) (keeps : before.Keeps after) :
    after.Serves owner receiver := by
  obtain ⟨found, held, descends⟩ := serves
  obtain ⟨found', held', same⟩ := keeps.owners receiver found held
  exact ⟨found', held', same ▸ descends.mono keeps⟩

theorem Closes.mono {parent : Option ClassId} {frame : FrameId} (closes : before.Closes parent frame)
    (keeps : before.Keeps after) : after.Closes parent frame where
  present := Nat.lt_of_lt_of_le closes.present keeps.frames.size
  super := (keeps.frames.keyword frame closes.present _ (.inr rfl)).trans closes.super
  this := (keeps.frames.keyword frame closes.present _ (.inl rfl)).trans closes.this

theorem Bond.present (bond : store.Bond function receiver owner) : function.closure < store.frames.all.size := by
  obtain ⟨_, _, _, _, chain⟩ := bond.copied
  exact (Frames.lt_size_of_chain chain).1

theorem Bond.mono (bond : before.Bond function receiver owner) (keeps : before.Keeps after) :
    after.Bond function receiver owner := by
  have present := bond.present
  obtain ⟨⟨method, ⟨found, name, id, held, listed, stored, initializer⟩, closes, copy, chain⟩, this, serves⟩ := bond
  refine ⟨⟨method, ⟨found, name, id, keeps.classes _ _ held, listed, keeps.functions _ _ stored, initializer⟩, ?_, copy,
    ?_⟩, ?_, serves.mono keeps⟩
  · rw [keeps.superclass? held]
    exact closes.mono keeps
  · rw [keeps.frames.chain _ present, keeps.frames.chain _ closes.present, chain]
  · exact (keeps.frames.keyword _ present _ (.inl rfl)).trans this

end Mono

section Lineage

theorem lineage_eq {found : Class} (held : store.classes[id]? = some found) :
    store.lineage id = id :: found.ancestors := by
  simp [lineage, held]

theorem superclass?_eq {found : Class} (held : store.classes[id]? = some found) :
    store.superclass? id = found.ancestors.head? := by
  simp [superclass?, held]

/-- A class has the superclass that it was made with and those above that, all of them made before it. -/
def Lineages (store : Store) : Prop := ∀ (id : ClassId) (found : Class), store.classes[id]? = some found →
  found.ancestors = [] ∨ ∃ parent < id, found.ancestors = store.lineage parent

/-- A class that has superclasses has one that it inherits from, and comes after it. -/
theorem Lineages.inherits (lineages : store.Lineages) {found : Class} (held : store.classes[id]? = some found) :
    found.ancestors = [] ∨ ∃ parent < id, store.Inherits id parent ∧ found.ancestors = store.lineage parent := by
  rcases lineages id found held with none | ⟨parent, earlier, same⟩
  · exact .inl none
  · cases held' : store.classes[parent]? with
    | none => exact .inl (by simp [same, lineage, held'])
    | some found' =>
      refine .inr ⟨parent, earlier, ?_, same⟩
      rw [Inherits, superclass?_eq held, same, lineage_eq held', List.head?_cons]

/-- The classes that methods are looked for in are those that a class descends from. -/
theorem Lineages.descends_of_mem_lineage (lineages : store.Lineages) (member : link ∈ store.lineage id) :
    store.Descends id link ∧ link ≤ id := by
  induction id using Nat.strongRecOn with
  | _ id ih =>
    cases held : store.classes[id]? with
    | none => simp [lineage, held] at member
    | some found =>
      rw [lineage_eq held, List.mem_cons] at member
      rcases member with rfl | further
      · exact ⟨.refl, Nat.le_refl _⟩
      · rcases lineages.inherits held with none | ⟨parent, earlier, inherits, same⟩
        · simp [none] at further
        · rw [same] at further
          obtain ⟨descends, below⟩ := ih parent earlier further
          exact ⟨.head inherits descends, Nat.le_trans below (Nat.le_of_lt earlier)⟩

theorem Bonded.lineages (bonded : store.Bonded) : store.Lineages := bonded.ancestors

/-- What is looked for from the superclass of a class on is not looked for in the class itself. -/
theorem Bonded.not_mem_lineage (bonded : store.Bonded) {parent : ClassId} (inherits : store.Inherits id parent) :
    id ∉ store.lineage parent := by
  intro member
  have below := (bonded.lineages.descends_of_mem_lineage member).2
  cases held : store.classes[id]? with
  | none => simp [Inherits, superclass?, held] at inherits
  | some found =>
    rcases bonded.lineages.inherits held with none | ⟨other, earlier, inherits', _⟩
    · simp [Inherits, superclass?_eq held, none] at inherits
    · rw [Inherits] at inherits inherits'
      obtain rfl : parent = other := Option.some.inj (inherits.symm.trans inherits')
      exact absurd below (Nat.not_le_of_lt earlier)

end Lineage

section Changes

/-- A change to the frames alone. -/
theorem keeps_withFrames {frames : Frames} (keep : store.frames.Keep frames) : store.Keeps { store with frames } :=
  ⟨keep, fun _ _ => id, fun _ _ => id, fun _ found held => ⟨found, held, rfl⟩⟩

theorem Bonded.withFrames (bonded : store.Bonded) {frames : Frames} (keep : store.frames.Keep frames) :
    Bonded { store with frames } := by
  have keeps : store.Keeps { store with frames } := keeps_withFrames keep
  refine ⟨fun id function held => ?_, bonded.ancestors, fun owner found name id held listed => ?_,
    fun id function value held this => ?_⟩
  · exact Nat.lt_of_lt_of_le (bonded.closures id function held) keep.size
  · obtain ⟨method, stored, initializer, closes⟩ := bonded.methods owner found name id held listed
    exact ⟨method, stored, initializer, closes.mono keeps⟩
  · rw [keep.keyword _ (bonded.closures id function held) _ (.inl rfl)] at this
    obtain ⟨receiver, owner, same, bond⟩ := bonded.bound id function value held this
    exact ⟨receiver, owner, same, bond.mono keeps⟩

theorem keeps_addFunction (store : Store) (function : Function) : store.Keeps (store.addFunction function).2 :=
  ⟨.refl _, (extends_addFunction store function).functions, fun _ _ => id, fun _ found held => ⟨found, held, rfl⟩⟩

/-- The functions of a store with one more. -/
theorem functions_addFunction {other : Function} {id : FunctionId}
    (held : (store.addFunction function).2.functions[id]? = some other) :
    store.functions[id]? = some other ∨ other = function := by
  simp only [addFunction, Array.getElem?_push] at held
  split at held
  · exact .inr (Option.some.inj held).symm
  · exact .inl held

/-- A new function, bound to nothing or to what its frame says. -/
theorem Bonded.addFunction (bonded : store.Bonded) (present : function.closure < store.frames.all.size)
    (bound : ∀ value, (store.frames.names function.closure).get? "this" = some value →
      ∃ receiver owner, value = .instance receiver ∧ store.Bond function receiver owner) :
    (store.addFunction function).2.Bonded := by
  have keeps := keeps_addFunction store function
  refine ⟨fun id other held => ?_, bonded.ancestors, fun owner found name id held listed => ?_,
    fun id other value held this => ?_⟩
  · rcases functions_addFunction held with older | rfl
    · exact bonded.closures id other older
    · exact present
  · obtain ⟨method, stored, initializer, closes⟩ := bonded.methods owner found name id held listed
    exact ⟨method, keeps.functions _ _ stored, initializer, closes.mono keeps⟩
  · have kept : ∃ receiver owner, value = .instance receiver ∧ store.Bond other receiver owner := by
      rcases functions_addFunction held with older | rfl
      · exact bonded.bound id other value older this
      · exact bound value this
    obtain ⟨receiver, owner, same, bond⟩ := kept
    exact ⟨receiver, owner, same, bond.mono keeps⟩

theorem keeps_addClass (store : Store) (definition : Class) : store.Keeps (store.addClass definition).2 where
  frames := .refl _
  functions _ _ := id
  classes id found held := by
    have older := (Array.getElem?_eq_some_iff.mp held).1
    simp [addClass, Array.getElem?_push, Nat.ne_of_lt older, held]
  owners _ found held := ⟨found, held, rfl⟩

/-- A new class, with methods that are closed over a frame for them. -/
theorem Bonded.addClass (bonded : store.Bonded) {parent : Option ClassId} {closure : FrameId} {table : Table FunctionId}
    (name : String) (closes : store.Closes parent closure) (known : ∀ id, parent = some id → id < store.classes.size)
    (methods : ∀ name method, table.get? name = some method → ∃ function, store.functions[method]? = some function ∧
      function.closure = closure ∧ function.isInitializer = decide (name = initializerName)) :
    (store.addClass ⟨name, (parent.map store.lineage).getD [], table⟩).2.Bonded := by
  let definition : Class := ⟨name, (parent.map store.lineage).getD [], table⟩
  have keeps := keeps_addClass store definition
  have new : (store.addClass definition).2.classes[store.classes.size]? = some definition := by simp [Store.addClass]
  have cases {id : ClassId} {found : Class} (held : (store.addClass definition).2.classes[id]? = some found) :
      store.classes[id]? = some found ∨ id = store.classes.size ∧ found = definition := by
    simp only [Store.addClass, Array.getElem?_push] at held
    split at held
    · exact .inr ⟨‹_›, (Option.some.inj held).symm⟩
    · exact .inl held
  have inherited : definition.ancestors = [] ∧ parent = none ∨
      ∃ id < store.classes.size, parent = some id ∧ definition.ancestors = store.lineage id := by
    cases parent with
    | none => exact .inl ⟨rfl, rfl⟩
    | some id => exact .inr ⟨id, known id rfl, rfl, rfl⟩
  have kept {id : ClassId} (present : id < store.classes.size) :
      (store.addClass definition).2.lineage id = store.lineage id :=
    keeps.lineage (Array.getElem?_eq_getElem present)
  refine ⟨bonded.closures, fun id found held => ?_, fun owner found query method held listed => ?_,
    fun id function value held this => ?_⟩
  · rcases cases held with older | ⟨rfl, rfl⟩
    · rcases bonded.ancestors id found older with none | ⟨parent, earlier, same⟩
      · exact .inl none
      · have present := (Array.getElem?_eq_some_iff.mp older).1
        exact .inr ⟨parent, earlier, same.trans (kept (Nat.lt_trans earlier present)).symm⟩
    · rcases inherited with ⟨none, _⟩ | ⟨id, present, _, same⟩
      · exact .inl none
      · exact .inr ⟨id, present, same.trans (kept present).symm⟩
  · rcases cases held with older | ⟨rfl, rfl⟩
    · obtain ⟨function, stored, initializer, closes⟩ := bonded.methods owner found query method older listed
      refine ⟨function, stored, initializer, ?_⟩
      rw [keeps.superclass? older]
      exact closes.mono keeps
    · obtain ⟨function, stored, rfl, initializer⟩ := methods query method listed
      refine ⟨function, stored, initializer, ?_⟩
      have above : (store.addClass definition).2.superclass? store.classes.size = parent := by
        rw [superclass?_eq new]
        rcases inherited with ⟨none, isNone⟩ | ⟨id, present, isSome, same⟩
        · rw [none, isNone, List.head?_nil]
        · rw [same, isSome, lineage_eq (Array.getElem?_eq_getElem present), List.head?_cons]
      rw [above]
      exact closes.mono keeps
  · obtain ⟨receiver, owner, same, bond⟩ := bonded.bound id function value held this
    exact ⟨receiver, owner, same, bond.mono keeps⟩

theorem keeps_addInstance (store : Store) (owner : ClassId) : store.Keeps (store.addInstance owner).2 where
  frames := .refl _
  functions _ _ := id
  classes _ _ := id
  owners id found held := by
    have older := (Array.getElem?_eq_some_iff.mp held).1
    exact ⟨found, by simp [addInstance, Array.getElem?_push, Nat.ne_of_lt older, held], rfl⟩

theorem serves_addInstance (store : Store) (owner : ClassId) :
    (store.addInstance owner).2.Serves owner store.instances.size :=
  ⟨{ owner }, by simp [addInstance], .refl⟩

theorem keeps_setField (store : Store) (id : InstanceId) (name : String) (value : Value) :
    store.Keeps (store.setField id name value) where
  frames := .refl _
  functions _ _ := fun held => held
  classes _ _ := fun held => held
  owners other found held := by
    by_cases same : id = other
    · exact ⟨⟨found.owner, found.fields.set name value⟩, by simp [setField, Array.getElem?_modify, same, held], rfl⟩
    · exact ⟨found, by simp [setField, Array.getElem?_modify, same, held], rfl⟩

/-- A change to the instances alone. -/
theorem Bonded.withInstances (bonded : store.Bonded) {instances : Array Instance}
    (keeps : store.Keeps { store with instances }) : Bonded { store with instances } where
  closures := bonded.closures
  ancestors := bonded.ancestors
  methods owner found name id held listed := by
    obtain ⟨method, stored, initializer, closes⟩ := bonded.methods owner found name id held listed
    exact ⟨method, stored, initializer, closes.mono keeps⟩
  bound id function value held this := by
    obtain ⟨receiver, owner, same, bond⟩ := bonded.bound id function value held this
    exact ⟨receiver, owner, same, bond.mono keeps⟩

/-- The frame that a bound method is closed over. -/
theorem keeps_bindMethod (store : Store) (method : Function) (receiver : InstanceId) :
    store.Keeps (store.bindMethod method receiver).2 :=
  (keeps_withFrames (Frames.keep_openFrame store.frames method.closure [("this", .instance receiver)])).trans
    (keeps_addFunction _ _)

/-- A method of a class gets bound to an instance that the class serves. -/
theorem Bonded.bindMethod (bonded : store.Bonded) {found : Class} {name : String} {id : FunctionId} {method : Function}
    (held : store.classes[owner]? = some found) (listed : found.methods.get? name = some id)
    (stored : store.functions[id]? = some method) (serves : store.Serves owner receiver) :
    (store.bindMethod method receiver).2.Bonded ∧
      (store.bindMethod method receiver).2.Bond { method with closure := store.frames.all.size } receiver owner := by
  obtain ⟨method', stored', initializer, closes⟩ := bonded.methods owner found name id held listed
  obtain rfl : method = method' := Option.some.inj (stored.symm.trans stored')
  let bindings : List (String × Value) := [("this", .instance receiver)]
  let frames := (store.frames.openFrame method.closure bindings).2
  let middle : Store := { store with frames }
  let function : Function := { method with closure := store.frames.all.size }
  have keep : store.frames.Keep frames := Frames.keep_openFrame store.frames method.closure bindings
  have keeps : store.Keeps middle := keeps_withFrames keep
  have names : frames.names store.frames.all.size = Table.empty.set "this" (.instance receiver) :=
    Frames.names_openFrame_singleton method.closure "this" (.instance receiver)
  have bond : middle.Bond function receiver owner := by
    refine ⟨⟨method, ⟨found, name, id, held, listed, stored, initializer⟩, closes.mono keeps, rfl, ?_⟩, ?_,
      serves.mono keeps⟩
    · rw [keep.chain _ closes.present]
      exact Frames.chain_openFrame store.frames method.closure bindings
    · rw [show middle.frames.names function.closure = _ from names, Table.get?_set_self]
  have made : (store.bindMethod method receiver).2 = (middle.addFunction function).2 := rfl
  rw [made]
  refine ⟨(bonded.withFrames keep).addFunction bond.present fun value this => ?_, bond.mono (keeps_addFunction _ _)⟩
  refine ⟨receiver, owner, ?_, bond⟩
  exact Option.some.inj (this.symm.trans bond.this)

end Changes

end Store

end Lox
