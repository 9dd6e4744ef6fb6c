import Lox.Proofs.Scope.Safety
import Lox.Store

/-!
What holds of the store of a running program at all times. The frames that a closure leads to have at least
the names that the scopes around its declaration had ready there. They may have more of them by the time it
is called, so scopes and frames are related by inclusion only, and nothing is ever taken away.
-/
namespace Lox

namespace Frames

/-- Frames that have the names of some scopes, one frame for each scope. None of them is the global one. -/
def Fit (frames : Frames) : List FrameId → List (List String) → Prop :=
  List.Forall₂ fun link names => link ≠ globalFrame ∧ link < frames.all.size ∧
    ∀ name ∈ names, (frames.names link).contains name = true

/-- A frame that stands where some scopes are open: around it are frames for all of them, and outside of
those the global frame. -/
def Models (frames : Frames) (scopes : List (List String)) (frame : FrameId) : Prop :=
  ∃ links, frames.chain frame = links ++ [globalFrame] ∧ frames.Fit links scopes

/-- What one collection of frames has of another one: all frames, with their links and names. -/
structure Grow (before after : Frames) : Prop where
  size : before.all.size ≤ after.all.size
  chain : ∀ frame < before.all.size, after.chain frame = before.chain frame
  names : ∀ frame name, (before.names frame).contains name = true → (after.names frame).contains name = true

theorem Grow.refl (frames : Frames) : frames.Grow frames := ⟨Nat.le_refl _, fun _ _ => rfl, fun _ _ => id⟩

theorem Grow.trans {before middle after : Frames} (first : before.Grow middle) (second : middle.Grow after) :
    before.Grow after where
  size := Nat.le_trans first.size second.size
  chain frame older := by
    rw [second.chain frame (Nat.lt_of_lt_of_le older first.size), first.chain frame older]
  names frame name bound := second.names frame name (first.names frame name bound)

variable {frames : Frames} {scopes : List (List String)} {frame : FrameId}

theorem lt_size_of_chain {link : FrameId} {rest : List FrameId} (chain : frames.chain frame = link :: rest) :
    frame < frames.all.size ∧ link = frame := by
  unfold Frames.chain at chain
  split at chain
  · cases chain
  · rename_i found
    cases chain
    exact ⟨(Array.getElem?_eq_some_iff.mp found).1, rfl⟩

theorem Fit.mono {after : Frames} {links : List FrameId} (fit : frames.Fit links scopes)
    (grow : frames.Grow after) : after.Fit links scopes := by
  refine List.Forall₂.imp (fun link names ⟨inner, older, bound⟩ => ?_) fit
  exact ⟨inner, Nat.lt_of_lt_of_le older grow.size, fun name member => grow.names link name (bound name member)⟩

namespace Models

theorem lt_size (models : frames.Models scopes frame) : frame < frames.all.size := by
  obtain ⟨links, chain, _⟩ := models
  cases links with
  | nil => exact (lt_size_of_chain chain).1
  | cons link links => exact (lt_size_of_chain chain).1

theorem mono {after : Frames} (models : frames.Models scopes frame) (grow : frames.Grow after) :
    after.Models scopes frame := by
  have older := models.lt_size
  obtain ⟨links, chain, fit⟩ := models
  exact ⟨links, by rw [grow.chain frame older, chain], fit.mono grow⟩

/-- At the top level the global frame is at hand, and anywhere else it is not. -/
theorem eq_global_iff (models : frames.Models scopes frame) : frame = globalFrame ↔ scopes = [] := by
  obtain ⟨links, chain, fit⟩ := models
  cases fit with
  | nil => simpa using (lt_size_of_chain chain).2.symm
  | cons head _ =>
    have same := (lt_size_of_chain chain).2
    simpa [← same] using head.1

/-- The frame at a distance, for the distances of the scopes. -/
theorem link {distance : Nat} (models : frames.Models scopes frame) (near : distance < scopes.length) :
    ∃ link, frames.link? frame distance = some link ∧ link ≠ globalFrame ∧ link < frames.all.size ∧
      ∀ name, Declares scopes distance name → (frames.names link).contains name = true := by
  obtain ⟨links, chain, fit⟩ := models
  have same := List.Forall₂.length_eq fit
  have inside : distance < links.length := by omega
  obtain ⟨inner, older, bound⟩ := List.forall₂_iff_get.mp fit |>.2 distance inside near
  refine ⟨links[distance], ?_, inner, older, ?_⟩
  · rw [link?, chain, List.getElem?_append_left inside, List.getElem?_eq_getElem inside]
  · rintro name ⟨names, found, member⟩
    rw [List.getElem?_eq_getElem near, Option.some.injEq] at found
    exact bound name (by simpa [found] using member)

/-- What a scope has, the frame at its distance has. -/
theorem getAt {distance : Nat} {name : String} (models : frames.Models scopes frame)
    (declares : Declares scopes distance name) : ∃ value, frames.getAt frame distance name = .ok value := by
  obtain ⟨link, found, _, _, bound⟩ := models.link declares.lt_length
  have present := bound name declares
  rw [Table.contains, Option.isSome_iff_exists] at present
  obtain ⟨value, held⟩ := present
  exact ⟨value, by simp [Frames.getAt, found, held]⟩

end Models

theorem names_eq_empty_of_le (older : frames.all.size ≤ frame) : frames.names frame = .empty := by
  simp [Frames.names, Array.getElem?_eq_none older]

theorem names_create (enclosing : Option FrameId) (other : FrameId) :
    (frames.create enclosing).2.names other = frames.names other := by
  by_cases new : other = frames.all.size
  · simp [Frames.names, create, new]
  · simp [Frames.names, create, Array.getElem?_push, new]

theorem grow_create (frames : Frames) (enclosing : FrameId) : frames.Grow (frames.create (some enclosing)).2 where
  size := by simp [create]
  chain _ older := chain_create_of_lt frames (some enclosing) older
  names other name bound := by rwa [names_create]

theorem names_define (name : String) (value : Value) (other : FrameId) :
    (frames.define frame name value).names other =
      if frame = other ∧ frame < frames.all.size then (frames.names other).set name value
      else frames.names other := by
  by_cases same : frame = other
  · subst same
    by_cases present : frame < frames.all.size
    · rw [names_define_self frames present]
      simp [present]
    · rw [if_neg (by simp [present]), names_eq_empty_of_le (by simpa [define] using present),
        names_eq_empty_of_le (by simpa using present)]
  · rw [names_define_of_ne frames same, if_neg (by simp [same])]

/-- What a frame binds after a name was bound is new or was there before. -/
theorem bound_of_define {other : FrameId} {name query : String} {value found : Value}
    (bound : ((frames.define frame name value).names other).get? query = some found) :
    frame = other ∧ query = name ∧ found = value ∨ (frames.names other).get? query = some found := by
  rw [names_define] at bound
  split at bound
  · rename_i here
    exact (Table.get?_set_cases bound).imp_left fun new => ⟨here.1, new⟩
  · exact .inr bound

theorem contains_define (name : String) (value : Value) (other : FrameId) (query : String) :
    ((frames.define frame name value).names other).contains query = true ↔
      (frames.names other).contains query = true ∨
        frame = other ∧ frame < frames.all.size ∧ query = name := by
  rw [names_define]
  by_cases same : frame = other ∧ frame < frames.all.size
  · rw [if_pos same]
    by_cases found : query = name
    · simp [Table.contains, found, same.1 ▸ same.2, same.1]
    · simp [Table.contains, Table.get?_set_of_ne _ found, found]
  · rw [if_neg same]
    tauto

theorem grow_define (frames : Frames) (frame : FrameId) (name : String) (value : Value) :
    frames.Grow (frames.define frame name value) where
  size := by simp [define]
  chain other _ := chain_define frames frame other name value
  names other query bound := (contains_define name value other query).mpr (.inl bound)

namespace Models

/-- A new frame stands inside a scope of its own. -/
theorem create {enclosing : FrameId} (models : frames.Models scopes enclosing) (sized : globalFrame < frames.all.size) :
    (frames.create (some enclosing)).2.Models ([] :: scopes) (frames.create (some enclosing)).1 := by
  obtain ⟨links, chain, fit⟩ := models
  refine ⟨frames.all.size :: links, ?_, .cons ⟨?_, ?_, ?_⟩ (fit.mono (grow_create _ enclosing))⟩
  · rw [chain_create_self, chain]
    rfl
  · exact (Nat.ne_of_lt sized).symm
  · simp [Frames.create]
  · simp

/-- Binding a name in a frame gives the scope it stands for that name. -/
theorem define (models : frames.Models scopes frame) (name : String) (value : Value) :
    (frames.define frame name value).Models (Place.declare [name] scopes) frame := by
  have older := models.lt_size
  obtain ⟨links, chain, fit⟩ := models
  refine ⟨links, by rw [chain_define, chain], ?_⟩
  have grown := fit.mono (grow_define _ frame name value)
  cases fit with
  | nil => exact .nil
  | @cons link names links scopes head tail =>
    obtain ⟨_, rfl⟩ := lt_size_of_chain chain
    cases grown with
    | cons grownHead grownTail =>
      refine .cons ⟨grownHead.1, grownHead.2.1, fun query member => ?_⟩ grownTail
      rcases List.mem_cons.mp member with rfl | older'
      · exact (contains_define query value link query).mpr (.inr ⟨rfl, older, rfl⟩)
      · exact grownHead.2.2 query older'

theorem weaken {names fewer : List String} (models : frames.Models (names :: scopes) frame)
    (among : ∀ name ∈ fewer, name ∈ names) : frames.Models (fewer :: scopes) frame := by
  obtain ⟨links, chain, fit⟩ := models
  cases fit with
  | cons head tail =>
    exact ⟨_, chain, .cons ⟨head.1, head.2.1, fun name member => head.2.2 name (among name member)⟩ tail⟩

end Models

/-- Binds names one after the other in one frame. -/
def defineAll (frames : Frames) (frame : FrameId) (bindings : List (String × Value)) : Frames :=
  bindings.foldl (fun frames (name, value) => frames.define frame name value) frames

theorem grow_defineAll (frames : Frames) (frame : FrameId) (bindings : List (String × Value)) :
    frames.Grow (frames.defineAll frame bindings) := by
  induction bindings generalizing frames with
  | nil => exact .refl _
  | cons first rest ih => exact (grow_define _ frame first.1 first.2).trans (ih _)

theorem names_defineAll_of_ne {other : FrameId} (distinct : frame ≠ other) (bindings : List (String × Value)) :
    (frames.defineAll frame bindings).names other = frames.names other := by
  induction bindings generalizing frames with
  | nil => rfl
  | cons first rest ih => exact ih.trans (names_define_of_ne frames distinct first.1 first.2)

theorem Models.defineAll {scope : List String} (models : frames.Models (scope :: scopes) frame)
    (bindings : List (String × Value)) :
    (frames.defineAll frame bindings).Models ((bindings.map Prod.fst ++ scope) :: scopes) frame := by
  induction bindings generalizing frames scope with
  | nil => exact models
  | cons first rest ih =>
    apply (ih (models.define first.1 first.2)).weaken
    intro name member
    simp only [List.map_cons, List.cons_append, List.nil_append, List.mem_cons, List.mem_append] at member ⊢
    tauto

/-- A new frame inside another one, with some names bound. -/
def openFrame (frames : Frames) (enclosing : FrameId) (bindings : List (String × Value)) : FrameId × Frames :=
  ((frames.create (some enclosing)).1,
    (frames.create (some enclosing)).2.defineAll (frames.create (some enclosing)).1 bindings)

theorem grow_openFrame (frames : Frames) (enclosing : FrameId) (bindings : List (String × Value)) :
    frames.Grow (frames.openFrame enclosing bindings).2 :=
  (grow_create _ enclosing).trans (grow_defineAll _ _ bindings)

theorem chain_openFrame (frames : Frames) (enclosing : FrameId) (bindings : List (String × Value)) :
    (frames.openFrame enclosing bindings).2.chain frames.all.size = frames.all.size :: frames.chain enclosing := by
  have present : frames.all.size < (frames.create (some enclosing)).2.all.size := by simp [create]
  have kept := (grow_defineAll (frames.create (some enclosing)).2 frames.all.size bindings).chain _ present
  exact kept.trans (chain_create_self frames enclosing)

theorem Models.openFrame {enclosing : FrameId} (models : frames.Models scopes enclosing)
    (sized : globalFrame < frames.all.size) (bindings : List (String × Value)) :
    (frames.openFrame enclosing bindings).2.Models (bindings.map Prod.fst :: scopes)
      (frames.openFrame enclosing bindings).1 := by
  simpa [Frames.openFrame] using (models.create sized).defineAll bindings

theorem names_openFrame_global (sized : globalFrame < frames.all.size) (enclosing : FrameId)
    (bindings : List (String × Value)) :
    (frames.openFrame enclosing bindings).2.names globalFrame = frames.names globalFrame := by
  have inner : (frames.create (some enclosing)).1 ≠ globalFrame := (Nat.ne_of_lt sized).symm
  exact (names_defineAll_of_ne inner bindings).trans (names_create _ _)

end Frames

/-- A function that can be called: its body is safe where it was declared, and an initialiser has an
instance to answer. -/
def Function.Callable (frames : Frames) (function : Function) : Prop :=
  ∃ scopes, frames.Models scopes function.closure ∧ function.declaration.Safe scopes ∧
    (function.isInitializer = true → ∃ value, frames.getAt function.closure 0 "this" = .ok value)

/-- A method that has yet to be bound: its body is safe once `this` is there. -/
def Function.Bindable (frames : Frames) (function : Function) : Prop :=
  ∃ scopes, frames.Models scopes function.closure ∧ function.declaration.Safe (["this"] :: scopes)

namespace Store

/-- Values that lead to something. -/
def Valid (store : Store) : Value → Prop
  | .function id => ∃ function, store.functions[id]? = some function ∧ function.Callable store.frames
  | .instance id => id < store.instances.size
  | _ => True

/-- Values that may be bound to a name. -/
def Admits (store : Store) (name : String) (value : Value) : Prop :=
  store.Valid value ∧ (name = "this" → ∃ id, value = .instance id) ∧ (name = "super" → ∃ id, value = .class id)

def Bindable (store : Store) (method : FunctionId) : Prop :=
  ∃ function, store.functions[method]? = some function ∧ function.Bindable store.frames

/-- The invariant of a running program's store. -/
structure Sound (store : Store) : Prop where
  root : store.frames.chain globalFrame = [globalFrame]
  names : ∀ frame name value, (store.frames.names frame).get? name = some value → store.Admits name value
  fields : ∀ (id : InstanceId) (found : Instance) (name : String) (value : Value), store.instances[id]? = some found →
    found.fields.get? name = some value → store.Valid value
  methods : ∀ (id : ClassId) (found : Class) (name : String) (method : FunctionId), store.classes[id]? = some found →
    found.methods.get? name = some method → store.Bindable method

/-- What one store has of another one. -/
structure Extends (before after : Store) : Prop where
  frames : before.frames.Grow after.frames
  functions : ∀ (id : FunctionId) (function : Function), before.functions[id]? = some function →
    after.functions[id]? = some function
  instances : before.instances.size ≤ after.instances.size

theorem Extends.refl (store : Store) : store.Extends store := ⟨.refl _, fun _ _ => id, Nat.le_refl _⟩

theorem Extends.trans {before middle after : Store} (first : before.Extends middle)
    (second : middle.Extends after) : before.Extends after where
  frames := first.frames.trans second.frames
  functions id function found := second.functions id function (first.functions id function found)
  instances := Nat.le_trans first.instances second.instances

end Store

theorem Frames.getAt_zero_iff {frames : Frames} {frame : FrameId} {name : String} :
    (∃ value, frames.getAt frame 0 name = .ok value) ↔
      frame < frames.all.size ∧ (frames.names frame).contains name = true := by
  by_cases older : frame < frames.all.size
  · have found : frames.link? frame 0 = some frame := by
      simp [Frames.link?, Frames.chain, Array.getElem?_eq_getElem older]
    simp only [Frames.getAt, found, older, true_and, Table.contains]
    cases (frames.names frame).get? name <;> simp
  · have missing : frames.link? frame 0 = none := by
      simp [Frames.link?, Frames.chain, Array.getElem?_eq_none (Nat.not_lt.mp older)]
    simp [Frames.getAt, missing, older]

theorem Function.Callable.mono {before after : Frames} {function : Function} (callable : function.Callable before)
    (grow : before.Grow after) : function.Callable after := by
  obtain ⟨scopes, models, safe, answers⟩ := callable
  refine ⟨scopes, models.mono grow, safe, fun initializer => ?_⟩
  obtain ⟨older, bound⟩ := Frames.getAt_zero_iff.mp (answers initializer)
  exact Frames.getAt_zero_iff.mpr ⟨Nat.lt_of_lt_of_le older grow.size, grow.names _ _ bound⟩

theorem Function.Bindable.mono {before after : Frames} {function : Function} (bindable : function.Bindable before)
    (grow : before.Grow after) : function.Bindable after := by
  obtain ⟨scopes, models, safe⟩ := bindable
  exact ⟨scopes, models.mono grow, safe⟩

namespace Store

variable {store before after : Store} {value : Value} {name : String}

theorem Valid.mono (valid : before.Valid value) (extends_ : before.Extends after) : after.Valid value := by
  cases value with
  | function id =>
    obtain ⟨function, found, callable⟩ := valid
    exact ⟨function, extends_.functions id function found, callable.mono extends_.frames⟩
  | «instance» id => exact Nat.lt_of_lt_of_le valid extends_.instances
  | _ => trivial

theorem Admits.mono (admits : before.Admits name value) (extends_ : before.Extends after) :
    after.Admits name value := ⟨admits.1.mono extends_, admits.2⟩

theorem Bindable.mono {method : FunctionId} (bindable : before.Bindable method)
    (extends_ : before.Extends after) : after.Bindable method := by
  obtain ⟨function, found, callable⟩ := bindable
  exact ⟨function, extends_.functions method function found, callable.mono extends_.frames⟩

theorem Valid.admits (valid : store.Valid value) {token : Token} (plain : token.Plain) :
    store.Admits token.lexeme value :=
  ⟨valid, fun same => absurd same plain.1, fun same => absurd same plain.2⟩

theorem Sound.sized (sound : store.Sound) : globalFrame < store.frames.all.size :=
  (Frames.lt_size_of_chain sound.root).1

theorem Sound.admits_of_getAt (sound : store.Sound) {frame : FrameId} {distance : Nat}
    (found : store.frames.getAt frame distance name = .ok value) : store.Admits name value := by
  unfold Frames.getAt at found
  split at found
  · cases found
  · split at found
    · cases found
    · rename_i held
      cases found
      exact sound.names _ _ _ held

theorem Extends.withFrames {frames : Frames} (grow : store.frames.Grow frames) :
    store.Extends { store with frames } :=
  ⟨grow, fun _ _ => id, Nat.le_refl _⟩

/-- New frames and new bindings, all of them of values that are admitted afterwards. -/
theorem Sound.withFrames (sound : store.Sound) {frames : Frames} (grow : store.frames.Grow frames)
    (names : ∀ frame name value, (frames.names frame).get? name = some value →
      Admits { store with frames } name value) : Sound { store with frames } := by
  have extends_ := Extends.withFrames grow
  refine ⟨?_, names, ?_, ?_⟩
  · exact (grow.chain globalFrame sound.sized).trans sound.root
  · exact fun id found name value held field => (sound.fields id found name value held field).mono extends_
  · exact fun id found name method held listed => (sound.methods id found name method held listed).mono extends_

theorem Sound.create (sound : store.Sound) (enclosing : FrameId) :
    Sound { store with frames := (store.frames.create (some enclosing)).2 } := by
  apply sound.withFrames (Frames.grow_create _ enclosing)
  intro frame name value bound
  rw [Frames.names_create] at bound
  exact (sound.names frame name value bound).mono (.withFrames (Frames.grow_create _ enclosing))

/-- A function may be bound to a name that it refers to itself, so it is enough if the value is admitted
once it is bound. -/
theorem Sound.define (sound : store.Sound) (frame : FrameId)
    (admits : Admits { store with frames := store.frames.define frame name value } name value) :
    Sound { store with frames := store.frames.define frame name value } := by
  have grow := Frames.grow_define store.frames frame name value
  apply sound.withFrames grow
  intro other query found bound
  rcases Frames.bound_of_define bound with ⟨_, rfl, rfl⟩ | bound
  · exact admits
  · exact (sound.names other query found bound).mono (.withFrames grow)

theorem extends_addFunction (store : Store) (function : Function) : store.Extends (store.addFunction function).2 where
  frames := .refl _
  functions id found held := by
    have older := (Array.getElem?_eq_some_iff.mp held).1
    simp [addFunction, Array.getElem?_push, Nat.ne_of_lt older, held]
  instances := Nat.le_refl _

theorem Sound.addFunction (sound : store.Sound) (function : Function) : (store.addFunction function).2.Sound := by
  have extends_ := extends_addFunction store function
  refine ⟨sound.root, ?_, ?_, ?_⟩
  · exact fun frame name value bound => (sound.names frame name value bound).mono extends_
  · exact fun id found name value held field => (sound.fields id found name value held field).mono extends_
  · exact fun id found name method held listed => (sound.methods id found name method held listed).mono extends_

theorem addFunction_found (store : Store) (function : Function) :
    (store.addFunction function).2.functions[(store.addFunction function).1]? = some function := by
  simp [Store.addFunction]

theorem extends_addClass (store : Store) (definition : Class) : store.Extends (store.addClass definition).2 :=
  ⟨.refl _, fun _ _ => id, Nat.le_refl _⟩

theorem Sound.addClass (sound : store.Sound) {definition : Class}
    (methods : ∀ name method, definition.methods.get? name = some method → store.Bindable method) :
    (store.addClass definition).2.Sound := by
  have extends_ := extends_addClass store definition
  refine ⟨sound.root, sound.names, sound.fields, fun id found name method held listed => ?_⟩
  simp only [Store.addClass, Array.getElem?_push] at held
  split at held
  · cases held
    exact (methods name method listed).mono extends_
  · exact (sound.methods id found name method held listed).mono extends_

theorem extends_addInstance (store : Store) (owner : ClassId) : store.Extends (store.addInstance owner).2 :=
  ⟨.refl _, fun _ _ => id, by simp [addInstance]⟩

theorem Sound.addInstance (sound : store.Sound) (owner : ClassId) : (store.addInstance owner).2.Sound := by
  have extends_ := extends_addInstance store owner
  refine ⟨sound.root, ?_, ?_, ?_⟩
  · exact fun frame name value bound => (sound.names frame name value bound).mono extends_
  · intro id found name value held field
    simp only [Store.addInstance, Array.getElem?_push] at held
    split at held
    · cases held
      cases field
    · exact (sound.fields id found name value held field).mono extends_
  · exact fun id found name method held listed => (sound.methods id found name method held listed).mono extends_

theorem extends_setField (store : Store) (id : InstanceId) (name : String) (value : Value) :
    store.Extends (store.setField id name value) :=
  ⟨.refl _, fun _ _ found => found, by simp [setField]⟩

/-- What an instance holds after a field was set is new or was there before. -/
theorem held_of_setField {store : Store} {id other : InstanceId} {name query : String} {value held : Value}
    {found : Instance} (object : (store.setField id name value).instances[other]? = some found)
    (field : found.fields.get? query = some held) :
    id = other ∧ query = name ∧ held = value ∨
      ∃ earlier, store.instances[other]? = some earlier ∧ earlier.fields.get? query = some held := by
  simp only [Store.setField, Array.getElem?_modify] at object
  split at object
  · rename_i here
    obtain ⟨earlier, older, rfl⟩ := Option.map_eq_some_iff.mp object
    exact (Table.get?_set_cases field).imp (fun new => ⟨here, new⟩) fun old => ⟨earlier, older, old⟩
  · exact .inr ⟨found, object, field⟩

theorem Sound.setField (sound : store.Sound) (id : InstanceId) (name : String) (valid : store.Valid value) :
    (store.setField id name value).Sound := by
  have extends_ := extends_setField store id name value
  refine ⟨sound.root, ?_, ?_, ?_⟩
  · exact fun frame name value bound => (sound.names frame name value bound).mono extends_
  · intro other found query held object field
    rcases held_of_setField object field with ⟨_, _, rfl⟩ | ⟨earlier, older, field⟩
    · exact valid.mono extends_
    · exact (sound.fields other earlier query held older field).mono extends_
  · exact fun id found name method held listed => (sound.methods id found name method held listed).mono extends_

theorem Sound.defineAll (sound : store.Sound) (frame : FrameId) {bindings : List (String × Value)}
    (admits : ∀ entry ∈ bindings, store.Admits entry.1 entry.2) :
    Sound { store with frames := store.frames.defineAll frame bindings } := by
  induction bindings generalizing store with
  | nil => exact sound
  | cons first rest ih =>
    have extends_ := Extends.withFrames (Frames.grow_define store.frames frame first.1 first.2)
    have first := (admits first List.mem_cons_self).mono extends_
    apply ih (sound.define frame first)
    intro entry member
    exact (admits entry (List.mem_cons_of_mem _ member)).mono extends_

theorem Sound.openFrame (sound : store.Sound) (enclosing : FrameId) {bindings : List (String × Value)}
    (admits : ∀ entry ∈ bindings, store.Admits entry.1 entry.2) :
    Sound { store with frames := (store.frames.openFrame enclosing bindings).2 } := by
  have extends_ := Extends.withFrames (Frames.grow_create store.frames enclosing)
  exact (sound.create enclosing).defineAll _ fun entry member => (admits entry member).mono extends_

/-- A method that is bound to an instance can be called. -/
theorem Sound.bindMethod (sound : store.Sound) {method : Function} (bindable : method.Bindable store.frames)
    {receiver : InstanceId} (present : receiver < store.instances.size) :
    store.Extends (store.bindMethod method receiver).2 ∧ (store.bindMethod method receiver).2.Sound ∧
      ∃ function, (store.bindMethod method receiver).2.functions[(store.bindMethod method receiver).1]? =
        some function ∧ function.declaration = method.declaration ∧
        function.Callable (store.bindMethod method receiver).2.frames := by
  obtain ⟨scopes, models, safe⟩ := bindable
  let bindings : List (String × Value) := [("this", .instance receiver)]
  have opened := models.openFrame sound.sized bindings
  have grow := Frames.grow_openFrame store.frames method.closure bindings
  have admits : ∀ entry ∈ bindings, store.Admits entry.1 entry.2 := by
    intro entry member
    obtain rfl := List.mem_singleton.mp member
    exact ⟨present, fun _ => ⟨receiver, rfl⟩, by simp⟩
  have kept := sound.openFrame method.closure admits
  have made : store.bindMethod method receiver =
      Store.addFunction { store with frames := (store.frames.openFrame method.closure bindings).2 }
        { method with closure := (store.frames.openFrame method.closure bindings).1 } := rfl
  rw [made]
  refine ⟨(Extends.withFrames grow).trans (extends_addFunction _ _), kept.addFunction _, _,
    addFunction_found _ _, rfl, _, opened, safe, fun _ => ?_⟩
  exact opened.getAt (by simp [bindings])

end Store

end Lox
