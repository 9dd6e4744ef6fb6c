import Lox.Proofs.Run.Keywords

/-!
Classes as they are declared. A class is made once and for all, under the number that comes next, so that superclass
links only lead back to classes made before; and its methods are those of a class declaration of some program, of two
with one name the later one.
-/
namespace Lox

/-- What a class declaration says. -/
structure ClassDecl where
  name : Token
  superclass : Option (Token × Distance)
  methods : List (FunctionDecl Distance)

/-- The last one of some methods that has a name. -/
def FunctionDecl.lastOf (methods : List (FunctionDecl Distance)) (name : String) : Option (FunctionDecl Distance) :=
  methods.reverse.find? fun method => method.name.lexeme = name

/-- The method that a class declaration gives for a name. -/
def ClassDecl.method? (declaration : ClassDecl) (name : String) : Option (FunctionDecl Distance) :=
  FunctionDecl.lastOf declaration.methods name

theorem FunctionDecl.lastOf_cons (first : FunctionDecl Distance) (rest : List (FunctionDecl Distance)) (name : String) :
    lastOf (first :: rest) name = (lastOf rest name).or (if first.name.lexeme = name then some first else none) := by
  simp only [lastOf, List.reverse_cons, List.find?_append, List.find?_singleton, decide_eq_true_eq]

mutual

/-- The class declarations in a statement, those in functions and methods too. -/
def Stmt.classes : Stmt Distance → List ClassDecl
  | .expression _ | .print _ | .varDecl _ _ | .returnStmt _ _ => []
  | .block body => Stmt.classesAll body
  | .ifThen _ accepted => accepted.classes
  | .ifElse _ accepted rejected => accepted.classes ++ rejected.classes
  | .whileLoop _ body => body.classes
  | .funDecl declaration => declaration.classes
  | .classDecl name superclass methods => ⟨name, superclass, methods⟩ :: FunctionDecl.classesAll methods

def Stmt.classesAll : List (Stmt Distance) → List ClassDecl
  | [] => []
  | first :: rest => first.classes ++ Stmt.classesAll rest

def FunctionDecl.classes : FunctionDecl Distance → List ClassDecl
  | .mk _ _ body => Stmt.classesAll body

def FunctionDecl.classesAll : List (FunctionDecl Distance) → List ClassDecl
  | [] => []
  | first :: rest => first.classes ++ FunctionDecl.classesAll rest

end

theorem FunctionDecl.classes_eq (declaration : FunctionDecl Distance) :
    declaration.classes = Stmt.classesAll declaration.body := by
  cases declaration
  rw [FunctionDecl.classes]
  rfl

theorem FunctionDecl.subset_classesAll {method : FunctionDecl Distance} {methods : List (FunctionDecl Distance)}
    (member : method ∈ methods) : method.classes ⊆ FunctionDecl.classesAll methods := by
  induction methods with
  | nil => cases member
  | cons first rest ih =>
    rw [FunctionDecl.classesAll]
    rcases List.mem_cons.mp member with rfl | later
    · exact List.subset_append_left _ _
    · exact List.subset_append_of_subset_right _ (ih later)

namespace Store

/-- The classes from a class on to one without a superclass, along the superclass links. -/
inductive Chain (store : Store) : ClassId → List ClassId → Prop
  | last {id : ClassId} (present : id < store.classes.size) (top : store.superclass? id = none) : Chain store id [id]
  | link {id parent : ClassId} {rest : List ClassId} (inherits : store.Inherits id parent)
      (further : Chain store parent rest) : Chain store id (id :: rest)

/-- A table has functions made of the last ones of some methods, closed over a frame. -/
def Lists (store : Store) (table : Table FunctionId) (closure : FrameId)
    (methods : List (FunctionDecl Distance)) : Prop :=
  ∀ name, (table.get? name).map (store.functions[·]?) =
    (FunctionDecl.lastOf methods name).map fun method => some ⟨method, closure, decide (name = initializerName)⟩

/-- A class is what a declaration says: it has the name, and for each name the last one of the methods. -/
def Made (store : Store) (id : ClassId) (declaration : ClassDecl) : Prop :=
  ∃ found closure, store.classes[id]? = some found ∧ found.name = declaration.name.lexeme ∧
    store.Lists found.methods closure declaration.methods

variable {store after : Store} {id parent link : ClassId} {links : List ClassId} {name : String}
  {declaration : ClassDecl} {table : Table FunctionId} {closure : FrameId} {methods : List (FunctionDecl Distance)}

section Chains

theorem Inherits.present (inherits : store.Inherits id parent) : id < store.classes.size := by
  cases held : store.classes[id]? with
  | none => simp [Inherits, superclass?, held] at inherits
  | some found => exact (Array.getElem?_eq_some_iff.mp held).1

/-- A superclass is there before the class is. -/
theorem Lineages.lt_of_inherits (lineages : store.Lineages) (inherits : store.Inherits id parent) : parent < id := by
  cases held : store.classes[id]? with
  | none => simp [Inherits, superclass?, held] at inherits
  | some found =>
    rcases lineages.inherits held with none | ⟨other, earlier, inherits', _⟩
    · simp [Inherits, superclass?_eq held, none] at inherits
    · rw [Inherits] at inherits inherits'
      obtain rfl : parent = other := Option.some.inj (inherits.symm.trans inherits')
      exact earlier

/-- Superclass links never come back to a class. -/
theorem Lineages.lt_of_above (lineages : store.Lineages) (above : Relation.TransGen store.Inherits id link) :
    link < id := by
  induction above with
  | single inherits => exact lineages.lt_of_inherits inherits
  | tail _ inherits ih => exact Nat.lt_trans (lineages.lt_of_inherits inherits) ih

/-- The superclass links of each class come to an end, after the classes that methods are looked for in. -/
theorem Lineages.chain (lineages : store.Lineages) (present : id < store.classes.size) :
    store.Chain id (store.lineage id) := by
  induction id using Nat.strongRecOn with
  | _ id ih =>
    have held : store.classes[id]? = some store.classes[id] := Array.getElem?_eq_getElem present
    rw [lineage_eq held]
    rcases lineages.inherits held with none | ⟨parent, earlier, inherits, same⟩
    · rw [none]
      exact .last present (by rw [superclass?_eq held, none, List.head?_nil])
    · rw [same]
      exact .link inherits (ih parent earlier (Nat.lt_trans earlier present))

theorem Chain.unique {links' : List ClassId} (first : store.Chain id links) (second : store.Chain id links') :
    links = links' := by
  induction first generalizing links' with
  | last _ top =>
    cases second with
    | last => rfl
    | link inherits _ => cases top.symm.trans inherits
  | link inherits further ih =>
    cases second with
    | last _ top => cases top.symm.trans inherits
    | link inherits' further' =>
      cases inherits.symm.trans inherits'
      rw [ih further']

theorem Chain.mem_self (chain : store.Chain id links) : id ∈ links := by
  cases chain <;> exact List.mem_cons_self

theorem Chain.le_of_mem (chain : store.Chain id links) (lineages : store.Lineages) (member : link ∈ links) :
    link ≤ id ∧ link < store.classes.size := by
  induction chain with
  | last present =>
    obtain rfl := List.mem_singleton.mp member
    exact ⟨Nat.le_refl _, present⟩
  | link inherits further ih =>
    have below := lineages.lt_of_inherits inherits
    rcases List.mem_cons.mp member with rfl | later
    · exact ⟨Nat.le_refl _, inherits.present⟩
    · obtain ⟨least, present⟩ := ih later
      exact ⟨Nat.le_trans least (Nat.le_of_lt below), present⟩

/-- No class is passed twice. -/
theorem Chain.nodup (chain : store.Chain id links) (lineages : store.Lineages) : links.Nodup := by
  induction chain with
  | last => exact List.pairwise_singleton _ _
  | link inherits further ih =>
    refine List.nodup_cons.mpr ⟨fun member => ?_, ih⟩
    have least := (further.le_of_mem lineages member).1
    exact absurd (Nat.lt_of_le_of_lt least (lineages.lt_of_inherits inherits)) (Nat.lt_irrefl _)

end Chains

section Lookup

theorem Lists.get?_eq_none_iff (lists : store.Lists table closure methods) :
    table.get? name = none ↔ FunctionDecl.lastOf methods name = none := by
  rw [← Option.map_eq_none_iff (f := (store.functions[·]?)), lists name, Option.map_eq_none_iff]

theorem Lists.of_lastOf (lists : store.Lists table closure methods) {method : FunctionDecl Distance}
    (last : FunctionDecl.lastOf methods name = some method) : ∃ entry, table.get? name = some entry ∧
      store.functions[entry]? = some ⟨method, closure, decide (name = initializerName)⟩ := by
  have same := lists name
  rw [last, Option.map_some, Option.map_eq_some_iff] at same
  exact same

theorem ownMethod?_eq {found : Class} (held : store.classes[id]? = some found) (name : String) :
    store.ownMethod? id name = found.methods.get? name := by
  simp [ownMethod?, held]

theorem Made.ownMethod?_eq_none_iff (made : store.Made id declaration) :
    store.ownMethod? id name = none ↔ declaration.method? name = none := by
  obtain ⟨found, closure, held, _, lists⟩ := made
  rw [ownMethod?_eq held]
  exact lists.get?_eq_none_iff

/-- A class has no method of a name if no declaration that it is made by has one, and all of these agree. -/
theorem ownMethod?_eq_none_iff (made : ∃ declaration, store.Made id declaration) (name : String) :
    store.ownMethod? id name = none ↔ ∀ declaration, store.Made id declaration → declaration.method? name = none := by
  obtain ⟨declaration, isMade⟩ := made
  constructor
  · intro none other isMade'
    exact isMade'.ownMethod?_eq_none_iff.mp none
  · intro none
    exact isMade.ownMethod?_eq_none_iff.mpr (none declaration isMade)

/-- A class has the methods that it is declared with. -/
theorem Made.ownMethod?_of_method? (made : store.Made id declaration) {method : FunctionDecl Distance}
    (declares : declaration.method? name = some method) : ∃ entry closure, store.ownMethod? id name = some entry ∧
      store.functions[entry]? = some ⟨method, closure, decide (name = initializerName)⟩ := by
  obtain ⟨found, closure, held, _, lists⟩ := made
  obtain ⟨entry, listed, stored⟩ := lists.of_lastOf declares
  exact ⟨entry, closure, (ownMethod?_eq held name).trans listed, stored⟩

/-- The method of a name: that of the first declaration along a chain of classes that has one. -/
def Finds (store : Store) (id : ClassId) (name : String) (links : List ClassId) : Prop :=
  (store.findMethod? id name = none ↔
    ∀ link ∈ links, ∀ declaration, store.Made link declaration → declaration.method? name = none) ∧
  ∀ nearer owner further declaration method, links = nearer ++ owner :: further →
    (∀ link ∈ nearer, ∀ other, store.Made link other → other.method? name = none) →
    store.Made owner declaration → declaration.method? name = some method →
    ∃ entry closure, store.findMethod? id name = some entry ∧
      store.functions[entry]? = some ⟨method, closure, decide (name = initializerName)⟩

/-- Looking for a method goes from link to link. -/
theorem Lineages.finds (lineages : store.Lineages)
    (made : ∀ id < store.classes.size, ∃ declaration, store.Made id declaration) (chain : store.Chain id links)
    (name : String) : store.Finds id name links := by
  have present : id < store.classes.size := (chain.le_of_mem lineages chain.mem_self).2
  obtain rfl := chain.unique (lineages.chain present)
  have none_iff (link : ClassId) (member : link ∈ store.lineage id) :=
    ownMethod?_eq_none_iff (made link (chain.le_of_mem lineages member).2) name
  constructor
  · have looked : store.findMethod? id name = none ↔ ∀ link ∈ store.lineage id, store.ownMethod? link name = none :=
      List.findSome?_eq_none_iff
    rw [looked]
    exact forall₂_congr none_iff
  · intro nearer owner further declaration method split none isMade declares
    obtain ⟨entry, closure, own, stored⟩ := isMade.ownMethod?_of_method? declares
    refine ⟨entry, closure, List.findSome?_eq_some_iff.mpr ⟨nearer, owner, further, split, own, ?_⟩, stored⟩
    intro link member
    have among : link ∈ store.lineage id := split ▸ List.mem_append_left _ member
    exact (none_iff link among).mpr (none link member)

end Lookup

section Changes

/-- Entries for functions that two stores have alike are the same entries. -/
theorem Lists.congr (lists : store.Lists table closure methods)
    (same : ∀ name entry, table.get? name = some entry → after.functions[entry]? = store.functions[entry]?) :
    after.Lists table closure methods := by
  intro name
  rw [← lists name]
  cases listed : table.get? name with
  | none => rfl
  | some entry => rw [Option.map_some, Option.map_some, same name entry listed]

theorem Lists.present (lists : store.Lists table closure methods) {entry : FunctionId}
    (listed : table.get? name = some entry) : ∃ function, store.functions[entry]? = some function := by
  have same := lists name
  rw [listed, Option.map_some] at same
  cases last : FunctionDecl.lastOf methods name with
  | none =>
    rw [last] at same
    cases same
  | some method =>
    rw [last] at same
    exact ⟨_, Option.some.inj same⟩

/-- Tables go on with what they list. -/
theorem Lists.mono (lists : store.Lists table closure methods)
    (kept : ∀ (id : FunctionId) (function : Function), store.functions[id]? = some function →
      after.functions[id]? = some function) : after.Lists table closure methods := by
  apply lists.congr
  intro name entry listed
  obtain ⟨function, stored⟩ := lists.present listed
  rw [stored, kept entry function stored]

/-- Classes stay as they are made. -/
theorem Made.mono (made : store.Made id declaration)
    (functions : ∀ (id : FunctionId) (function : Function), store.functions[id]? = some function →
      after.functions[id]? = some function)
    (classes : ∀ (id : ClassId) (found : Class), store.classes[id]? = some found → after.classes[id]? = some found) :
    after.Made id declaration := by
  obtain ⟨found, closure, held, named, lists⟩ := made
  exact ⟨found, closure, classes id found held, named, lists.mono functions⟩

/-- A class is what it is later found to be. -/
theorem Made.of_keeps (bonded : store.Bonded) (keeps : store.Keeps after) (present : id < store.classes.size)
    (made : after.Made id declaration) : store.Made id declaration := by
  have held : store.classes[id]? = some store.classes[id] := Array.getElem?_eq_getElem present
  obtain ⟨found, closure, held', named, lists⟩ := made
  obtain rfl : store.classes[id] = found := Option.some.inj ((keeps.classes id _ held).symm.trans held')
  refine ⟨_, closure, held, named, lists.congr fun name entry listed => ?_⟩
  obtain ⟨function, stored, _⟩ := bonded.methods id _ name entry held listed
  rw [stored, keeps.functions entry function stored]

end Changes

end Store

end Lox
