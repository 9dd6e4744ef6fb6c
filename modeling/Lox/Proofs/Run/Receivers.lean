import Lox.Proofs.Pairing.Planned
import Lox.Proofs.Run.Bonds

/-!
Runs beside themselves, with an eye on the methods that code is written in. A frame that a method body runs in, or
that something nested in one runs in, lies as many frames inside the frame of `this` as there are scopes in between.
-/
namespace Lox

/-- An occurrence of `super`, with the number of scopes around it. -/
structure SuperNode where
  depth : Nat
  keyword : Token
  note : Distance
  method : Token

section Supers

mutual

/-- The occurrences of `super` in an expression with some scopes around it. -/
def Expr.supers (depth : Nat) : Expr Distance → List SuperNode
  | .literal _ | .read _ _ | .this _ _ => []
  | .grouping inner => inner.supers depth
  | .unary _ _ operand => operand.supers depth
  | .binary _ left _ right | .logical _ left _ right => left.supers depth ++ right.supers depth
  | .assign _ _ value => value.supers depth
  | .call callee _ arguments => callee.supers depth ++ Expr.supersAll depth arguments
  | .get object _ => object.supers depth
  | .set object _ value => object.supers depth ++ value.supers depth
  | .super keyword note method => [⟨depth, keyword, note, method⟩]

def Expr.supersAll (depth : Nat) : List (Expr Distance) → List SuperNode
  | [] => []
  | first :: rest => first.supers depth ++ Expr.supersAll depth rest

end

def Expr.supersOption (depth : Nat) : Option (Expr Distance) → List SuperNode
  | none => []
  | some value => value.supers depth

mutual

/-- The occurrences of `super` in a statement. Those in a class belong to its methods. -/
def Stmt.supers (depth : Nat) : Stmt Distance → List SuperNode
  | .expression value | .print value => value.supers depth
  | .varDecl _ initial => Expr.supersOption depth initial
  | .block body => Stmt.supersAll (depth + 1) body
  | .ifThen condition accepted => condition.supers depth ++ accepted.supers depth
  | .ifElse condition accepted rejected =>
    condition.supers depth ++ (accepted.supers depth ++ rejected.supers depth)
  | .whileLoop condition body => condition.supers depth ++ body.supers depth
  | .funDecl declaration => declaration.supersFrom depth
  | .returnStmt _ value => Expr.supersOption depth value
  | .classDecl _ _ _ => []

def Stmt.supersAll (depth : Nat) : List (Stmt Distance) → List SuperNode
  | [] => []
  | first :: rest => first.supers depth ++ Stmt.supersAll depth rest

def FunctionDecl.supersFrom (depth : Nat) : FunctionDecl Distance → List SuperNode
  | .mk _ _ body => Stmt.supersAll (depth + 1) body

end

/-- The occurrences of `super` in a method, also in functions nested in it. -/
abbrev FunctionDecl.supers (declaration : FunctionDecl Distance) : List SuperNode := declaration.supersFrom 0

end Supers

namespace Receivers

/-- Where code stands: outside all methods, in a method with some scopes in between, or right in a class. -/
inductive Site where
  | plain
  | method (home : FunctionDecl Distance) (depth : Nat)
  | owner

namespace Site

/-- Names may be declared there. -/
def Open : Site → Prop
  | plain => True
  | method _ depth => 0 < depth
  | owner => False

/-- In a scope of its own. -/
def inside : Site → Site
  | method home depth => method home (depth + 1)
  | _ => plain

end Site

/-- A frame lies some frames inside the one that a method is closed over which was bound to an instance. -/
def Within (store : Store) (home : FunctionDecl Distance) (depth : Nat) (frame : FrameId) : Prop :=
  ∃ (inner : List FrameId) (id : FunctionId) (function : Function) (receiver : InstanceId) (owner : ClassId),
    inner.length = depth ∧
    store.frames.chain frame = inner ++ store.frames.chain function.closure ∧
    store.functions[id]? = some function ∧ function.declaration = home ∧ store.Bond function receiver owner

/-- A frame stands at a site. -/
structure Stands (store : Store) (site : Site) (frame : FrameId) : Prop where
  present : frame < store.frames.all.size
  bare : site.Open → store.frames.Bare frame
  within : ∀ home depth, site = .method home depth → Within store home depth frame

/-- Both runs are the same. -/
def pairing : Pairing where
  Around := Site
  Same token token' := token' = token
  Reads _ reference reference' := reference' = reference
  Assigns _ reference reference' := reference' = reference ∧ reference.1.Plain
  Supers site reference reference' := reference' = reference ∧ ∃ home depth, site = .method home depth ∧
    reference.1.2 = some (depth + 1) ∧ ⟨depth, reference.1.1, reference.1.2, reference.2⟩ ∈ home.supers
  Declares site name name' after := name' = name ∧ after = site ∧ name.Plain ∧ site.Open
  Opens site params params' inside := params' = params ∧ inside = site.inside ∧ ∀ param ∈ params, param.Plain
  Inherits site _ inside := site.Open ∧ inside = .owner
  Binds _ declaration declaration' inside := declaration' = declaration ∧ inside = .method declaration 0
  right := .byDistance
  World := Store
  Later := Store.Keeps
  State world store store' := world = store ∧ world = store' ∧ world.Bonded
  Stands := Stands
  Serves := Store.Serves
  Closes := Store.Closes

theorem diagonal : pairing.Diagonal where
  same same := same
  reads same := same
  assigns assigns := assigns.1
  supers supers := supers.1
  declares declares := declares.1
  opens opens := opens.1

theorem mirror {scene : pairing.Scene} (agrees : scene.Agrees) : scene.left = scene.right := by
  obtain ⟨isLeft, isRight, _⟩ := agrees.state
  exact agrees.mirror diagonal (congrArg Store.frames (isLeft.symm.trans isRight))

/-- Every halt is like itself. -/
theorem alike_refl (halt : Halt) : pairing.Alike halt halt := by
  cases halt <;> simp [Pairing.Alike, pairing]

variable {store after : Store} {site : Site} {frame : FrameId} {home : FunctionDecl Distance} {depth : Nat}

theorem Within.mono (within : Within store home depth frame) (keeps : store.Keeps after)
    (present : frame < store.frames.all.size) : Within after home depth frame := by
  obtain ⟨inner, id, function, receiver, owner, length, chain, stored, same, bond⟩ := within
  refine ⟨inner, id, function, receiver, owner, length, ?_, keeps.functions _ _ stored, same, bond.mono keeps⟩
  rw [keeps.frames.chain _ present, keeps.frames.chain _ bond.present, chain]

theorem Stands.mono (stands : Stands store site frame) (keeps : store.Keeps after) : Stands after site frame where
  present := Nat.lt_of_lt_of_le stands.present keeps.frames.size
  bare isOpen := (stands.bare isOpen).mono keeps.frames stands.present
  within home depth same := (stands.within home depth same).mono keeps stands.present

/-- A new frame stands one scope further inside. -/
theorem Stands.openFrame (stands : Stands store site frame) {bindings : List (String × Value)}
    (plain : ∀ name ∈ bindings.map Prod.fst, ¬ IsKeyword name) :
    Stands { store with frames := (store.frames.openFrame frame bindings).2 } site.inside store.frames.all.size where
  present := by simp [Frames.openFrame, Pairing.size_defineAll, Frames.create]
  bare _ := Frames.bare_openFrame frame plain
  within home depth same := by
    have keeps : store.Keeps { store with frames := (store.frames.openFrame frame bindings).2 } :=
      Store.keeps_withFrames (Frames.keep_openFrame store.frames frame bindings)
    cases site with
    | method home' depth' =>
      cases same
      obtain ⟨inner, id, function, receiver, owner, length, chain, stored, same, bond⟩ := stands.within home depth' rfl
      refine ⟨store.frames.all.size :: inner, id, function, receiver, owner, by simp [length], ?_, stored, same,
        bond.mono keeps⟩
      rw [keeps.frames.chain _ bond.present, List.cons_append, ← chain]
      exact Frames.chain_openFrame _ _ _
    | plain => cases same
    | owner => cases same

/-- Names that programs bind are no keywords. -/
theorem plain_of_zip {params : List Token} {values : List Value} (plain : ∀ param ∈ params, param.Plain) :
    ∀ name ∈ ((params.map Token.lexeme).zip values).map Prod.fst, ¬ IsKeyword name := by
  intro name member isKeyword
  obtain ⟨entry, listed, rfl⟩ := List.mem_map.mp member
  obtain ⟨param, isParam, same⟩ := List.mem_map.mp (List.of_mem_zip listed).1
  exact (plain param isParam).ne_keyword isKeyword same.symm

/-- What is read is what some frame holds. -/
theorem read_cases (name : Token) (note : Distance) (machine : Machine) :
    (∃ value frame query, (machine.frames.names frame).get? query = some value ∧
        Access.byDistance.read name note machine = .ok value machine) ∨
      ∃ halt, Access.byDistance.read name note machine = .error halt machine := by
  cases note with
  | some distance =>
    change (∃ value frame query, _ ∧ Access.readAt distance name.lexeme machine = _) ∨
      ∃ halt, Access.readAt distance name.lexeme machine = _
    rw [Access.readAt_apply]
    cases found : machine.frames.getAt machine.current distance name.lexeme with
    | ok value =>
      obtain ⟨link, _, held⟩ := Frames.held_of_getAt found
      exact .inl ⟨value, link, _, held, rfl⟩
    | error cause => exact .inr ⟨_, rfl⟩
  | none =>
    change (∃ value frame query, _ ∧ Access.readFrom (fun _ => globalFrame) name machine = _) ∨
      ∃ halt, Access.readFrom (fun _ => globalFrame) name machine = _
    rw [Access.readFrom_apply]
    cases found : machine.frames.lookup? globalFrame name.lexeme with
    | some value =>
      obtain ⟨holder, _, held⟩ := Option.bind_eq_some_iff.mp found
      exact .inl ⟨value, holder, _, held, rfl⟩
    | none => exact .inr ⟨_, rfl⟩

theorem assign_cases (name : Token) (note : Distance) (value : Value) (machine : Machine) :
    (∃ frame, Access.byDistance.assign name note value machine =
        .ok () { machine with frames := machine.frames.define frame name.lexeme value }) ∨
      ∃ halt, Access.byDistance.assign name note value machine = .error halt machine := by
  cases note with
  | some distance =>
    change (∃ frame, Access.assignAt distance name.lexeme value machine = _) ∨
      ∃ halt, Access.assignAt distance name.lexeme value machine = _
    rw [Access.assignAt_apply]
    cases machine.frames.link? machine.current distance with
    | some frame => exact .inl ⟨frame, rfl⟩
    | none => exact .inr ⟨_, rfl⟩
  | none =>
    change (∃ frame, Access.assignFrom (fun _ => globalFrame) name value machine = _) ∨
      ∃ halt, Access.assignFrom (fun _ => globalFrame) name value machine = _
    rw [Access.assignFrom_apply]
    cases machine.frames.holder? globalFrame name.lexeme with
    | some holder => exact .inl ⟨holder, rfl⟩
    | none => exact .inr ⟨_, rfl⟩

/-- The frames that `this` and `super` lead to from inside a method, and what they hold. -/
theorem Within.getAt (within : Within store home depth frame) :
    ∃ id function receiver owner, store.functions[(id : FunctionId)]? = some function ∧ function.declaration = home ∧
      store.Bond function receiver owner ∧ store.frames.link? frame depth = some function.closure ∧
      store.frames.getAt frame depth "this" = .ok (.instance receiver) ∧
      store.frames.getAt frame (depth + 1) "super" =
        match store.superclass? owner with
        | some parent => .ok (.class parent)
        | none => .error .name := by
  obtain ⟨inner, id, function, receiver, owner, rfl, chain, stored, same, bond⟩ := within
  obtain ⟨method, _, closes, _, inside⟩ := bond.copied
  have outer : ∃ rest, store.frames.chain method.closure = method.closure :: rest := by
    simp [Frames.chain, Array.getElem?_eq_getElem closes.present]
  obtain ⟨rest, outer⟩ := outer
  rw [inside, outer] at chain
  have first : store.frames.link? frame inner.length = some function.closure := by
    simp [Frames.link?, chain]
  have second : store.frames.link? frame (inner.length + 1) = some method.closure := by
    simp [Frames.link?, chain]
  refine ⟨id, function, receiver, owner, stored, same, bond, first, ?_, ?_⟩
  · simp only [Frames.getAt, first, bond.this]
  · simp only [Frames.getAt, second, closes.super]
    cases store.superclass? owner <;> rfl

theorem lawful : pairing.Lawful where
  refl := Store.Keeps.refl
  trans := Store.Keeps.trans
  stands keeps stands := stands.mono keeps
  serves keeps serves := serves.mono keeps
  closes keeps closes := closes.mono keeps
  present := by
    rintro store _ _ site frame ⟨rfl, rfl, _⟩ stands
    exact stands.present
  read := by
    rintro ⟨world, machine, machine'⟩ site ⟨name, note⟩ _ agrees _ rfl
    obtain rfl : machine = machine' := mirror agrees
    rcases read_cases name note machine with ⟨value, frame, query, held, ended⟩ | ⟨halt, ended⟩
    · exact .inl ⟨value, ⟨frame, query, held⟩, ended, ended⟩
    · exact .inr ⟨halt, halt, ended, ended, alike_refl halt⟩
  superAndThis := by
    rintro ⟨world, machine, machine'⟩ site ⟨⟨keyword, note⟩, method⟩ _ agrees at_ ⟨rfl, home, depth, rfl, noted, _⟩
    obtain rfl : machine = machine' := mirror agrees
    have same : world = machine.toStore := agrees.state.1
    subst same
    simp only at noted
    subst noted
    obtain ⟨_, function, receiver, owner, _, _, bond, _, this, super⟩ := (at_.within home depth rfl).getAt
    have ended : Access.byDistance.superAndThis keyword (some (depth + 1)) machine = _ := Access.superAndThis_apply
    simp only [Nat.add_sub_cancel, this, super] at ended
    cases above : machine.superclass? owner with
    | none =>
      simp only [above] at ended
      exact .inr ⟨_, _, ended, ended, rfl⟩
    | some parent =>
      simp only [above] at ended
      obtain ⟨link, _, held⟩ := Frames.held_of_getAt this
      refine .inl ⟨_, ⟨link, _, held⟩, ⟨ended, ended⟩, ?_⟩
      rintro _ _ ⟨⟩
      obtain ⟨found, stored, descends⟩ := bond.serves
      exact ⟨found, stored, descends.tail above⟩
  assign := by
    rintro ⟨world, machine, machine'⟩ site ⟨name, note⟩ _ value agrees _ ⟨rfl, plain⟩
    obtain rfl : machine = machine' := mirror agrees
    obtain ⟨same, _, bonded⟩ := agrees.state
    have same : world = machine.toStore := same
    subst same
    rcases assign_cases name note value machine with ⟨frame, ended⟩ | ⟨halt, ended⟩
    · have keep : machine.frames.Keep (machine.frames.define frame name.lexeme value) :=
        Frames.keep_define plain frame value
      exact .inl ⟨_, frame, Store.keeps_withFrames keep, ⟨rfl, rfl, bonded.withFrames keep⟩, ended, ended⟩
    · exact .inr ⟨halt, halt, ended, ended, alike_refl halt⟩
  declare := by
    rintro store _ _ _ site _ name frame value ⟨rfl, rfl, bonded⟩ stands ⟨rfl, rfl, plain, isOpen⟩
    have keep : store.frames.Keep (store.frames.define frame name.lexeme value) := Frames.keep_define plain frame value
    have keeps := Store.keeps_withFrames keep
    exact ⟨_, keeps, stands.mono keeps, rfl, rfl, bonded.withFrames keep⟩
  declared := by
    rintro _ _ site _ name frame ⟨rfl, rfl, _⟩ stands
    exact stands
  params opens := congrArg List.length opens.1.symm
  opens := by
    rintro store _ _ site _ params _ frame values ⟨rfl, rfl, bonded⟩ stands ⟨rfl, rfl, plain⟩ _
    have keep := Frames.keep_openFrame store.frames frame ((params.map Token.lexeme).zip values)
    exact ⟨_, Store.keeps_withFrames keep, stands.openFrame (plain_of_zip plain), rfl, rfl, bonded.withFrames keep⟩
  plain := by
    rintro store _ _ site _ frame ⟨rfl, rfl, _⟩ stands ⟨isOpen, rfl⟩
    have bare := stands.bare isOpen
    exact ⟨⟨stands.present, False.elim, nofun⟩, stands.present, bare _ (.inr rfl), bare _ (.inl rfl)⟩
  inherits := by
    rintro store _ _ site _ frame parent ⟨rfl, rfl, bonded⟩ stands ⟨isOpen, rfl⟩ _
    let bindings : List (String × Value) := [("super", .class parent)]
    have keep := Frames.keep_openFrame store.frames frame bindings
    have present : store.frames.all.size < (store.frames.openFrame frame bindings).2.all.size := by
      simp [Frames.openFrame, Pairing.size_defineAll, Frames.create]
    have names : (store.frames.openFrame frame bindings).2.names store.frames.all.size = _ :=
      Frames.names_openFrame_singleton frame "super" (.class parent)
    refine ⟨_, Store.keeps_withFrames keep, ⟨present, False.elim, nofun⟩, ⟨present, ?_, ?_⟩, rfl, rfl,
      bonded.withFrames keep⟩
    · simp only [names, Table.get?_set_self]
      rfl
    · simp only [names]
      exact Table.get?_set_of_ne _ (by decide) _
  addFunction := by
    rintro store _ _ function function' ⟨rfl, rfl, bonded⟩ encloses same
    obtain rfl : function' = function := same.eq diagonal
    have unbound : function'.closure < store.frames.all.size ∧
        (store.frames.names function'.closure).get? "this" = none := by
      rcases encloses with ⟨site, name, _, _, ⟨_, _, _, isOpen⟩, stands⟩ | ⟨parent, closes⟩
      · exact ⟨stands.present, stands.bare isOpen _ (.inl rfl)⟩
      · exact ⟨closes.present, closes.this⟩
    refine ⟨_, Store.keeps_addFunction store function', rfl, rfl, bonded.addFunction unbound.1 fun value this => ?_⟩
    rw [unbound.2] at this
    cases this
  addClass := by
    rintro store _ _ parent closure table name ⟨rfl, rfl, bonded⟩ _ closes known methods
    refine ⟨_, Store.keeps_addClass store _, rfl, rfl, bonded.addClass name closes known fun query method listed => ?_⟩
    obtain ⟨function, stored, closed, initializer, _⟩ := methods query method listed
    exact ⟨function, stored, closed, initializer⟩
  addInstance := by
    rintro store _ _ owner ⟨rfl, rfl, bonded⟩ _ _
    have keeps := Store.keeps_addInstance store owner
    exact ⟨_, keeps, Store.serves_addInstance store owner, rfl, rfl, bonded.withInstances keeps⟩
  setField := by
    rintro store _ _ id name value ⟨rfl, rfl, bonded⟩
    have keeps := Store.keeps_setField store id name value
    exact ⟨_, keeps, rfl, rfl, bonded.withInstances keeps⟩
  owner := by
    rintro store _ _ id found ⟨rfl, rfl, _⟩ held
    exact ⟨found, held, .refl⟩
  lineage := by
    rintro store _ _ id link receiver ⟨rfl, rfl, bonded⟩ ⟨found, held, descends⟩ member
    exact ⟨found, held, descends.trans (bonded.lineages.descends_of_mem_lineage member).1⟩
  bindMethod := by
    rintro store _ _ site _ id found name method function function' receiver ⟨rfl, rfl, bonded⟩ held listed stored _ same
      _ serves _ ⟨_, rfl⟩
    obtain rfl : function' = function := same.eq diagonal
    have keeps := Store.keeps_bindMethod store function' receiver
    obtain ⟨bonded', bond⟩ := bonded.bindMethod held listed stored serves
    refine ⟨_, keeps, ⟨bond.present, fun isOpen => absurd isOpen (Nat.lt_irrefl 0), ?_⟩, rfl, rfl, bonded'⟩
    rintro _ _ ⟨⟩
    exact ⟨[], _, _, receiver, id, rfl, rfl, Store.addFunction_found _ _, rfl, bond⟩
  this := by
    rintro store _ _ ⟨rfl, rfl, _⟩ frame
    rfl

end Receivers

end Lox
