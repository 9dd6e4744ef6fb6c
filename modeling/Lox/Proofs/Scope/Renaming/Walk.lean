import Lox.Proofs.Scope.Renaming

/-!
Binding a tree and the same tree with a new name, side by side. The scopes of the two walks have the same names
but for those of the variable, so the walks find the same distances and complain at the same places.
-/
namespace Lox

namespace Renaming

variable {naming : Renaming} {mark inside : Option Nat} {layers : List Layer} {scopes : List (List String)}
  {name : String} {note : Distance}

theorem call_eq (mark : Option Nat) (depth : Nat) (name : String) :
    naming.call mark (some depth) name = (if mark = some depth then naming.swap else id) name := by
  cases mark with
  | none => simp [call]
  | some distance =>
    by_cases same : depth = distance
    · simp [call, same]
    · simp [call, same, Ne.symm same]

theorem call_none (mark : Option Nat) (name : String) : naming.call mark none name = name := by
  cases mark <;> simp [call]

theorem token_lexeme (mark : Option Nat) (note : Distance) (name : Token) :
    (naming.token mark note name).lexeme = naming.call mark note name.lexeme := rfl

theorem same_token (mark : Option Nat) (note : Distance) (name : Token) :
    naming.Same name (naming.token mark note name) := by
  have spelled : naming.call mark note name.lexeme = name.lexeme ∨
      name.lexeme = naming.old ∧ naming.call mark note name.lexeme = naming.new := by
    unfold call swap
    split
    · exact .inl rfl
    · split
      · split
        · rename_i same
          exact .inr ⟨same, rfl⟩
        · exact .inl rfl
      · exact .inl rfl
  rcases spelled with same | ⟨old, new⟩
  · exact .inl (by simp only [token, same])
  · exact .inr ⟨old, by simp only [token, new]⟩

section Layers

/-- Layers for scopes, one of which may be that of the variable. -/
structure Layered (naming : Renaming) (mark : Option Nat) (layers : List Layer) (scopes : List (List String)) : Prop where
  may : List.Forall₂ (fun layer names => ∀ name ∈ names, layer.keys.may name) layers scopes
  other : ∀ depth layer, layers[depth]? = some layer →
    layer.keys.other = if mark = some depth then naming.swap else id
  within : ∀ depth, mark = some depth → depth < layers.length

/-- The innermost layer may have any name, but not the new one where the variable is in sight. -/
def Open (naming : Renaming) (mark : Option Nat) (layers : List Layer) : Prop :=
  ∀ name, (mark.isSome → name ≠ naming.new) → Layer.Allows name layers

theorem Layered.leads {inClass : Bool} (layered : naming.Layered mark layers scopes)
    (address : Place.Address ⟨scopes, inClass⟩ name note) : Leads layers name (naming.call mark note name) note := by
  cases address with
  | free _ => exact call_none mark name
  | bound inner outer scope around declared _ =>
    have around : scopes = inner ++ scope :: outer := around
    have far : inner.length < scopes.length := by simp [around]
    have near : inner.length < layers.length := by rw [layered.may.length_eq]; exact far
    have may := (List.forall₂_iff_get.mp layered.may).2 inner.length near far
    have found := List.getElem?_eq_getElem near
    refine ⟨_, found, may name ?_, ?_⟩
    · simpa [around] using declared
    · rw [layered.other _ _ found, call_eq]

theorem Layered.declare (layered : naming.Layered mark layers scopes) {names : List String}
    (allowed : ∀ name ∈ names, Layer.Allows name layers) : naming.Layered mark layers (Place.declare names scopes) := by
  obtain ⟨may, other, within⟩ := layered
  cases may with
  | nil => exact ⟨.nil, other, within⟩
  | cons head tail =>
    refine ⟨.cons (fun name member => ?_) tail, other, within⟩
    rcases List.mem_append.mp member with new | older
    · exact allowed name new
    · exact head name older

/-- Only the names that layers may have count, not those that are ready. -/
theorem Layered.grown (layered : naming.Layered mark layers scopes) (names : List String) :
    naming.Layered mark (Layer.grown names layers) scopes := by
  obtain ⟨may, other, within⟩ := layered
  cases may with
  | nil => exact ⟨.nil, other, within⟩
  | @cons first _ _ _ head tail =>
    refine ⟨.cons head tail, fun depth layer found => ?_, within⟩
    cases depth with
    | zero =>
      cases found
      exact other 0 first rfl
    | succ depth => exact other (depth + 1) layer found

theorem Open.grown (opened : Open naming mark layers) (names : List String) : Open naming mark (Layer.grown names layers) :=
  fun name plain => Layer.allows_grown.mpr (opened name plain)

/-- A scope inside of which nothing is special. -/
theorem Layered.cons (layered : naming.Layered mark layers scopes) {keys : Keys} {ready names : List String}
    (same : keys.other = id) (may : ∀ name ∈ names, keys.may name) :
    naming.Layered (mark.map (· + 1)) (⟨keys, ready⟩ :: layers) (names :: scopes) := by
  refine ⟨.cons may layered.may, fun depth layer found => ?_, fun depth marked => ?_⟩
  · cases depth with
    | zero =>
      cases found
      cases mark <;> simpa using same
    | succ depth =>
      have outer := layered.other depth layer found
      cases mark <;> simpa using outer
  · obtain ⟨outer, isMark, rfl⟩ := Option.map_eq_some_iff.mp marked
    have near := layered.within outer isMark
    simpa using near

/-- The scopes of a class. -/
theorem Layered.inherited (layered : naming.Layered mark layers scopes) (hasSuperclass : Bool) :
    naming.Layered (mark.map (· + (Node.classScopes hasSuperclass).length))
      (.ofThis :: Layer.inherited hasSuperclass layers) (Node.classScopes hasSuperclass ++ scopes) := by
  cases hasSuperclass with
  | false => exact layered.cons rfl (by simp [Keys.only])
  | true =>
    have super : naming.Layered (mark.map (· + 1)) (.ofSuper :: layers) (["super"] :: scopes) :=
      layered.cons rfl (by simp [Keys.only])
    have both : naming.Layered ((mark.map (· + 1)).map (· + 1)) (.ofThis :: .ofSuper :: layers)
        (["this"] :: ["super"] :: scopes) := super.cons rfl (by simp [Keys.only])
    rw [Option.map_map] at both
    exact both

/-- The scope of the variable. -/
theorem Layered.here (layered : naming.Layered none layers scopes) {keys : Keys} {ready names : List String}
    (swaps : keys.other = naming.swap) (may : ∀ name ∈ names, keys.may name) :
    naming.Layered (some 0) (⟨keys, ready⟩ :: layers) (names :: scopes) := by
  refine ⟨.cons may layered.may, fun depth layer found => ?_, fun depth marked => ?_⟩
  · cases depth with
    | zero =>
      cases found
      simpa using swaps
    | succ depth => simpa using layered.other depth layer found
  · cases marked
    simp

theorem Layered.declares {token : Token} (layered : naming.Layered mark layers scopes)
    (allowed : Layer.Allows token.lexeme layers) :
    naming.leaves.pairing.Declares layers token (naming.token mark (some 0) token)
      (Layer.grown [token.lexeme] layers) := by
  refine ⟨same_token mark (some 0) token, ?_⟩
  cases layers with
  | nil =>
    have none : mark = none := by
      cases mark with
      | none => rfl
      | some depth => exact absurd (layered.within depth rfl) (by simp)
    subst none
    exact ⟨rfl, rfl⟩
  | cons layer layers =>
    refine ⟨allowed, ?_, rfl⟩
    rw [layered.other 0 layer rfl]
    exact call_eq mark 0 token.lexeme

end Layers

section Tables

/-- Two tables that have the same but for the name of the variable. -/
structure Swaps (naming : Renaming) (table table' : Scope) : Prop where
  other : ∀ name, name ≠ naming.old → name ≠ naming.new → table'.get? name = table.get? name
  renamed : table'.get? naming.new = table.get? naming.old
  old : table'.get? naming.old = none
  fresh : table.get? naming.new = none

theorem Swaps.get? {table table' : Scope} (swaps : naming.Swaps table table') (plain : name ≠ naming.new) :
    table'.get? (naming.swap name) = table.get? name := by
  by_cases same : name = naming.old
  · simp only [swap, same, if_true, swaps.renamed]
  · simp only [swap, same, if_false, swaps.other name same plain]

/-- A name that is not in the one table is not in the other one. -/
theorem Swaps.absent {table table' : Scope} (swaps : naming.Swaps table table') (plain : name ≠ naming.new)
    (absent : table.get? name = none) : table'.get? name = none := by
  by_cases same : name = naming.old
  · rw [same, swaps.old]
  · rw [swaps.other name same plain, absent]

theorem Swaps.set {table table' : Scope} (swaps : naming.Swaps table table') (plain : name ≠ naming.new) (ready : Bool) :
    naming.Swaps (table.set name ready) (table'.set (naming.swap name) ready) := by
  obtain ⟨other, renamed, old, fresh⟩ := swaps
  by_cases same : name = naming.old
  · subst same
    have called : naming.swap naming.old = naming.new := by simp [swap]
    rw [called]
    refine ⟨fun query isOld isNew => ?_, by simp, ?_, ?_⟩
    · rw [Table.get?_set_of_ne _ isNew, Table.get?_set_of_ne _ isOld, other query isOld isNew]
    · rw [Table.get?_set_of_ne _ plain, old]
    · rw [Table.get?_set_of_ne _ (Ne.symm plain), fresh]
  · have called : naming.swap name = name := by simp [swap, same]
    rw [called]
    refine ⟨fun query isOld isNew => ?_, ?_, ?_, ?_⟩
    · rw [Table.get?_set, Table.get?_set, other query isOld isNew]
    · rw [Table.get?_set_of_ne _ (Ne.symm plain), Table.get?_set_of_ne _ (Ne.symm same), renamed]
    · rw [Table.get?_set_of_ne _ (Ne.symm same), old]
    · rw [Table.get?_set_of_ne _ (Ne.symm plain), fresh]

theorem swaps_empty (naming : Renaming) : naming.Swaps .empty .empty :=
  ⟨fun _ _ _ => rfl, rfl, rfl, rfl⟩

theorem absent_opened {names : List String} (absent : name ∉ names) :
    (names.foldl (fun scope name => scope.set name true) (Table.empty : Scope)).get? name = none := by
  have contained := contains_opened names .empty name
  simpa [Table.contains, absent] using contained

/-- The scopes of the two walks. -/
inductive Lines (naming : Renaming) : Option Nat → List Scope → List Scope → Prop
  | outside (tables : List Scope) : Lines naming none tables tables
  | here {table table' : Scope} {tables : List Scope} (swaps : naming.Swaps table table') :
      Lines naming (some 0) (table :: tables) (table' :: tables)
  | further {depth : Nat} {table : Scope} {tables tables' : List Scope} (fresh : table.get? naming.new = none)
      (tail : Lines naming (some depth) tables tables') :
      Lines naming (some (depth + 1)) (table :: tables) (table :: tables')

variable {tables tables' : List Scope}

/-- The walks find the same distances. -/
theorem Lines.distance (lines : naming.Lines mark tables tables') (plain : mark.isSome → name ≠ naming.new) :
    let note := tables.findIdx? (·.contains name)
    tables'.findIdx? (·.contains (naming.call mark note name)) = note := by
  induction lines with
  | outside tables => rfl
  | @here table table' tables swaps =>
    have plain := plain rfl
    simp only [List.findIdx?_cons]
    by_cases present : table.contains name = true
    · have present' : table'.contains (naming.swap name) = true := by
        rw [Table.contains, swaps.get? plain]
        exact present
      simp [present, call, present']
    · have absent' : table'.contains name = false := by
        rw [Table.contains, swaps.absent plain (by simpa [Table.contains] using present)]
        rfl
      cases found : tables.findIdx? (·.contains name) <;> simp [present, call, absent', found]
  | @further depth table tables tables' fresh tail ih =>
    have ih := ih plain
    simp only [List.findIdx?_cons]
    by_cases present : table.contains name = true
    · simp [present, call]
    · have absent : table.contains name = false := by simpa using present
      have absent' : table.contains (naming.swap name) = false := by
        unfold swap
        split
        · simp [Table.contains, fresh]
        · exact absent
      simp only [absent]
      cases found : tables.findIdx? (·.contains name) with
      | none =>
        simp only [found, call] at ih ⊢
        simpa [absent] using ih
      | some distance =>
        simp only [found, call] at ih ⊢
        by_cases same : distance = depth
        · simp_all
        · simp_all

/-- The innermost scopes have the same under the two names. -/
theorem Lines.head {table table' : Scope} (lines : naming.Lines mark (table :: tables) (table' :: tables'))
    (plain : mark.isSome → name ≠ naming.new) :
    table'.get? (naming.call mark ((table :: tables).findIdx? (·.contains name)) name) = table.get? name := by
  rw [List.findIdx?_cons]
  by_cases present : table.contains name = true
  · simp only [present, if_true, call_eq]
    cases lines with
    | outside => simp
    | here swaps => simpa using swaps.get? (plain rfl)
    | further => simp
  · have absent : table.get? name = none := by simpa [Table.contains] using present
    rw [absent, if_neg present]
    cases lines with
    | outside => exact absent
    | here swaps =>
      have far : (tables.findIdx? (·.contains name)).map (· + 1) ≠ some 0 := by simp
      simpa [call, far] using swaps.absent (plain rfl) absent
    | further fresh =>
      simp only [call, swap]
      split
      · split
        · exact fresh
        · exact absent
      · exact absent

end Tables

section Walks

/-- The two walks at one point. -/
structure Keeps (naming : Renaming) (mark : Option Nat) (scopes : List (List String)) (left right : Binder) : Prop where
  holds : Holds left.scopes scopes
  lines : naming.Lines mark left.scopes right.scopes
  declared : right.declared = left.declared
  pending : right.pending = left.pending
  faults : right.faults.size = left.faults.size

/-- Two actions side by side, with their results. -/
def Follows {α : Type} (action action' : Bind α) (Before After : Binder → Binder → Prop) (value value' : α) : Prop :=
  ∀ left right, Before left right →
    After (action left).2 (action' right).2 ∧ (action left).1 = value ∧ (action' right).1 = value'

namespace Follows

variable {α β : Type} {Before Middle After : Binder → Binder → Prop}

theorem pure (value value' : α) : Follows (Pure.pure value) (Pure.pure value') Before Before value value' :=
  fun _ _ before => ⟨before, rfl, rfl⟩

theorem bind {action action' : Bind α} {next next' : α → Bind β} {value value' : α} {result result' : β}
    (first : Follows action action' Before Middle value value')
    (then_ : Follows (next value) (next' value') Middle After result result') :
    Follows (action >>= next) (action' >>= next') Before After result result' := by
  intro left right before
  obtain ⟨still, same, same'⟩ := first left right before
  have ends := then_ _ _ still
  change After (next (action left).1 (action left).2).2 (next' (action' right).1 (action' right).2).2 ∧
    (next (action left).1 (action left).2).1 = _ ∧ (next' (action' right).1 (action' right).2).1 = _
  rw [same, same']
  exact ends

theorem modify {change change' : Binder → Binder}
    (changes : ∀ left right, Before left right → After (change left) (change' right)) :
    Follows (modify change) (modify change') Before After () () :=
  fun left right before => ⟨changes left right before, rfl, rfl⟩

end Follows

variable {inClass : Bool}

theorem Keeps.complain {left right : Binder} (keeps : naming.Keeps mark scopes left right) (token token' : Token)
    (cause : ScopeFault) : naming.Keeps mark scopes (left.complain token cause) (right.complain token' cause) :=
  ⟨keeps.holds, keeps.lines, keeps.declared, keeps.pending, by simp [Binder.complain, keeps.faults]⟩

theorem follows_complain (token token' : Token) (cause : ScopeFault) :
    Follows (Bind.complain token cause) (Bind.complain token' cause) (naming.Keeps mark scopes)
      (naming.Keeps mark scopes) () () :=
  Follows.modify fun _ _ keeps => keeps.complain token token' cause

theorem Keeps.distance {left right : Binder} (keeps : naming.Keeps mark scopes left right) {token : Token}
    (address : Place.Address ⟨scopes, inClass⟩ token.lexeme note) :
    left.distance? token.lexeme = note := by
  have holds : Holds left.scopes (Place.mk scopes inClass).scopes := keeps.holds
  exact (holds.address token.lexeme).unique address

theorem follows_distance {token : Token} (address : Place.Address ⟨scopes, inClass⟩ token.lexeme note)
    (plain : mark.isSome → token.lexeme ≠ naming.new) :
    Follows (Bind.distance? token) (Bind.distance? (naming.token mark note token)) (naming.Keeps mark scopes)
      (naming.Keeps mark scopes) note note := by
  intro left right keeps
  have found := keeps.lines.distance plain
  have same : left.scopes.findIdx? (·.contains token.lexeme) = note := keeps.distance address
  rw [same] at found
  exact ⟨keeps, same, found⟩

theorem follows_readName {token : Token} (address : Place.Address ⟨scopes, inClass⟩ token.lexeme note)
    (plain : mark.isSome → token.lexeme ≠ naming.new) :
    Follows (Bind.readName token) (Bind.readName (naming.token mark note token)) (naming.Keeps mark scopes)
      (naming.Keeps mark scopes) note note := by
  intro left right keeps
  have found := (follows_distance address plain left right keeps).2.2
  have distance := keeps.distance address
  have fault : right.readFault? (naming.token mark note token) = left.readFault? token := by
    obtain ⟨tables, _, _, _⟩ := left
    obtain ⟨tables', _, _, _⟩ := right
    obtain ⟨_, lines, _, pending, _⟩ := keeps
    simp only at lines pending
    subst distance pending
    cases lines with
    | outside => rfl
    | here swaps => simp only [Binder.readFault?, Binder.distance?, token_lexeme, (Lines.here swaps).head plain]
    | further fresh tail => 
      simp only [Binder.readFault?, Binder.distance?, token_lexeme, (Lines.further fresh tail).head plain]
  rw [readName_apply, readName_apply, fault]
  cases left.readFault? token with
  | some cause => exact ⟨keeps.complain _ _ _, distance, found⟩
  | none => exact ⟨keeps, distance, found⟩

/-- What a table gets in the one walk, the table of the other walk gets under the other name. -/
theorem Lines.set {table table' : Scope} {tables tables' : List Scope} {token : Token}
    (lines : naming.Lines mark (table :: tables) (table' :: tables')) (plain : mark.isSome → token.lexeme ≠ naming.new)
    (ready : Bool) : naming.Lines mark (table.set token.lexeme ready :: tables)
      (table'.set (naming.token mark (some 0) token).lexeme ready :: tables') := by
  rw [token_lexeme, call_eq]
  cases lines with
  | outside => exact .outside _
  | here swaps => exact .here (swaps.set (plain rfl) ready)
  | further fresh tail =>
    refine .further ?_ tail
    rw [Table.get?_set_of_ne _ (Ne.symm (plain rfl)), fresh]

theorem Lines.contains {table table' : Scope} {tables tables' : List Scope} {token : Token}
    (lines : naming.Lines mark (table :: tables) (table' :: tables')) (plain : mark.isSome → token.lexeme ≠ naming.new) :
    table'.contains (naming.token mark (some 0) token).lexeme = table.contains token.lexeme := by
  rw [token_lexeme, call_eq]
  cases lines with
  | outside => rfl
  | here swaps =>
    simp only [Table.contains, if_true, swaps.get? (plain rfl)]
  | further => rfl

/-- At the top level nothing is renamed. -/
theorem Lines.top {tables' : List Scope} (lines : naming.Lines mark [] tables') : mark = none ∧ tables' = [] := by
  cases lines
  exact ⟨rfl, rfl⟩

theorem Lines.uncons {table : Scope} {tables tables' : List Scope} (lines : naming.Lines mark (table :: tables) tables') :
    ∃ table' rest, tables' = table' :: rest := by
  cases lines <;> exact ⟨_, _, rfl⟩

theorem follows_declare (known : List String) {token : Token} (plain : mark.isSome → token.lexeme ≠ naming.new) :
    Follows (modify (·.declare known token)) (modify (·.declare known (naming.token mark (some 0) token)))
      (naming.Keeps mark scopes) (naming.Keeps mark (Place.declare [token.lexeme] scopes)) () () := by
  refine Follows.modify fun left right keeps => ?_
  have holds : Holds (left.declare known token).scopes _ := (walks_declare known token scopes left keeps.holds).2
  obtain ⟨tables, declared, pending, faults⟩ := left
  obtain ⟨tables', declared', pending', faults'⟩ := right
  obtain ⟨_, lines, same, same', size⟩ := keeps
  simp only at lines same same' size
  subst same same'
  cases tables with
  | nil =>
    obtain ⟨rfl, rfl⟩ := lines.top
    rw [Binder.declare_top] at holds ⊢
    have kept : naming.token none (some 0) token = token := rfl
    rw [kept, Binder.declare_top]
    exact ⟨holds, .outside _, rfl, rfl, size⟩
  | cons table tables =>
    obtain ⟨table', rest, rfl⟩ := lines.uncons
    rw [Binder.declare_inner] at holds ⊢
    rw [Binder.declare_inner, lines.contains plain]
    refine ⟨holds, lines.set plain false, rfl, rfl, ?_⟩
    simp only
    split <;> simp [size]

theorem follows_define {token : Token} (plain : mark.isSome → token.lexeme ≠ naming.new) :
    Follows (modify (·.define token)) (modify (·.define (naming.token mark (some 0) token)))
      (naming.Keeps mark (Place.declare [token.lexeme] scopes)) (naming.Keeps mark (Place.declare [token.lexeme] scopes))
      () () := by
  refine Follows.modify fun left right keeps => ?_
  have holds : Holds (left.define token).scopes _ := (walks_define token scopes left keeps.holds).2
  obtain ⟨tables, declared, pending, faults⟩ := left
  obtain ⟨tables', declared', pending', faults'⟩ := right
  obtain ⟨_, lines, same, same', size⟩ := keeps
  simp only at lines same same' size
  subst same same'
  cases tables with
  | nil =>
    obtain ⟨rfl, rfl⟩ := lines.top
    exact ⟨holds, .outside _, rfl, rfl, size⟩
  | cons table tables =>
    obtain ⟨table', rest, rfl⟩ := lines.uncons
    exact ⟨holds, lines.set plain true, rfl, rfl, size⟩

theorem follows_introduce (known : List String) {token : Token} (plain : mark.isSome → token.lexeme ≠ naming.new) :
    Follows (Bind.introduce known token) (Bind.introduce known (naming.token mark (some 0) token))
      (naming.Keeps mark scopes) (naming.Keeps mark (Place.declare [token.lexeme] scopes)) () () := by
  intro left right keeps
  obtain ⟨middle, _⟩ := follows_declare known plain left right keeps
  exact follows_define plain _ _ middle

theorem Keeps.congr {left right : Binder} {names more : List String} (keeps : naming.Keeps mark (names :: scopes) left right)
    (same : ∀ name, name ∈ more ↔ name ∈ names) : naming.Keeps mark (more :: scopes) left right := by
  obtain ⟨table, rest, split, head, tail⟩ := keeps.holds.uncons
  refine { keeps with holds := ?_ }
  rw [split]
  exact .cons (fun name => (head name).trans (same name).symm) tail

theorem follows_params (known : List String) (params : List Token) (scope : List String)
    (plain : mark.isSome → naming.new ∉ params.map Token.lexeme) :
    Follows (params.forM (Bind.introduce known)) ((params.map (naming.token mark (some 0))).forM (Bind.introduce known))
      (naming.Keeps mark (scope :: scopes)) (naming.Keeps mark ((params.map Token.lexeme ++ scope) :: scopes)) () () := by
  induction params generalizing scope with
  | nil => exact Follows.pure _ _
  | cons first rest ih =>
    have plain' (marked : mark.isSome = true) := List.ne_and_not_mem_of_not_mem_cons (plain marked)
    refine Follows.bind (follows_introduce known fun marked => (plain' marked).1.symm) fun left right keeps => ?_
    obtain ⟨after, result⟩ := ih (first.lexeme :: scope) (fun marked => (plain' marked).2) left right keeps
    refine ⟨after.congr fun name => ?_, result⟩
    simp only [List.map_cons, List.cons_append, List.mem_append, List.mem_cons]
    tauto

/-- Into a scope with some names: one inside of which nothing is special, or that of the variable. -/
inductive Deeper (naming : Renaming) (names : List String) : Option Nat → Option Nat → Prop
  | further {mark : Option Nat} (fresh : mark.isSome → naming.new ∉ names) : Deeper naming names mark (mark.map (· + 1))
  | here (empty : names = []) : Deeper naming names none (some 0)

theorem Enters.deeper {params : List Token} {body : List (Stmt Distance)} (enters : naming.Enters params body mark inside) :
    naming.Deeper [] mark inside := by
  cases enters with
  | outside => exact .further (by simp)
  | further depth => exact .further (by simp)
  | here => exact .here rfl

theorem Lines.opened {names : List String} {left right : Binder} (lines : naming.Lines mark left.scopes right.scopes)
    (deeper : naming.Deeper names mark inside) :
    naming.Lines inside (left.openScope names).scopes (right.openScope names).scopes := by
  simp only [Binder.openScope]
  generalize left.scopes = tables at lines
  generalize right.scopes = tables' at lines
  cases deeper with
  | here empty =>
    subst empty
    cases lines
    exact .here (swaps_empty naming)
  | further fresh =>
    cases lines with
    | outside => exact .outside _
    | here swaps => exact .further (absent_opened (fresh rfl)) (.here swaps)
    | further fresh' tail => exact .further (absent_opened (fresh rfl)) (.further fresh' tail)

theorem Lines.closed {names : List String} {left right : Binder} (lines : naming.Lines inside left.scopes right.scopes)
    (deeper : naming.Deeper names mark inside) :
    naming.Lines mark left.closeScope.scopes right.closeScope.scopes := by
  simp only [Binder.closeScope]
  generalize left.scopes = tables at lines
  generalize right.scopes = tables' at lines
  cases deeper with
  | here =>
    cases lines
    exact .outside _
  | @further mark =>
    cases mark with
    | none =>
      cases lines
      exact .outside _
    | some depth =>
      cases lines with
      | further _ tail => exact tail

theorem follows_inScope {α : Type} {action action' : Bind α} {value value' : α} {names more : List String}
    (deeper : naming.Deeper names mark inside)
    (follows : Follows action action' (naming.Keeps inside (names :: scopes)) (naming.Keeps inside (more :: scopes))
      value value') :
    Follows (Bind.inScope names action) (Bind.inScope names action') (naming.Keeps mark scopes)
      (naming.Keeps mark scopes) value value' := by
  refine Follows.bind (Follows.modify fun left right keeps => ?_) (Follows.bind follows
    (Follows.bind (Follows.modify fun left right keeps => ?_) (Follows.pure _ _)))
  · have opened : Holds (left.openScope names).scopes (names :: scopes) := by
      refine .cons (fun name => ?_) keeps.holds
      rw [contains_opened]
      simp [Table.contains]
    exact ⟨opened, keeps.lines.opened deeper, keeps.declared, keeps.pending, keeps.faults⟩
  · have closed : Holds left.closeScope.scopes scopes := by
      obtain ⟨table, rest, split, _, tail⟩ := keeps.holds.uncons
      simpa [Binder.closeScope, split] using tail
    exact ⟨closed, keeps.lines.closed deeper, keeps.declared, keeps.pending, keeps.faults⟩

theorem follows_inClassScopes {α : Type} {action action' : Bind α} {value value' : α} (hasSuperclass : Bool)
    (plain : naming.new ≠ "this" ∧ naming.new ≠ "super")
    (follows : Follows action action'
      (naming.Keeps (mark.map (· + (Node.classScopes hasSuperclass).length)) (Node.classScopes hasSuperclass ++ scopes))
      (naming.Keeps (mark.map (· + (Node.classScopes hasSuperclass).length)) (Node.classScopes hasSuperclass ++ scopes))
      value value') :
    Follows (Bind.inClassScopes hasSuperclass action) (Bind.inClassScopes hasSuperclass action')
      (naming.Keeps mark scopes) (naming.Keeps mark scopes) value value' := by
  have this : naming.new ∉ ["this"] := by simpa using plain.1
  have super : naming.new ∉ ["super"] := by simpa using plain.2
  cases hasSuperclass with
  | false => exact follows_inScope (.further fun _ => this) follows
  | true =>
    have twice : mark.map (· + (Node.classScopes true).length) = (mark.map (· + 1)).map (· + 1) := by
      rw [Option.map_map]
      rfl
    rw [twice] at follows
    exact follows_inScope (.further fun _ => super) (follows_inScope (.further fun _ => this) follows)

end Walks

end Renaming

end Lox
