import Mathlib.Data.Set.Insert
import Mathlib.Data.Set.Lattice
import Scriptlet.Proofs.Binding.Paths

/-!
# Which scope declares which name

What a scope declares is read off the positions in a program alone: a declaration belongs to the
innermost scope around it, and counts for what stands behind it. The walk over the program keeps
just this. At every position its open scopes are those around the position, in order, and each
of them has the names that the scope has declared before.
-/

namespace Scriptlet

open Binding

/-- The names of a scope. -/
def Binding.Scope.names (scope : Scope) : Set String := {name | scope.contains name = true}

namespace Piece

/-- The scopes around a position, the innermost first. -/
def scopesAround (x : Piece) (p : Path) : List Path := x.around isScope p

/-- At a position a name is declared. -/
def DeclaresAt (x : Piece) (p : Path) (name : String) : Prop :=
  ∃ y token, x.at? p = some y ∧ y.declared? = some token ∧ token.lexeme = name

/-- The names that a scope has declared before a position: those whose declarations belong to it
and stand before the position, and in a class that of the receiver. -/
def declaredBefore (x : Piece) (p scope : Path) : Set String :=
  {name | (∃ d < p, x.DeclaresAt d name ∧ (x.scopesAround d).head? = some scope) ∨
    ((x.at? scope).any isClass = true ∧ name = receiverName)}

/-- The names that a piece declares outside the scopes in it. -/
def free (x : Piece) : Set String := {name | ∃ d, x.DeclaresAt d name ∧ x.scopesAround d = []}

/-- The names that a piece declares outside the scopes in it and before a position. -/
def freeBefore (x : Piece) (p : Path) : Set String :=
  {name | ∃ d < p, x.DeclaresAt d name ∧ x.scopesAround d = []}

/-- The name that a piece declares itself. -/
def own (x : Piece) : Set String := {name | ∃ token, x.declared? = some token ∧ token.lexeme = name}

/-- The names that the parts before one declare outside the scopes in them. -/
def freeParts (x : Piece) (i : Nat) : Set String := {name | ∃ y ∈ x.children.take i, name ∈ y.free}

/-- The names that a piece declares just for its own inside. -/
def held (x : Piece) : Set String := {name | x.isClass = true ∧ name = receiverName}

end Piece

namespace Binding

/-- Names that are added to the innermost one of some scopes. -/
def adding (names : Set String) (scopes : List (Set String)) : List (Set String) :=
  scopes.modifyHead fun scope => scope ∪ names

/-- Adding no names. -/
@[simp] theorem adding_empty (scopes : List (Set String)) : adding ∅ scopes = scopes := by
  cases scopes with
  | nil => rfl
  | cons scope outer => exact congrArg (· :: outer) (Set.union_empty scope)

/-- Adding names in two steps. -/
theorem adding_adding (names others : Set String) (scopes : List (Set String)) :
    adding others (adding names scopes) = adding (names ∪ others) scopes := by
  cases scopes with
  | nil => rfl
  | cons scope outer => exact congrArg (· :: outer) (Set.union_assoc scope names others)

/-- Storing a name in a scope adds it to the names of the scope. -/
theorem Scope.names_insert (scope : Scope) (name : String) (complete : Bool) :
    Scope.names (scope.insert name complete) = scope.names ∪ {name} := by
  ext sought
  change (scope.insert name complete).contains sought = true ↔ _
  rw [Table.contains_insert, Bool.or_eq_true, decide_eq_true_iff, or_comm]
  exact or_congr Iff.rfl eq_comm

/-- Completing a name adds it to the innermost scope. -/
theorem names_completeIn (name : Token) (scopes : List Scope) :
    (completeIn name scopes).map Scope.names = adding {name.lexeme} (scopes.map Scope.names) := by
  cases scopes with
  | nil => rfl
  | cons scope outer =>
    exact congrArg (· :: outer.map Scope.names) (scope.names_insert name.lexeme true)

/-- Declaring a name adds it to the innermost scope. -/
theorem names_declareIn (name : Token) (scopes : List Scope) :
    (declareIn name scopes).map Scope.names = adding {name.lexeme} (scopes.map Scope.names) := by
  cases scopes with
  | nil => rfl
  | cons scope outer =>
    cases hdeclared : scope.contains name.lexeme with
    | false =>
      rw [declareIn, hdeclared]
      exact congrArg (· :: outer.map Scope.names) (scope.names_insert name.lexeme false)
    | true =>
      rw [declareIn, hdeclared]
      have hmem : name.lexeme ∈ scope.names := hdeclared
      have hsame : scope.names = scope.names ∪ {name.lexeme} :=
        (Set.union_eq_left.mpr (Set.singleton_subset_iff.mpr hmem)).symm
      exact congrArg (· :: outer.map Scope.names) hsame

/-- Introducing a name adds it to the innermost scope. -/
theorem names_introduceIn (name : Token) (scopes : List Scope) :
    (introduceIn name scopes).map Scope.names = adding {name.lexeme} (scopes.map Scope.names) := by
  rw [introduceIn, names_completeIn, names_declareIn, adding_adding, Set.union_self]

end Binding

namespace Piece

variable {x y : Piece} {i : Nat}

/-- A piece that declares a name declares just that one. -/
theorem own_of_some {token : Token} (h : x.declared? = some token) : x.own = {token.lexeme} := by
  ext name
  constructor
  · rintro ⟨other, hother, rfl⟩
    rw [h] at hother
    cases hother
    exact rfl
  · rintro rfl
    exact ⟨token, h, rfl⟩

/-- A piece that declares no name. -/
theorem own_of_none (h : x.declared? = none) : x.own = ∅ := by
  refine Set.eq_empty_of_forall_notMem ?_
  rintro name ⟨other, hother, -⟩
  rw [h] at hother
  cases hother

/-- Around a position in a part are the scopes around it there, and the whole if it is one. -/
theorem scopesAround_cons (h : x.children[i]? = some y) (p : Path) :
    x.scopesAround (i :: p) = (y.scopesAround p).map (i :: ·) ++ if x.isScope then [[]] else [] :=
  around_cons isScope h p

/-- What is declared at a position in a part. -/
theorem declaresAt_cons (h : x.children[i]? = some y) (p : Path) (name : String) :
    x.DeclaresAt (i :: p) name ↔ y.DeclaresAt p name := by
  unfold DeclaresAt
  rw [at?, h, Option.bind_some]

/-- What is declared at a position is declared in a part or by the piece itself. -/
theorem DeclaresAt.cases {p : Path} {name : String} (h : x.DeclaresAt p name) :
    (p = [] ∧ name ∈ x.own) ∨
      ∃ i q y, p = i :: q ∧ x.children[i]? = some y ∧ y.DeclaresAt q name := by
  obtain ⟨z, token, hz, htoken, hname⟩ := h
  cases p with
  | nil =>
    cases hz
    exact Or.inl ⟨rfl, token, htoken, hname⟩
  | cons i q =>
    obtain ⟨y, hy, hz⟩ := at?_cons.mp hz
    exact Or.inr ⟨i, q, y, rfl, hy, z, token, hz, htoken, hname⟩

/-- A piece itself declares its own name. -/
theorem declaresAt_nil {name : String} (h : name ∈ x.own) : x.DeclaresAt [] name :=
  let ⟨token, htoken, hname⟩ := h
  ⟨x, token, rfl, htoken, hname⟩

/-- A position in a part of a scope is inside a scope. -/
theorem scopesAround_ne_nil (hx : x.isScope = true) (h : x.children[i]? = some y) (p : Path) :
    x.scopesAround (i :: p) ≠ [] := by
  rw [scopesAround_cons h, if_pos hx]
  simp

/-- A position in a part of what is no scope is in a scope exactly if it is so in the part. -/
theorem scopesAround_eq_nil (hx : x.isScope = false) (h : x.children[i]? = some y) (p : Path) :
    x.scopesAround (i :: p) = [] ↔ y.scopesAround p = [] := by
  rw [scopesAround_cons h, hx]
  simp

/-- Before a position in a part stands what is in earlier parts and what stands before it there. -/
theorem mem_inside_iff (hy : x.children[i]? = some y) (p : Path) (name : String) :
    name ∈ x.freeParts i ∪ y.freeBefore p ↔
      ∃ j q z, (j :: q : Path) < i :: p ∧ x.children[j]? = some z ∧ z.DeclaresAt q name ∧
        z.scopesAround q = [] := by
  constructor
  · rintro (⟨z, hz, q, hname, hfree⟩ | ⟨q, hq, hname, hfree⟩)
    · obtain ⟨j, hj, rfl⟩ := List.mem_take_iff_getElem.mp hz
      have hless := (Nat.lt_min.mp hj).1
      have hget := List.getElem?_eq_getElem (Nat.lt_min.mp hj).2
      exact ⟨j, q, _, List.cons_lt_cons_iff.mpr (Or.inl hless), hget, hname, hfree⟩
    · exact ⟨i, q, y, List.cons_lt_cons_iff.mpr (Or.inr ⟨rfl, hq⟩), hy, hname, hfree⟩
  · rintro ⟨j, q, z, hless, hz, hname, hfree⟩
    rcases List.cons_lt_cons_iff.mp hless with hj | ⟨rfl, hq⟩
    · obtain ⟨hsize, rfl⟩ := List.getElem?_eq_some_iff.mp hz
      refine Or.inl ⟨_, List.mem_take_iff_getElem.mpr ⟨j, ?_, rfl⟩, q, hname, hfree⟩
      exact Nat.lt_min.mpr ⟨hj, hsize⟩
    · rw [hy] at hz
      cases hz
      exact Or.inr ⟨q, hq, hname, hfree⟩

/-- What a scope declares around it is its own name. -/
theorem free_of_isScope (hx : x.isScope = true) : x.free = x.own := by
  ext name
  constructor
  · rintro ⟨d, hname, hfree⟩
    rcases hname.cases with ⟨-, hown⟩ | ⟨j, q, z, rfl, hz, -⟩
    · exact hown
    · exact absurd hfree (scopesAround_ne_nil hx hz q)
  · exact fun hown => ⟨[], declaresAt_nil hown, rfl⟩

/-- What is no scope declares its own name and the names that its parts declare. -/
theorem free_of_not_isScope (hx : x.isScope = false) :
    x.free = x.own ∪ {name | ∃ y ∈ x.children, name ∈ y.free} := by
  ext name
  constructor
  · rintro ⟨d, hname, hfree⟩
    rcases hname.cases with ⟨-, hown⟩ | ⟨j, q, z, rfl, hz, hpart⟩
    · exact Or.inl hown
    · exact Or.inr ⟨z, List.mem_of_getElem? hz, q, hpart, (scopesAround_eq_nil hx hz q).mp hfree⟩
  · rintro (hown | ⟨z, hz, q, hpart, hfree⟩)
    · exact ⟨[], declaresAt_nil hown, rfl⟩
    · obtain ⟨j, hj⟩ := List.getElem?_of_mem hz
      exact ⟨j :: q, (declaresAt_cons hj q name).mpr hpart, (scopesAround_eq_nil hx hj q).mpr hfree⟩

/-- Before a position inside a scope, the scope declares its own name around it. -/
theorem freeBefore_of_isScope (hx : x.isScope = true) (i : Nat) (p : Path) :
    x.freeBefore (i :: p) = x.own := by
  ext name
  constructor
  · rintro ⟨d, -, hname, hfree⟩
    rcases hname.cases with ⟨-, hown⟩ | ⟨j, q, z, rfl, hz, -⟩
    · exact hown
    · exact absurd hfree (scopesAround_ne_nil hx hz q)
  · exact fun hown => ⟨[], List.nil_lt_cons i p, declaresAt_nil hown, rfl⟩

/-- Before a position inside what is no scope, it declares its own name, and its parts declare
theirs as far as they stand before the position. -/
theorem freeBefore_of_not_isScope (hx : x.isScope = false) (hy : x.children[i]? = some y)
    (p : Path) : x.freeBefore (i :: p) = x.own ∪ (x.freeParts i ∪ y.freeBefore p) := by
  ext name
  rw [Set.mem_union, mem_inside_iff hy]
  constructor
  · rintro ⟨d, hless, hname, hfree⟩
    rcases hname.cases with ⟨-, hown⟩ | ⟨j, q, z, rfl, hz, hpart⟩
    · exact Or.inl hown
    · exact Or.inr ⟨j, q, z, hless, hz, hpart, (scopesAround_eq_nil hx hz q).mp hfree⟩
  · rintro (hown | ⟨j, q, z, hless, hz, hpart, hfree⟩)
    · exact ⟨[], List.nil_lt_cons i p, declaresAt_nil hown, rfl⟩
    · exact ⟨j :: q, hless, (declaresAt_cons hz q name).mpr hpart,
        (scopesAround_eq_nil hx hz q).mpr hfree⟩

/-- The scopes inside a part have declared the same names, seen from the whole. -/
theorem declaredBefore_cons (hy : x.children[i]? = some y) (p scope : Path) :
    x.declaredBefore (i :: p) (i :: scope) = y.declaredBefore p scope := by
  have hat : (x.at? (i :: scope)).any isClass = (y.at? scope).any isClass := by
    rw [at?, hy, Option.bind_some]
  -- Only what is declared in the same part can belong to a scope in it.
  have hhead : ∀ {j z}, x.children[j]? = some z → ∀ q,
      ((x.scopesAround (j :: q)).head? = some (i :: scope) ↔
        j = i ∧ (z.scopesAround q).head? = some scope) := by
    intro j z hz q
    rw [scopesAround_cons hz]
    cases hq : z.scopesAround q with
    | nil => cases x.isScope <;> simp
    | cons first rest => simp
  ext name
  constructor
  · rintro (⟨d, hless, hname, hscope⟩ | ⟨hclass, rfl⟩)
    · rcases hname.cases with ⟨rfl, -⟩ | ⟨j, q, z, rfl, hz, hpart⟩
      · cases hscope
      · obtain ⟨rfl, hinner⟩ := (hhead hz q).mp hscope
        rw [hy] at hz
        cases hz
        rcases List.cons_lt_cons_iff.mp hless with hlt | ⟨-, hq⟩
        · exact absurd hlt (Nat.lt_irrefl j)
        · exact Or.inl ⟨q, hq, hpart, hinner⟩
    · exact Or.inr ⟨hat ▸ hclass, rfl⟩
  · rintro (⟨q, hq, hpart, hinner⟩ | ⟨hclass, rfl⟩)
    · exact Or.inl ⟨i :: q, List.cons_lt_cons_iff.mpr (Or.inr ⟨rfl, hq⟩),
        (declaresAt_cons hy q name).mpr hpart, (hhead hy q).mpr ⟨rfl, hinner⟩⟩
    · exact Or.inr ⟨hat ▸ hclass, rfl⟩

/-- A scope has declared what its parts declare before a position, and the receiver in a class. -/
theorem declaredBefore_nil (hx : x.isScope = true) (hy : x.children[i]? = some y) (p : Path) :
    x.declaredBefore (i :: p) [] = x.held ∪ (x.freeParts i ∪ y.freeBefore p) := by
  have hhead : ∀ {j z}, x.children[j]? = some z → ∀ q,
      ((x.scopesAround (j :: q)).head? = some [] ↔ z.scopesAround q = []) := by
    intro j z hz q
    rw [scopesAround_cons hz, if_pos hx]
    cases hq : z.scopesAround q <;> simp
  ext name
  rw [Set.mem_union, mem_inside_iff hy]
  constructor
  · rintro (⟨d, hless, hname, hscope⟩ | ⟨hclass, rfl⟩)
    · rcases hname.cases with ⟨rfl, -⟩ | ⟨j, q, z, rfl, hz, hpart⟩
      · cases hscope
      · exact Or.inr ⟨j, q, z, hless, hz, hpart, (hhead hz q).mp hscope⟩
    · exact Or.inl ⟨hclass, rfl⟩
  · rintro (⟨hclass, rfl⟩ | ⟨j, q, z, hless, hz, hpart, hfree⟩)
    · exact Or.inr ⟨hclass, rfl⟩
    · exact Or.inl ⟨j :: q, hless, (declaresAt_cons hz q name).mpr hpart, (hhead hz q).mpr hfree⟩

/-- The empty scope has no names. -/
theorem names_empty : Scope.names .empty = ∅ :=
  Set.eq_empty_of_forall_notMem fun _ h => Bool.noConfusion h

/-- Only a class holds a name from the beginning. -/
theorem held_of_not_isClass (h : x.isClass = false) : x.held = ∅ := by
  refine Set.eq_empty_of_forall_notMem ?_
  rintro name ⟨hclass, -⟩
  rw [h] at hclass
  cases hclass

/-- A class holds the name of the receiver. -/
theorem held_of_isClass (h : x.isClass = true) : x.held = receiverScope.names := by
  rw [receiverScope, Scope.names_insert, names_empty, Set.empty_union]
  ext name
  exact and_iff_right h

/-- Entering a scope declares its own name around it and opens it with what it holds. -/
theorem names_opened_of_isScope (hx : x.isScope = true) (scopes : List Scope) :
    (x.opened scopes).map Scope.names = x.held :: adding x.own (scopes.map Scope.names) := by
  cases x with
  | program body => cases hx
  | parameter name => cases hx
  | expr e => cases hx
  | method routine =>
    rw [held_of_not_isClass rfl, own_of_none rfl, adding_empty, opened, List.map_cons, names_empty]
  | stmt s =>
    cases s with
    | block body =>
      rw [held_of_not_isClass rfl, own_of_none rfl, adding_empty, opened, List.map_cons,
        names_empty]
    | function routine =>
      rw [held_of_not_isClass rfl, own_of_some rfl, opened, List.map_cons, names_empty,
        names_introduceIn]
    | classDecl name methods =>
      rw [held_of_isClass rfl, own_of_some rfl, opened, List.map_cons, names_introduceIn]
    | _ => cases hx

/-- Before the parts of what is no scope its own name is declared. -/
theorem names_opened_of_not_isScope (hx : x.isScope = false) (scopes : List Scope) :
    (x.opened scopes).map Scope.names = adding x.own (scopes.map Scope.names) := by
  have hnone : ∀ {x : Piece}, x.declared? = none →
      scopes.map Scope.names = adding x.own (scopes.map Scope.names) := by
    intro x hx
    rw [own_of_none hx, adding_empty]
  cases x with
  | program body => exact hnone rfl
  | parameter name => rw [own_of_some rfl, opened, names_introduceIn]
  | expr e => exact hnone rfl
  | method routine => cases hx
  | stmt s =>
    cases s with
    | var name initial => rw [own_of_some rfl, opened, names_declareIn]
    | block body => cases hx
    | function routine => cases hx
    | classDecl name methods => cases hx
    | _ => exact hnone rfl

/-- Behind the parts of what is no scope at most its own name is declared once more. -/
theorem names_closed_of_not_isScope (hx : x.isScope = false) (scopes : List Scope) :
    ∃ names ⊆ x.own, (x.closed scopes).map Scope.names = adding names (scopes.map Scope.names) := by
  have hsame : ∃ names ⊆ x.own, scopes.map Scope.names = adding names (scopes.map Scope.names) :=
    ⟨∅, Set.empty_subset _, (adding_empty _).symm⟩
  cases x with
  | method routine => cases hx
  | stmt s =>
    cases s with
    | var name initial =>
      exact ⟨{name.lexeme}, subset_of_eq (own_of_some rfl).symm, names_completeIn name scopes⟩
    | block body => cases hx
    | function routine => cases hx
    | classDecl name methods => cases hx
    | _ => exact hsame
  | _ => exact hsame

/-- A scope is left without the names in it. -/
theorem closed_of_isScope (hx : x.isScope = true) (scopes : List Scope) :
    x.closed scopes = scopes.tail := by
  cases x with
  | program body => cases hx
  | parameter name => cases hx
  | expr e => cases hx
  | method routine => rfl
  | stmt s =>
    cases s with
    | block body => rfl
    | function routine => rfl
    | classDecl name methods => rfl
    | _ => cases hx

/-- Pieces one after the other add the names that they declare outside the scopes in them. -/
theorem names_foldl_after {ys : List Piece} (h : ∀ y ∈ ys, ∀ scopes : List Scope,
      (y.after scopes).map Scope.names = adding y.free (scopes.map Scope.names))
    (scopes : List Scope) : (ys.foldl after scopes).map Scope.names =
      adding {name | ∃ y ∈ ys, name ∈ y.free} (scopes.map Scope.names) := by
  induction ys generalizing scopes with
  | nil =>
    have hnone : {name | ∃ y ∈ ([] : List Piece), name ∈ y.free} = ∅ :=
      Set.eq_empty_of_forall_notMem fun _ ⟨_, hy, _⟩ => List.not_mem_nil hy
    rw [hnone, adding_empty]
    rfl
  | cons first rest ih =>
    obtain ⟨hfirst, hrest⟩ := List.forall_mem_cons.mp h
    have hall : {name | ∃ y ∈ first :: rest, name ∈ y.free} =
        first.free ∪ {name | ∃ y ∈ rest, name ∈ y.free} := by
      ext name
      simp
    rw [List.foldl_cons, ih hrest, hfirst, adding_adding, hall]

/-- Behind a piece the innermost scope also has the names that the piece declares outside the scopes
in it. -/
theorem names_after (x : Piece) : ∀ scopes : List Scope,
    (x.after scopes).map Scope.names = adding x.free (scopes.map Scope.names) := by
  induction x using induct with
  | h x ih =>
    intro scopes
    rw [after_eq]
    cases hx : x.isScope with
    | true =>
      rw [closed_of_isScope hx, foldl_after_tail, List.map_tail, names_opened_of_isScope hx,
        free_of_isScope hx, List.tail_cons]
    | false =>
      obtain ⟨again, hagain, hclosed⟩ :=
        names_closed_of_not_isScope hx (x.children.foldl after (x.opened scopes))
      have hall : x.own ∪ ({name | ∃ y ∈ x.children, name ∈ y.free} ∪ again) = x.free := by
        rw [free_of_not_isScope hx, ← Set.union_assoc]
        exact Set.union_eq_left.mpr (hagain.trans Set.subset_union_left)
      rw [hclosed, names_foldl_after ih, names_opened_of_not_isScope hx, adding_adding,
        adding_adding, hall]

/-- The names of the scopes in which a part of a scope stands. -/
theorem names_scopesBefore_of_isScope (hx : x.isScope = true) (scopes : List Scope) (i : Nat) :
    (x.scopesBefore scopes i).map Scope.names =
      (x.held ∪ x.freeParts i) :: adding x.own (scopes.map Scope.names) := by
  rw [scopesBefore, names_foldl_after fun y _ => y.names_after, names_opened_of_isScope hx]
  rfl

/-- The names of the scopes in which a part of what is no scope stands. -/
theorem names_scopesBefore_of_not_isScope (hx : x.isScope = false) (scopes : List Scope) (i : Nat) :
    (x.scopesBefore scopes i).map Scope.names =
      adding (x.own ∪ x.freeParts i) (scopes.map Scope.names) := by
  rw [scopesBefore, names_foldl_after fun y _ => y.names_after, names_opened_of_not_isScope hx,
    adding_adding]
  rfl

/-- At every position the walk has open just the scopes around it, each with the names that it has
declared before, inside those that were open from the beginning. -/
theorem names_scopesAt {p : Path} : ∀ {x z : Piece}, x.at? p = some z → ∀ scopes : List Scope,
    (scopesAt scopes x p).map Scope.names = (x.scopesAround p).map (x.declaredBefore p) ++
      adding (x.freeBefore p) (scopes.map Scope.names) := by
  induction p with
  | nil =>
    intro x z _ scopes
    have hnone : x.freeBefore [] = ∅ :=
      Set.eq_empty_of_forall_notMem fun _ ⟨d, hd, _⟩ => List.not_lt_nil d hd
    rw [hnone, adding_empty]
    rfl
  | cons i p ih =>
    intro x z hz scopes
    obtain ⟨y, hy, hz⟩ := at?_cons.mp hz
    have hinner : (y.scopesAround p).map (y.declaredBefore p) =
        ((y.scopesAround p).map (i :: ·)).map (x.declaredBefore (i :: p)) := by
      rw [List.map_map]
      exact List.map_congr_left fun scope _ => (declaredBefore_cons hy p scope).symm
    rw [scopesAt, hy, Option.elim_some, ih hz, hinner, scopesAround_cons hy, List.map_append]
    cases hx : x.isScope with
    | true =>
      rw [names_scopesBefore_of_isScope hx, freeBefore_of_isScope hx, if_pos rfl,
        List.append_assoc]
      congr 1
      rw [List.map_singleton, declaredBefore_nil hx hy, ← Set.union_assoc]
      rfl
    | false =>
      rw [names_scopesBefore_of_not_isScope hx, freeBefore_of_not_isScope hx hy, adding_adding,
        Set.union_assoc]
      simp

end Piece

end Scriptlet
