import Scriptlet.Proofs.Binding.Paths
import Scriptlet.Syntax.Walk

/-!
# The distances that binding records at positions

Where no two expressions of a program have the same number, the distance that is recorded for an
expression is that of its name in the scopes at its position, and none is recorded if its name
is in none of them or if it looks up no name.
-/

namespace Scriptlet.Piece

open Binding

/-- The numbers of the expressions in a piece. -/
def ids : Piece → List Nat
  | program body => (Stmt.exprsOfAll body).map Expr.id
  | stmt s => s.exprs.map Expr.id
  | method routine => routine.exprs.map Expr.id
  | parameter _ => []
  | expr e => e.nodes.map Expr.id

/-- The number of a piece itself. -/
def ownIds : Piece → List Nat
  | expr e => [e.id]
  | _ => []

/-- The numbers in statements are those in each of them. -/
theorem flatMap_ids_stmts (body : List Stmt) :
    (body.map stmt).flatMap ids = (Stmt.exprsOfAll body).map Expr.id := by
  induction body with
  | nil => rfl
  | cons s rest ih =>
    rw [List.map_cons, List.flatMap_cons, ih, Stmt.exprsOfAll, List.map_append]
    rfl

/-- The numbers in expressions are those in each of them. -/
theorem flatMap_ids_exprs (es : List Expr) :
    (es.map expr).flatMap ids = (Expr.nodesOfAll es).map Expr.id := by
  induction es with
  | nil => rfl
  | cons e rest ih =>
    rw [List.map_cons, List.flatMap_cons, ih, Expr.nodesOfAll, List.map_append]
    rfl

/-- The numbers in routines are those in each of them. -/
theorem flatMap_ids_methods (methods : List Routine) :
    (methods.map method).flatMap ids = (Routine.exprsOfAll methods).map Expr.id := by
  induction methods with
  | nil => rfl
  | cons r rest ih =>
    rw [List.map_cons, List.flatMap_cons, ih, Routine.exprsOfAll, List.map_append]
    rfl

/-- The numbers in a routine are those in its body. -/
theorem flatMap_ids_routine (parameters : List Token) (body : List Stmt) :
    (parameters.map parameter ++ body.map stmt).flatMap ids =
      (Stmt.exprsOfAll body).map Expr.id := by
  have hparameters : (parameters.map parameter).flatMap ids = [] := by
    rw [List.flatMap_eq_nil_iff]
    intro y hy
    obtain ⟨name, -, rfl⟩ := List.mem_map.mp hy
    rfl
  rw [List.flatMap_append, hparameters, List.nil_append, flatMap_ids_stmts]

/-- The numbers in an expression that may be absent. -/
theorem flatMap_ids_option (value : Option Expr) :
    (value.toList.map expr).flatMap ids = (Expr.nodesOfOption value).map Expr.id := by
  cases value with
  | none => rfl
  | some e => exact List.append_nil _

/-- The numbers in a piece are its own and those in its parts. -/
theorem ids_perm (x : Piece) : x.ids.Perm (x.ownIds ++ x.children.flatMap ids) := by
  cases x with
  | program body => exact .of_eq (flatMap_ids_stmts body).symm
  | parameter name => exact .refl _
  | method routine =>
    obtain ⟨name, parameters, body⟩ := routine
    exact .of_eq (flatMap_ids_routine parameters body).symm
  | expr e =>
    cases e with
    | set id object name value =>
      have hparts : ((object.nodes ++ value.nodes).map Expr.id).Perm
          ([expr value, expr object].flatMap ids) := by
        rw [List.map_append]
        refine List.perm_append_comm.trans (.of_eq ?_)
        simp [ids]
      exact hparts.cons id
    | call id callee paren arguments =>
      have hparts : (callee.nodes ++ Expr.nodesOfAll arguments).map Expr.id =
          (expr callee).ids ++ (arguments.map expr).flatMap ids := by
        rw [List.map_append, flatMap_ids_exprs]
        rfl
      exact .of_eq (congrArg (List.cons id) hparts)
    | _ => simp [ids, ownIds, children, Expr.nodes, Expr.children, Expr.id]
  | stmt s =>
    cases s with
    | var name initial => exact .of_eq (flatMap_ids_option initial).symm
    | block body => exact .of_eq (flatMap_ids_stmts body).symm
    | function routine =>
      obtain ⟨name, parameters, body⟩ := routine
      exact .of_eq (flatMap_ids_routine parameters body).symm
    | ret keyword value => exact .of_eq (flatMap_ids_option value).symm
    | classDecl name methods => exact .of_eq (flatMap_ids_methods methods).symm
    | _ => simp [ids, children, ownIds, Stmt.exprs]

/-- A number in a piece is its own or in one of its parts. -/
theorem mem_ids {x : Piece} {n : Nat} :
    n ∈ x.ids ↔ n ∈ x.ownIds ∨ ∃ y ∈ x.children, n ∈ y.ids := by
  rw [x.ids_perm.mem_iff, List.mem_append, List.mem_flatMap]

/-- The numbers in a piece are those of the expressions at its positions. -/
theorem mem_ids_iff_at? (x : Piece) {n : Nat} :
    n ∈ x.ids ↔ ∃ p e, x.at? p = some (expr e) ∧ e.id = n := by
  induction x using induct with
  | h x ih =>
    rw [mem_ids]
    constructor
    · rintro (hown | ⟨y, hy, hn⟩)
      · cases x with
        | expr e => exact ⟨[], e, rfl, (List.mem_singleton.mp hown).symm⟩
        | _ => exact absurd hown List.not_mem_nil
      · obtain ⟨p, e, he, hid⟩ := (ih y hy).mp hn
        obtain ⟨i, hi⟩ := List.getElem?_of_mem hy
        exact ⟨i :: p, e, at?_cons.mpr ⟨y, hi, he⟩, hid⟩
    · rintro ⟨p, e, he, rfl⟩
      cases p with
      | nil =>
        cases he
        exact Or.inl (List.mem_singleton_self _)
      | cons i p =>
        obtain ⟨y, hy, he⟩ := at?_cons.mp he
        have hmem := List.mem_of_getElem? hy
        exact Or.inr ⟨y, hmem, (ih y hmem).mpr ⟨p, e, he, rfl⟩⟩

/-- Behind the parts of a piece a distance is recorded for its own number only. -/
theorem hops_behind_of_not_mem (ctx : Context) (w : Walk) {x : Piece} {n : Nat}
    (h : n ∉ x.ownIds) : (x.behind ctx w).hops.get? n = w.hops.get? n := by
  cases x with
  | program body => rfl
  | method routine => rfl
  | parameter name => rfl
  | stmt s =>
    cases s with
    | var name initial => rw [behind, (complete_spec w name).2.1]
    | _ => rfl
  | expr e => rw [hops_behind_expr, if_neg fun heq => h (List.mem_singleton.mpr heq.symm)]

/-- Pieces whose numbers are others record no distance for a number. -/
theorem foldl_walk_hops {ys : List Piece} {n : Nat}
    (h : ∀ y ∈ ys, ∀ ctx (w : Walk), (y.walk ctx w).hops.get? n = w.hops.get? n) (ctx : Context)
    (w : Walk) : (ys.foldl (walk ctx) w).hops.get? n = w.hops.get? n := by
  induction ys generalizing w with
  | nil => rfl
  | cons y rest ih =>
    obtain ⟨hy, hrest⟩ := List.forall_mem_cons.mp h
    rw [List.foldl_cons, ih hrest, hy]

/-- Going over a piece records distances for the numbers in it only. -/
theorem walk_hops_of_not_mem (x : Piece) :
    ∀ {n}, n ∉ x.ids → ∀ ctx w, (x.walk ctx w).hops.get? n = w.hops.get? n := by
  induction x using induct with
  | h x ih =>
    intro n hn ctx w
    rw [mem_ids, not_or] at hn
    obtain ⟨hown, hparts⟩ := hn
    rw [walk_eq, hops_behind_of_not_mem ctx _ hown,
      foldl_walk_hops fun y hy => ih y hy fun hmem => hparts ⟨y, hy, hmem⟩,
      (before_spec ctx w x).2]

/-- Going over pieces records distances for the numbers in them only. -/
theorem foldl_walk_hops_of_not_mem {ys : List Piece} {n : Nat} (h : n ∉ ys.flatMap ids)
    (ctx : Context) (w : Walk) : (ys.foldl (walk ctx) w).hops.get? n = w.hops.get? n :=
  foldl_walk_hops (fun y hy => y.walk_hops_of_not_mem fun hn => h (List.mem_flatMap.mpr ⟨y, hy, hn⟩))
    ctx w

/-- Where all numbers in a piece are different, the distance that is recorded for an expression is
that of its name in the scopes where it stands. -/
theorem walk_hops {p : Path} : ∀ {x : Piece} {e : Expr}, x.ids.Nodup → x.at? p = some (expr e) →
    ∀ ctx w, (x.walk ctx w).hops.get? e.id =
      (distance (contextAt ctx x p) (scopesAt w.scopes x p) e).or (w.hops.get? e.id) := by
  induction p with
  | nil =>
    intro x e hnodup hx ctx w
    cases hx
    have hall := (ids_perm (expr e)).nodup hnodup
    have hother : e.id ∉ (expr e).children.flatMap ids :=
      fun hmem => (List.nodup_append.mp hall).2.2 e.id (List.mem_singleton_self _) e.id hmem rfl
    have hexprs : ∀ y ∈ (expr e).children, ∃ inner, y = expr inner := fun y hy =>
      let ⟨inner, _, heq⟩ := mem_children_expr.mp hy
      ⟨inner, heq⟩
    rw [walk_eq, hops_behind_expr, if_pos rfl, foldl_walk_scopes, foldl_after_exprs _ hexprs,
      foldl_walk_hops_of_not_mem hother, (before_spec ctx w _).1, (before_spec ctx w _).2]
    rfl
  | cons i p ih =>
    intro x e hnodup hx ctx w
    obtain ⟨y, hy, he⟩ := at?_cons.mp hx
    obtain ⟨hi, rfl⟩ := List.getElem?_eq_some_iff.mp hy
    have hsplit : x.children = x.children.take i ++ x.children[i] :: x.children.drop (i + 1) := by
      rw [← List.drop_eq_getElem_cons hi, List.take_append_drop]
    have hall := (ids_perm x).nodup hnodup
    rw [hsplit, List.flatMap_append, List.flatMap_cons] at hall
    obtain ⟨-, hparts, hown⟩ := List.nodup_append.mp hall
    obtain ⟨-, hrest, hbefore⟩ := List.nodup_append.mp hparts
    obtain ⟨hinside, -, hbehind⟩ := List.nodup_append.mp hrest
    have hid : e.id ∈ x.children[i].ids := (mem_ids_iff_at? _).mpr ⟨p, e, he, rfl⟩
    -- The number is in the part through which the path leads, hence nowhere else.
    have hnotOwn : e.id ∉ x.ownIds := fun hmem =>
      hown e.id hmem e.id (List.mem_append_right _ (List.mem_append_left _ hid)) rfl
    have hnotBefore : e.id ∉ (x.children.take i).flatMap ids := fun hmem =>
      hbefore e.id hmem e.id (List.mem_append_left _ hid) rfl
    have hnotBehind : e.id ∉ (x.children.drop (i + 1)).flatMap ids := fun hmem =>
      hbehind e.id hid e.id hmem rfl
    have hfold := congrArg (List.foldl (walk (x.contextIn ctx)) (x.before ctx w)) hsplit
    rw [List.foldl_append, List.foldl_cons] at hfold
    rw [walk_eq, hops_behind_of_not_mem ctx _ hnotOwn, hfold,
      foldl_walk_hops_of_not_mem hnotBehind, ih hinside he, walk_scopesBefore,
      foldl_walk_hops_of_not_mem hnotBefore,
      (before_spec ctx w x).2, contextAt, scopesAt, hy]
    rfl

end Scriptlet.Piece
