import Scriptlet.Proofs.Binding.Sites

/-!
# Positions in a program

A program, a statement, a routine, a parameter and an expression are pieces of one tree. A path
says which part to enter at each step downward, so that a piece inside another one is known by the
path that leads to it, also where the same piece stands twice. Paths are compared like the
words of a dictionary: a piece comes before its parts, and one part with all that is in it
before the next one, which is the order of the program text.
-/

namespace Scriptlet

open Binding

/-- A piece of a program. -/
inductive Piece where
  | program (body : Program)
  | stmt (s : Stmt)
  /-- A routine of a class; its name is no name of the program. -/
  | method (routine : Routine)
  | parameter (name : Token)
  | expr (e : Expr)

/-- Which part to enter at each step downward. -/
abbrev Path := List Nat

/-- The paths to everything around a position, the innermost first. -/
def Path.outward : Path → List Path
  | [] => []
  | i :: p => (outward p).map (i :: ·) ++ [[]]

namespace Piece

/-- The parts of a piece, in the order of the program text. Inside an expression nothing is
declared, and its parts are listed as binding goes over them. -/
def children : Piece → List Piece
  | program body => body.map stmt
  | stmt (.expr value) => [expr value]
  | stmt (.print value) => [expr value]
  | stmt (.var _ initial) => initial.toList.map expr
  | stmt (.block body) => body.map stmt
  | stmt (.ifThen condition yes) => [expr condition, stmt yes]
  | stmt (.ifElse condition yes no) => [expr condition, stmt yes, stmt no]
  | stmt (.loop condition body) => [expr condition, stmt body]
  | stmt (.function (.mk _ parameters body)) => parameters.map parameter ++ body.map stmt
  | stmt (.ret _ value) => value.toList.map expr
  | stmt (.classDecl _ methods) => methods.map method
  | method (.mk _ parameters body) => parameters.map parameter ++ body.map stmt
  | parameter _ => []
  | expr (.set _ object _ value) => [expr value, expr object]
  | expr e => e.children.map expr

/-- The piece to which a path leads. -/
def at? : Piece → Path → Option Piece
  | x, [] => some x
  | x, i :: p => x.children[i]?.bind fun y => y.at? p

/-- The positions around a position at which pieces of some kind stand, the innermost first. -/
def around (kind : Piece → Bool) (x : Piece) (p : Path) : List Path :=
  p.outward.filter fun q => (x.at? q).any kind

/-- The name that a piece declares. -/
def declared? : Piece → Option Token
  | stmt s => s.declared?
  | parameter name => some name
  | program _ => none
  | method _ => none
  | expr _ => none

/-- Whether a piece is a function or a method. -/
def isRoutine : Piece → Bool
  | stmt (.function _) => true
  | method _ => true
  | _ => false

/-- Whether a piece is a class. -/
def isClass : Piece → Bool
  | stmt (.classDecl _ _) => true
  | _ => false

/-- Whether a piece is a block. -/
def isBlock : Piece → Bool
  | stmt (.block _) => true
  | _ => false

/-- Whether names that are declared in a piece belong to it. -/
def holdsNames (x : Piece) : Bool := x.isBlock || x.isRoutine

/-- Whether a piece is a scope. The names in a routine of a class belong to the routine, and the
class itself holds only that of the receiver. -/
def isScope (x : Piece) : Bool := x.holdsNames || x.isClass

/-- The parts of an expression as pieces. -/
theorem mem_children_expr {e : Expr} {y : Piece} :
    y ∈ (expr e).children ↔ ∃ inner ∈ e.children, y = expr inner := by
  have hmap : y ∈ e.children.map expr ↔ ∃ inner ∈ e.children, y = expr inner := by
    simp only [List.mem_map, eq_comm]
  cases e with
  | set id object name value =>
    refine Iff.trans ?_ hmap
    exact List.mem_cons.trans (Or.comm.trans (by simp [Expr.children]))
  | _ => exact hmap

/-- The parts of an expression are smaller. -/
theorem sizeOf_expr_lt {e inner : Expr} (h : inner ∈ e.children) : sizeOf inner < sizeOf e := by
  cases e with
  | call id callee paren arguments =>
    rcases List.mem_cons.mp h with rfl | h
    · simp only [Expr.call.sizeOf_spec]
      omega
    · have hless := List.sizeOf_lt_of_mem h
      simp only [Expr.call.sizeOf_spec]
      omega
  | literal | var | receiver => exact absurd h List.not_mem_nil
  | unary | group | assign | get =>
    rw [List.mem_singleton.mp h]
    simp only [Expr.unary.sizeOf_spec, Expr.group.sizeOf_spec, Expr.assign.sizeOf_spec,
      Expr.get.sizeOf_spec]
    omega
  | binary | logical | set =>
    simp only [Expr.children, List.mem_cons, List.not_mem_nil, or_false] at h
    simp only [Expr.binary.sizeOf_spec, Expr.logical.sizeOf_spec, Expr.set.sizeOf_spec]
    rcases h with rfl | rfl <;> omega

/-- Every part is smaller than the whole. -/
theorem sizeOf_lt {x y : Piece} (h : y ∈ x.children) : sizeOf y < sizeOf x := by
  have hbody : ∀ {body : List Stmt}, y ∈ body.map stmt → sizeOf y < 1 + sizeOf body := by
    intro body hy
    obtain ⟨s, hs, rfl⟩ := List.mem_map.mp hy
    have hless := List.sizeOf_lt_of_mem hs
    simp only [stmt.sizeOf_spec]
    omega
  have hroutine : ∀ {parameters : List Token} {body : List Stmt},
      y ∈ parameters.map parameter ++ body.map stmt →
        sizeOf y < 1 + sizeOf parameters + sizeOf body := by
    intro parameters body hy
    rcases List.mem_append.mp hy with hy | hy
    · obtain ⟨name, hname, rfl⟩ := List.mem_map.mp hy
      have hless := List.sizeOf_lt_of_mem hname
      simp only [parameter.sizeOf_spec]
      omega
    · have hless := hbody hy
      omega
  have hvalue : ∀ {value : Option Expr}, y ∈ value.toList.map expr →
      sizeOf y < 1 + sizeOf value := by
    intro value hy
    cases value with
    | none => exact absurd hy List.not_mem_nil
    | some e =>
      rw [List.mem_singleton.mp hy]
      simp only [expr.sizeOf_spec, Option.some.sizeOf_spec]
      omega
  cases x with
  | program body =>
    have hless := hbody h
    simp only [program.sizeOf_spec]
    omega
  | parameter name => exact absurd h List.not_mem_nil
  | method routine =>
    obtain ⟨name, parameters, body⟩ := routine
    have hless := hroutine h
    simp only [method.sizeOf_spec, Routine.mk.sizeOf_spec]
    omega
  | expr e =>
    obtain ⟨inner, hinner, rfl⟩ := mem_children_expr.mp h
    have hless := sizeOf_expr_lt hinner
    simp only [expr.sizeOf_spec]
    omega
  | stmt s =>
    simp only [stmt.sizeOf_spec]
    cases s with
    | block body =>
      have hless := hbody h
      simp only [Stmt.block.sizeOf_spec]
      omega
    | var name initial =>
      have hless := hvalue h
      simp only [Stmt.var.sizeOf_spec]
      omega
    | ret keyword value =>
      have hless := hvalue h
      simp only [Stmt.ret.sizeOf_spec]
      omega
    | function routine =>
      obtain ⟨name, parameters, body⟩ := routine
      have hless := hroutine h
      simp only [Stmt.function.sizeOf_spec, Routine.mk.sizeOf_spec]
      omega
    | classDecl name methods =>
      obtain ⟨r, hr, rfl⟩ := List.mem_map.mp h
      have hless := List.sizeOf_lt_of_mem hr
      simp only [Stmt.classDecl.sizeOf_spec, method.sizeOf_spec]
      omega
    | _ =>
      simp only [children, List.mem_cons, List.not_mem_nil, or_false] at h
      rcases h with rfl | rfl | rfl <;> simp <;> omega

/-- What holds of a piece when it holds of its parts holds of every piece. -/
theorem induct {motive : Piece → Prop} (h : ∀ x, (∀ y ∈ x.children, motive y) → motive x)
    (x : Piece) : motive x :=
  h x fun y _ => induct h y
termination_by sizeOf x
decreasing_by exact sizeOf_lt ‹_›

/-- The empty path leads nowhere else. -/
@[simp] theorem at?_nil (x : Piece) : x.at? [] = some x := rfl

/-- A path leads through one of the parts. -/
theorem at?_cons {x z : Piece} {i : Nat} {p : Path} :
    x.at? (i :: p) = some z ↔ ∃ y, x.children[i]? = some y ∧ y.at? p = some z := by
  rw [at?, Option.bind_eq_some_iff]

/-- One path after another. -/
theorem at?_append (x : Piece) (p q : Path) :
    x.at? (p ++ q) = (x.at? p).bind fun y => y.at? q := by
  induction p generalizing x with
  | nil => rfl
  | cons i p ih =>
    rw [List.cons_append, at?, at?]
    cases x.children[i]? with
    | none => rfl
    | some y => exact ih y

/-- Around a position in a part are the positions around it there and that of the whole. -/
theorem around_cons (kind : Piece → Bool) {x y : Piece} {i : Nat} (h : x.children[i]? = some y)
    (p : Path) :
    x.around kind (i :: p) = (y.around kind p).map (i :: ·) ++ if kind x then [[]] else [] := by
  have hpart : ∀ q, (x.at? (i :: q)).any kind = (y.at? q).any kind := by
    intro q
    rw [at?, h, Option.bind_some]
  have hinside : ((fun q => (x.at? q).any kind) ∘ (i :: ·)) = fun q => (y.at? q).any kind :=
    funext hpart
  unfold around
  rw [Path.outward, List.filter_append, List.filter_map, hinside]
  congr 1
  cases hx : kind x <;> simp [hx]

end Piece

end Scriptlet
