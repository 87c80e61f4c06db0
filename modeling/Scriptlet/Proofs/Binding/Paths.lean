import Scriptlet.Proofs.Binding.Pieces

/-!
# The walk over a program and its positions

Binding goes over a piece by doing something before its parts, going over them in order, and
doing something behind them. So the scopes and the context in which it meets the piece at
some position are read off the path to the position. It finds no violation if and only if the
piece at every position is as it should be in the scopes and the context there, and the
distance that it records for an expression is that of its name in the scopes there.
-/

namespace Scriptlet.Piece

open Binding

/-- Go over a piece. -/
def walk (ctx : Context) (w : Walk) : Piece → Walk
  | program body => walkStmts ctx w body
  | stmt s => walkStmt ctx w s
  | method routine => walkRoutine ctx w routine
  | parameter name => w.introduce name
  | expr e => walkExpr ctx w e

/-- What surrounds the parts of a piece. -/
def contextIn (ctx : Context) (x : Piece) : Context :=
  ⟨x.isRoutine || ctx.inRoutine, x.isClass || ctx.inClass⟩

/-- What is done before the parts of a piece. -/
def before (ctx : Context) (w : Walk) : Piece → Walk
  | stmt (.var name _) => w.declare name
  | stmt (.block _) => w.enter .empty
  | stmt (.function routine) => (w.introduce routine.name).enter .empty
  | stmt (.ret keyword _) => if ctx.inRoutine then w else w.note keyword .topLevelReturn
  | stmt (.classDecl name _) => (w.introduce name).enter receiverScope
  | method _ => w.enter .empty
  | parameter name => w.introduce name
  | expr (.var _ name) => if w.isPending name then w.note name .ownInitializer else w
  | expr (.receiver _ keyword) => if ctx.inClass then w else w.note keyword .strayReceiver
  | _ => w

/-- The name that an expression looks up itself. -/
def name? (ctx : Context) : Expr → Option Token
  | .var _ name => some name
  | .assign _ name _ => some name
  | .receiver _ keyword => if ctx.inClass then some keyword else none
  | _ => none

/-- What is done behind the parts of a piece. -/
def behind (ctx : Context) (w : Walk) : Piece → Walk
  | stmt (.var name _) => w.complete name
  | stmt (.block _) => w.leave
  | stmt (.function _) => w.leave
  | stmt (.classDecl _ _) => w.leave
  | method _ => w.leave
  | expr e => (name? ctx e).elim w (w.bind e.id)
  | _ => w

/-- Going over statements is going over each of them. -/
theorem foldl_walk_stmts (ctx : Context) (w : Walk) (body : List Stmt) :
    (body.map stmt).foldl (walk ctx) w = walkStmts ctx w body := by
  induction body generalizing w with
  | nil => rfl
  | cons s rest ih => exact ih _

/-- Going over expressions is going over each of them. -/
theorem foldl_walk_exprs (ctx : Context) (w : Walk) (es : List Expr) :
    (es.map expr).foldl (walk ctx) w = walkExprs ctx w es := by
  induction es generalizing w with
  | nil => rfl
  | cons e rest ih => exact ih _

/-- Going over an expression that may be absent. -/
theorem foldl_walk_option (ctx : Context) (w : Walk) (value : Option Expr) :
    (value.toList.map expr).foldl (walk ctx) w = walkOption ctx w value := by
  cases value <;> rfl

/-- Going over routines is going over each of them. -/
theorem foldl_walk_methods (ctx : Context) (w : Walk) (methods : List Routine) :
    (methods.map method).foldl (walk ctx) w = walkRoutines ctx w methods := by
  induction methods generalizing w with
  | nil => rfl
  | cons r rest ih => exact ih _

/-- Going over the parameters and the body of a routine. -/
theorem foldl_walk_routine (ctx : Context) (w : Walk) (parameters : List Token)
    (body : List Stmt) :
    (parameters.map parameter ++ body.map stmt).foldl (walk ctx) w =
      walkStmts ctx (parameters.foldl Walk.introduce w) body := by
  rw [List.foldl_append, foldl_walk_stmts, List.foldl_map]
  rfl

/-- Going over a piece is going over its parts, with something before and behind them. -/
theorem walk_eq (ctx : Context) (w : Walk) (x : Piece) :
    x.walk ctx w =
      x.behind ctx (x.children.foldl (walk (x.contextIn ctx)) (x.before ctx w)) := by
  cases x with
  | program body => exact (foldl_walk_stmts ctx w body).symm
  | parameter name => rfl
  | method routine =>
    obtain ⟨name, parameters, body⟩ := routine
    rw [children, foldl_walk_routine]
    rfl
  | expr e =>
    cases e with
    | call id callee paren arguments =>
      exact (foldl_walk_exprs ctx (walkExpr ctx w callee) arguments).symm
    | receiver id keyword =>
      simp only [walk, behind, before, name?, walkExpr]
      cases ctx.inClass <;> rfl
    | _ => rfl
  | stmt s =>
    cases s with
    | var name initial =>
      rw [children, foldl_walk_option]
      rfl
    | block body =>
      rw [children, foldl_walk_stmts]
      rfl
    | function routine =>
      obtain ⟨name, parameters, body⟩ := routine
      rw [children, foldl_walk_routine]
      rfl
    | ret keyword value =>
      rw [children, foldl_walk_option]
      rfl
    | classDecl name methods =>
      rw [children, foldl_walk_methods]
      rfl
    | _ => rfl

/-- The scopes in which the first part of a piece stands. -/
def opened (scopes : List Scope) : Piece → List Scope
  | stmt (.var name _) => declareIn name scopes
  | stmt (.block _) => .empty :: scopes
  | stmt (.function routine) => .empty :: introduceIn routine.name scopes
  | stmt (.classDecl name _) => receiverScope :: introduceIn name scopes
  | method _ => .empty :: scopes
  | parameter name => introduceIn name scopes
  | _ => scopes

/-- The scopes behind a piece, from those behind its last part. -/
def closed (scopes : List Scope) : Piece → List Scope
  | stmt (.var name _) => completeIn name scopes
  | stmt (.block _) => scopes.tail
  | stmt (.function _) => scopes.tail
  | stmt (.classDecl _ _) => scopes.tail
  | method _ => scopes.tail
  | _ => scopes

/-- The scopes behind a piece. -/
def after (scopes : List Scope) : Piece → List Scope
  | program body => Stmt.scopesAfterAll scopes body
  | stmt s => s.scopesAfter scopes
  | method _ => scopes
  | parameter name => introduceIn name scopes
  | expr _ => scopes

/-- The scopes in which a part of a piece stands. -/
def scopesBefore (scopes : List Scope) (x : Piece) (i : Nat) : List Scope :=
  (x.children.take i).foldl after (x.opened scopes)

/-- The scopes at a position. -/
def scopesAt : List Scope → Piece → Path → List Scope
  | scopes, _, [] => scopes
  | scopes, x, i :: p => (x.children[i]?).elim scopes fun y => scopesAt (x.scopesBefore scopes i) y p

/-- What surrounds a position. -/
def contextAt : Context → Piece → Path → Context
  | ctx, _, [] => ctx
  | ctx, x, i :: p => (x.children[i]?).elim ctx fun y => contextAt (x.contextIn ctx) y p

/-- No piece changes the outer scopes. -/
@[simp] theorem after_tail (scopes : List Scope) (x : Piece) :
    (x.after scopes).tail = scopes.tail := by
  cases x with
  | program body => exact Stmt.scopesAfterAll_tail scopes body
  | stmt s => exact s.scopesAfter_tail scopes
  | method routine => rfl
  | parameter name => exact introduceIn_tail name scopes
  | expr e => rfl

/-- Pieces one after the other do not change the outer scopes. -/
theorem foldl_after_tail (scopes : List Scope) (ys : List Piece) :
    (ys.foldl after scopes).tail = scopes.tail := by
  induction ys generalizing scopes with
  | nil => rfl
  | cons y rest ih => exact (ih _).trans (after_tail scopes y)

/-- Expressions leave the scopes as they are. -/
theorem foldl_after_exprs (scopes : List Scope) {ys : List Piece}
    (h : ∀ y ∈ ys, ∃ e, y = expr e) : ys.foldl after scopes = scopes := by
  induction ys with
  | nil => rfl
  | cons y rest ih =>
    obtain ⟨⟨e, rfl⟩, hrest⟩ := List.forall_mem_cons.mp h
    exact ih hrest

/-- The scopes behind a piece come about part by part. -/
theorem after_eq (scopes : List Scope) (x : Piece) :
    x.after scopes = x.closed (x.children.foldl after (x.opened scopes)) := by
  cases x with
  | program body =>
    rw [children, List.foldl_map]
    rfl
  | method routine =>
    obtain ⟨name, parameters, body⟩ := routine
    exact (foldl_after_tail (.empty :: scopes) _).symm
  | parameter name => rfl
  | expr e =>
    refine (foldl_after_exprs scopes fun y hy => ?_).symm
    obtain ⟨inner, -, rfl⟩ := mem_children_expr.mp hy
    exact ⟨inner, rfl⟩
  | stmt s =>
    cases s with
    | var name initial => cases initial <;> rfl
    | ret keyword value => cases value <;> rfl
    | block body => exact (foldl_after_tail (.empty :: scopes) _).symm
    | function routine =>
      obtain ⟨name, parameters, body⟩ := routine
      exact (foldl_after_tail (.empty :: introduceIn name scopes) _).symm
    | classDecl name methods =>
      exact (foldl_after_tail (receiverScope :: introduceIn name scopes) _).symm
    | _ => rfl

/-- What declaring a name does to a walk. -/
theorem declare_spec (w : Walk) (name : Token) :
    (w.declare name).scopes = declareIn name w.scopes ∧ (w.declare name).hops = w.hops ∧
      ((w.declare name).errors = [] ↔
        w.errors = [] ∧ isDeclared w.scopes name.lexeme = false) := by
  obtain ⟨scopes, hops, errors⟩ := w
  cases scopes with
  | nil => exact ⟨rfl, rfl, (and_iff_left rfl).symm⟩
  | cons scope outer =>
    cases hdeclared : scope.contains name.lexeme with
    | true => simp [Walk.declare, declareIn, isDeclared, Walk.note, hdeclared]
    | false => simp [Walk.declare, declareIn, isDeclared, hdeclared]

/-- What completing a name does to a walk. -/
theorem complete_spec (w : Walk) (name : Token) :
    (w.complete name).scopes = completeIn name w.scopes ∧ (w.complete name).hops = w.hops ∧
      (w.complete name).errors = w.errors := by
  obtain ⟨scopes, hops, errors⟩ := w
  cases scopes <;> exact ⟨rfl, rfl, rfl⟩

/-- What introducing a name does to a walk. -/
theorem introduce_spec (w : Walk) (name : Token) :
    (w.introduce name).scopes = introduceIn name w.scopes ∧ (w.introduce name).hops = w.hops ∧
      ((w.introduce name).errors = [] ↔
        w.errors = [] ∧ isDeclared w.scopes name.lexeme = false) := by
  obtain ⟨hscopes, hhops, herrors⟩ := declare_spec w name
  obtain ⟨hscopes', hhops', herrors'⟩ := complete_spec (w.declare name) name
  refine ⟨hscopes'.trans (congrArg (completeIn name) hscopes), hhops'.trans hhops, ?_⟩
  rw [Walk.introduce, herrors', herrors]

/-- Whether a name of the innermost scope is incomplete in a walk. -/
theorem isPending_eq (w : Walk) (name : Token) :
    w.isPending name = isPending w.scopes name.lexeme := by
  obtain ⟨scopes, hops, errors⟩ := w
  cases scopes <;> rfl

/-- What is asked of a piece by itself: names are declared once in their scope, a `return` stands
in a routine and the receiver in a class, and a variable is not read in its own initial value. -/
def Allowed (ctx : Context) (scopes : List Scope) : Piece → Prop
  | stmt (.ret _ _) => ctx.inRoutine = true
  | expr (.receiver _ _) => ctx.inClass = true
  | expr (.var _ name) => isPending scopes name.lexeme = false
  | x => ∀ name, x.declared? = some name → isDeclared scopes name.lexeme = false

/-- A piece that declares nothing is allowed where no other rule is about it. -/
theorem allowed_of_declares_nothing {x : Piece} (h : x.declared? = none) (scopes : List Scope) :
    ∀ name, x.declared? = some name → isDeclared scopes name.lexeme = false := by
  intro name hname
  rw [h] at hname
  cases hname

/-- A violation is noted before the parts of a piece exactly if the piece is not allowed. -/
theorem errors_before (ctx : Context) (w : Walk) (x : Piece) :
    (x.before ctx w).errors = [] ↔ w.errors = [] ∧ x.Allowed ctx w.scopes := by
  have hdeclares : ∀ {x : Piece} {name : Token}, x.declared? = some name →
      (isDeclared w.scopes name.lexeme = false ↔
        ∀ name, x.declared? = some name → isDeclared w.scopes name.lexeme = false) := by
    intro x name hx
    rw [hx]
    simp
  have hnone : ∀ {x : Piece}, x.declared? = none → (w.errors = [] ↔ w.errors = [] ∧
      ∀ name, x.declared? = some name → isDeclared w.scopes name.lexeme = false) := by
    intro x hx
    exact (and_iff_left (allowed_of_declares_nothing hx w.scopes)).symm
  cases x with
  | program body => exact hnone rfl
  | method routine => exact hnone rfl
  | parameter name => exact (introduce_spec w name).2.2.trans (and_congr_right' (hdeclares rfl))
  | stmt s =>
    cases s with
    | var name initial => exact (declare_spec w name).2.2.trans (and_congr_right' (hdeclares rfl))
    | function routine =>
      exact (introduce_spec w routine.name).2.2.trans (and_congr_right' (hdeclares rfl))
    | classDecl name methods =>
      exact (introduce_spec w name).2.2.trans (and_congr_right' (hdeclares rfl))
    | ret keyword value =>
      unfold before Allowed
      cases ctx.inRoutine <;> simp [Walk.note]
    | _ => exact hnone rfl
  | expr e =>
    cases e with
    | var id name =>
      simp only [before, Allowed, isPending_eq]
      cases isPending w.scopes name.lexeme <;> simp [Walk.note]
    | receiver id keyword =>
      unfold before Allowed
      cases ctx.inClass <;> simp [Walk.note]
    | _ => exact hnone rfl

/-- What is done before the parts of a piece opens its scopes and records nothing. -/
theorem before_spec (ctx : Context) (w : Walk) (x : Piece) :
    (x.before ctx w).scopes = x.opened w.scopes ∧ (x.before ctx w).hops = w.hops := by
  have hintroduce := fun name => introduce_spec w name
  cases x with
  | program body => exact ⟨rfl, rfl⟩
  | method routine => exact ⟨rfl, rfl⟩
  | parameter name => exact ⟨(hintroduce name).1, (hintroduce name).2.1⟩
  | stmt s =>
    cases s with
    | var name initial =>
      obtain ⟨hscopes, hhops, -⟩ := declare_spec w name
      exact ⟨hscopes, hhops⟩
    | function routine =>
      obtain ⟨hscopes, hhops, -⟩ := hintroduce routine.name
      exact ⟨congrArg (List.cons (Table.empty : Scope)) hscopes, hhops⟩
    | classDecl name methods =>
      obtain ⟨hscopes, hhops, -⟩ := hintroduce name
      exact ⟨congrArg (List.cons receiverScope) hscopes, hhops⟩
    | ret keyword value =>
      simp only [before]
      split <;> exact ⟨rfl, rfl⟩
    | _ => exact ⟨rfl, rfl⟩
  | expr e =>
    cases e with
    | var id name =>
      simp only [before]
      split <;> exact ⟨rfl, rfl⟩
    | receiver id keyword =>
      simp only [before]
      split <;> exact ⟨rfl, rfl⟩
    | _ => exact ⟨rfl, rfl⟩

/-- Recording a distance changes neither the scopes nor the violations. -/
theorem bind_spec (w : Walk) (id : Nat) (name : Token) :
    (w.bind id name).scopes = w.scopes ∧ (w.bind id name).errors = w.errors ∧
      ∀ n, (w.bind id name).hops.get? n =
        if id = n then (distance? w.scopes name.lexeme).or (w.hops.get? n) else w.hops.get? n := by
  have hdistance : w.distance? name.lexeme = distance? w.scopes name.lexeme := rfl
  unfold Walk.bind
  rw [hdistance]
  cases distance? w.scopes name.lexeme with
  | none =>
    refine ⟨rfl, rfl, fun n => ?_⟩
    rw [Option.none_or, ite_self]
  | some d =>
    refine ⟨rfl, rfl, fun n => ?_⟩
    rw [Table.get?_insert, Option.some_or]

/-- What is done behind the parts of a piece closes its scopes and notes no violation. -/
theorem behind_spec (ctx : Context) (w : Walk) (x : Piece) :
    (x.behind ctx w).scopes = x.closed w.scopes ∧ (x.behind ctx w).errors = w.errors := by
  cases x with
  | program body => exact ⟨rfl, rfl⟩
  | method routine => exact ⟨rfl, rfl⟩
  | parameter name => exact ⟨rfl, rfl⟩
  | stmt s =>
    cases s with
    | var name initial =>
      obtain ⟨hscopes, -, herrors⟩ := complete_spec w name
      exact ⟨hscopes, herrors⟩
    | _ => exact ⟨rfl, rfl⟩
  | expr e =>
    simp only [behind]
    cases name? ctx e with
    | none => exact ⟨rfl, rfl⟩
    | some name =>
      obtain ⟨hscopes, herrors, -⟩ := bind_spec w e.id name
      exact ⟨hscopes, herrors⟩

/-- The distance that is recorded for an expression itself. -/
def distance (ctx : Context) (scopes : List Scope) (e : Expr) : Option Nat :=
  (name? ctx e).bind fun name => distance? scopes name.lexeme

/-- Only behind an expression a distance is recorded, and only for its own number. -/
theorem hops_behind_expr (ctx : Context) (w : Walk) (e : Expr) (n : Nat) :
    ((expr e).behind ctx w).hops.get? n =
      if e.id = n then (distance ctx w.scopes e).or (w.hops.get? n) else w.hops.get? n := by
  simp only [behind, distance]
  cases name? ctx e with
  | none =>
    rw [Option.bind_none, Option.none_or, ite_self]
    rfl
  | some name => exact (bind_spec w e.id name).2.2 n

/-- Going over pieces leads through the scopes behind each of them. -/
theorem foldl_walk_after {ys : List Piece}
    (h : ∀ y ∈ ys, ∀ ctx (w : Walk), (y.walk ctx w).scopes = y.after w.scopes) (ctx : Context)
    (w : Walk) : (ys.foldl (walk ctx) w).scopes = ys.foldl after w.scopes := by
  induction ys generalizing w with
  | nil => rfl
  | cons y rest ih =>
    obtain ⟨hy, hrest⟩ := List.forall_mem_cons.mp h
    rw [List.foldl_cons, List.foldl_cons, ih hrest, hy]

/-- Going over a piece leads to the scopes behind it. -/
theorem walk_scopes (x : Piece) : ∀ ctx w, (x.walk ctx w).scopes = x.after w.scopes := by
  induction x using induct with
  | h x ih =>
    intro ctx w
    rw [walk_eq, (behind_spec ctx _ x).1, foldl_walk_after ih, (before_spec ctx w x).1, after_eq]

/-- Going over pieces leads to the scopes behind the last one. -/
theorem foldl_walk_scopes (ctx : Context) (w : Walk) (ys : List Piece) :
    (ys.foldl (walk ctx) w).scopes = ys.foldl after w.scopes :=
  foldl_walk_after (fun y _ => y.walk_scopes) ctx w

/-- The scopes in which a part of a piece stands are those that the walk has reached there. -/
theorem walk_scopesBefore (ctx : Context) (w : Walk) (x : Piece) (i : Nat) :
    ((x.children.take i).foldl (walk (x.contextIn ctx)) (x.before ctx w)).scopes =
      x.scopesBefore w.scopes i := by
  rw [foldl_walk_scopes, (before_spec ctx w x).1]
  rfl

/-- Whether every piece inside a piece is allowed where it stands. -/
def Obeys (ctx : Context) (scopes : List Scope) (x : Piece) : Prop :=
  ∀ p y, x.at? p = some y → y.Allowed (contextAt ctx x p) (scopesAt scopes x p)

/-- A piece obeys the rules if it is allowed itself and its parts obey them. -/
theorem obeys_iff (ctx : Context) (scopes : List Scope) (x : Piece) :
    x.Obeys ctx scopes ↔ x.Allowed ctx scopes ∧
      ∀ (i : Nat) y, x.children[i]? = some y → y.Obeys (x.contextIn ctx) (x.scopesBefore scopes i) := by
  constructor
  · intro h
    refine ⟨h [] x rfl, fun i y hy p z hz => ?_⟩
    have hpart := h (i :: p) z (at?_cons.mpr ⟨y, hy, hz⟩)
    rw [contextAt, scopesAt, hy] at hpart
    exact hpart
  · rintro ⟨hx, hparts⟩ p z hz
    cases p with
    | nil =>
      cases hz
      exact hx
    | cons i p =>
      obtain ⟨y, hy, hz⟩ := at?_cons.mp hz
      rw [contextAt, scopesAt, hy]
      exact hparts i y hy p z hz

/-- Pieces one after the other are gone over without a violation if each of them is. -/
theorem foldl_walk_errors {ys : List Piece} (h : ∀ y ∈ ys, ∀ ctx (w : Walk),
      (y.walk ctx w).errors = [] ↔ w.errors = [] ∧ y.Obeys ctx w.scopes) (ctx : Context) (w : Walk) :
    (ys.foldl (walk ctx) w).errors = [] ↔ w.errors = [] ∧
      ∀ (i : Nat) y, ys[i]? = some y → y.Obeys ctx ((ys.take i).foldl after w.scopes) := by
  induction ys generalizing w with
  | nil => exact (and_iff_left fun i y hy => by cases hy).symm
  | cons first rest ih =>
    obtain ⟨hfirst, hrest⟩ := List.forall_mem_cons.mp h
    rw [List.foldl_cons, ih hrest, hfirst, walk_scopes, and_assoc]
    refine and_congr_right' ?_
    constructor
    · rintro ⟨hobeys, hothers⟩ i y hy
      cases i with
      | zero =>
        cases hy
        exact hobeys
      | succ i => exact hothers i y hy
    · exact fun hall => ⟨hall 0 first rfl, fun i y hy => hall (i + 1) y hy⟩

/-- Going over a piece finds no violation exactly if the piece obeys the rules. -/
theorem walk_errors (x : Piece) : ∀ ctx w,
    (x.walk ctx w).errors = [] ↔ w.errors = [] ∧ x.Obeys ctx w.scopes := by
  induction x using induct with
  | h x ih =>
    intro ctx w
    rw [walk_eq, (behind_spec ctx _ x).2, foldl_walk_errors ih, errors_before,
      (before_spec ctx w x).1, obeys_iff, and_assoc]
    exact Iff.rfl

end Scriptlet.Piece
