import Scriptlet.Binding

/-!
# The places that binding looks at

Binding a program comes down to a list of places in source order: the uses and
the declarations of names, and the branches of conditionals and loops, each
with the scopes that are open there. The list is read off the tree alone. The
walk over a program records for the uses in the list how far out their names
are declared, and it finds no violation only if every place is legal.
-/

namespace Scriptlet

/-- Whether a statement may leave a name behind in the scope in which it stands. -/
def Stmt.declares : Stmt → Bool
  | .var _ _ => true
  | .function _ => true
  | .classDecl _ _ => true
  | .ifThen _ yes => yes.declares
  | .ifElse _ yes no => yes.declares || no.declares
  | .loop _ body => body.declares
  | .expr _ => false
  | .print _ => false
  | .block _ => false
  | .ret _ _ => false

/-- The name that a statement declares itself. What stands in its branches declares for itself. -/
def Stmt.declared? : Stmt → Option Token
  | .var name _ => some name
  | .function routine => some routine.name
  | .classDecl name _ => some name
  | .expr _ => none
  | .print _ => none
  | .block _ => none
  | .ifThen _ _ => none
  | .ifElse _ _ _ => none
  | .loop _ _ => none
  | .ret _ _ => none

namespace Binding

/-- How an expression uses a name. -/
inductive Use where
  | read
  /-- The name is that of the receiver. -/
  | receiver
  | write
deriving DecidableEq, Repr

/-- What stands at a place. -/
inductive Act where
  /-- The expression with this number uses a name. -/
  | use (id : Nat) (name : Token) (how : Use)
  | declare (name : Token)
  /-- A statement that may be skipped or repeated. -/
  | branch (s : Stmt)

/-- A place in a program. -/
structure Site where
  /-- The scopes that are open there, the innermost first. -/
  scopes : List Scope
  /-- What stands there. -/
  act : Act

/-- How many scopes out a name is declared. -/
def distance? (scopes : List Scope) (name : String) : Option Nat :=
  scopes.findIdx? (·.contains name)

/-- Whether the innermost scope declares a name. -/
def isDeclared : List Scope → String → Bool
  | [], _ => false
  | scope :: _, name => scope.contains name

/-- Whether the innermost scope declares a name whose initial value is not complete. -/
def isPending : List Scope → String → Bool
  | [], _ => false
  | scope :: _, name => scope.get? name == some false

/-- The scopes behind the declaration of a name whose initial value is still to come. -/
def declareIn (name : Token) : List Scope → List Scope
  | [] => []
  | scope :: outer =>
    if scope.contains name.lexeme then scope :: outer
    else scope.insert name.lexeme false :: outer

/-- The scopes behind the initial value of a name. -/
def completeIn (name : Token) : List Scope → List Scope
  | [] => []
  | scope :: outer => scope.insert name.lexeme true :: outer

/-- The scopes behind the declaration of a name that needs no initial value. -/
def introduceIn (name : Token) (scopes : List Scope) : List Scope :=
  completeIn name (declareIn name scopes)

/-- The scopes in which the body of a routine stands. -/
def bodyScopes (parameters : List Token) (scopes : List Scope) : List Scope :=
  parameters.foldl (fun scopes name => introduceIn name scopes) (.empty :: scopes)

/-- The scope around the methods of a class. -/
def receiverScope : Scope := Table.empty.insert receiverName true

/-- The declarations of names one after the other. -/
def declarations : List Scope → List Token → List Site
  | _, [] => []
  | scopes, name :: rest => ⟨scopes, .declare name⟩ :: declarations (introduceIn name scopes) rest

end Binding

open Binding

mutual

/-- The places in an expression. -/
def Expr.sites (scopes : List Scope) : Expr → List Site
  | .literal _ _ => []
  | .unary _ _ operand => operand.sites scopes
  | .binary _ left _ right => left.sites scopes ++ right.sites scopes
  | .logical _ left _ right => left.sites scopes ++ right.sites scopes
  | .group _ inner => inner.sites scopes
  | .var id name => [⟨scopes, .use id name .read⟩]
  | .receiver id keyword => [⟨scopes, .use id keyword .receiver⟩]
  | .assign id name value => value.sites scopes ++ [⟨scopes, .use id name .write⟩]
  | .call _ callee _ arguments => callee.sites scopes ++ Expr.sitesOfAll scopes arguments
  | .get _ object _ => object.sites scopes
  | .set _ object _ value => value.sites scopes ++ object.sites scopes

/-- The places in expressions. -/
def Expr.sitesOfAll (scopes : List Scope) : List Expr → List Site
  | [] => []
  | e :: rest => e.sites scopes ++ Expr.sitesOfAll scopes rest

end

/-- The places in an expression that may be absent. -/
def Expr.sitesOfOption (scopes : List Scope) : Option Expr → List Site
  | none => []
  | some e => e.sites scopes

/-- The scopes behind a statement. -/
def Stmt.scopesAfter (scopes : List Scope) : Stmt → List Scope
  | .var name _ => introduceIn name scopes
  | .function routine => introduceIn routine.name scopes
  | .classDecl name _ => introduceIn name scopes
  | .ifThen _ yes => yes.scopesAfter scopes
  | .ifElse _ yes no => no.scopesAfter (yes.scopesAfter scopes)
  | .loop _ body => body.scopesAfter scopes
  | .expr _ => scopes
  | .print _ => scopes
  | .block _ => scopes
  | .ret _ _ => scopes

/-- The scopes behind statements one after the other. -/
def Stmt.scopesAfterAll (scopes : List Scope) (body : List Stmt) : List Scope :=
  body.foldl Stmt.scopesAfter scopes

/-- Declaring a name whose initial value is to come leaves the outer scopes alone. -/
@[simp] theorem Binding.declareIn_tail (name : Token) (scopes : List Scope) :
    (declareIn name scopes).tail = scopes.tail := by
  unfold declareIn
  cases scopes with
  | nil => rfl
  | cons scope outer =>
    dsimp only
    split <;> rfl

/-- Declaring a name leaves the outer scopes alone. -/
@[simp] theorem Binding.introduceIn_tail (name : Token) (scopes : List Scope) :
    (introduceIn name scopes).tail = scopes.tail := by
  rw [← declareIn_tail name scopes]
  unfold introduceIn
  cases declareIn name scopes <;> rfl

/-- Declaring parameters leaves the outer scopes alone. -/
@[simp] theorem Binding.bodyScopes_tail (parameters : List Token) (scopes : List Scope) :
    (bodyScopes parameters scopes).tail = scopes := by
  have htail : ∀ inside : List Scope,
      (parameters.foldl (fun scopes name => introduceIn name scopes) inside).tail = inside.tail := by
    induction parameters with
    | nil => exact fun _ => rfl
    | cons name rest ih =>
      intro inside
      rw [List.foldl_cons, ih, introduceIn_tail]
  exact htail _

/-- A statement leaves the outer scopes alone. -/
@[simp] theorem Stmt.scopesAfter_tail (scopes : List Scope) :
    ∀ s : Stmt, (s.scopesAfter scopes).tail = scopes.tail
  | .var name _ => introduceIn_tail name scopes
  | .function routine => introduceIn_tail routine.name scopes
  | .classDecl name _ => introduceIn_tail name scopes
  | .ifThen _ yes => yes.scopesAfter_tail scopes
  | .ifElse _ yes no =>
    (no.scopesAfter_tail (yes.scopesAfter scopes)).trans (yes.scopesAfter_tail scopes)
  | .loop _ body => body.scopesAfter_tail scopes
  | .expr _ => rfl
  | .print _ => rfl
  | .block _ => rfl
  | .ret _ _ => rfl

/-- Statements leave the outer scopes alone. -/
@[simp] theorem Stmt.scopesAfterAll_tail (scopes : List Scope) (body : List Stmt) :
    (Stmt.scopesAfterAll scopes body).tail = scopes.tail := by
  induction body generalizing scopes with
  | nil => rfl
  | cons s rest ih => exact (ih (s.scopesAfter scopes)).trans (s.scopesAfter_tail scopes)

/-- At the top level a statement opens no scope. -/
@[simp] theorem Stmt.scopesAfter_nil : ∀ s : Stmt, s.scopesAfter [] = []
  | .var _ _ => rfl
  | .function _ => rfl
  | .classDecl _ _ => rfl
  | .ifThen _ yes => yes.scopesAfter_nil
  | .ifElse _ yes no =>
    (congrArg no.scopesAfter yes.scopesAfter_nil).trans no.scopesAfter_nil
  | .loop _ body => body.scopesAfter_nil
  | .expr _ => rfl
  | .print _ => rfl
  | .block _ => rfl
  | .ret _ _ => rfl

/-- Where statements declare no name, the scopes behind them are the same. -/
theorem Stmt.scopesAfter_of_not_declares (scopes : List Scope) :
    ∀ s : Stmt, s.declares = false → s.scopesAfter scopes = scopes
  | .ifThen _ yes, h => yes.scopesAfter_of_not_declares scopes h
  | .ifElse _ yes no, h => by
    obtain ⟨hyes, hno⟩ := Bool.or_eq_false_iff.mp h
    exact (congrArg no.scopesAfter (yes.scopesAfter_of_not_declares scopes hyes)).trans
      (no.scopesAfter_of_not_declares scopes hno)
  | .loop _ body, h => body.scopesAfter_of_not_declares scopes h
  | .expr _, _ => rfl
  | .print _, _ => rfl
  | .block _, _ => rfl
  | .ret _ _, _ => rfl

mutual

/-- The places in a statement. -/
def Stmt.sites (scopes : List Scope) : Stmt → List Site
  | .expr value => value.sites scopes
  | .print value => value.sites scopes
  | .var name initial =>
    ⟨scopes, .declare name⟩ :: Expr.sitesOfOption (declareIn name scopes) initial
  | .block body => Stmt.sitesOfAll (.empty :: scopes) body
  | .ifThen condition yes =>
    condition.sites scopes ++ ⟨scopes, .branch yes⟩ :: yes.sites scopes
  | .ifElse condition yes no =>
    condition.sites scopes ++ ⟨scopes, .branch yes⟩ :: (yes.sites scopes
      ++ ⟨yes.scopesAfter scopes, .branch no⟩ :: no.sites (yes.scopesAfter scopes))
  | .loop condition body =>
    condition.sites scopes ++ ⟨scopes, .branch body⟩ :: body.sites scopes
  | .function routine =>
    ⟨scopes, .declare routine.name⟩ :: routine.sites (introduceIn routine.name scopes)
  | .ret _ value => Expr.sitesOfOption scopes value
  | .classDecl name methods =>
    ⟨scopes, .declare name⟩ :: Routine.sitesOfAll (receiverScope :: introduceIn name scopes) methods

/-- The places in statements one after the other. -/
def Stmt.sitesOfAll (scopes : List Scope) : List Stmt → List Site
  | [] => []
  | s :: rest => s.sites scopes ++ Stmt.sitesOfAll (s.scopesAfter scopes) rest

/-- The places in a routine behind its name. -/
def Routine.sites (scopes : List Scope) : Routine → List Site
  | .mk _ parameters body =>
    declarations (.empty :: scopes) parameters
      ++ Stmt.sitesOfAll (bodyScopes parameters scopes) body

/-- The places in routines. -/
def Routine.sitesOfAll (scopes : List Scope) : List Routine → List Site
  | [] => []
  | r :: rest => r.sites scopes ++ Routine.sitesOfAll scopes rest

end

/-- The places in a routine are among those in all of them. -/
theorem Routine.mem_sitesOfAll {scopes : List Scope} {r : Routine} {routines : List Routine}
    {site : Site} (hr : r ∈ routines) (hsite : site ∈ r.sites scopes) :
    site ∈ Routine.sitesOfAll scopes routines := by
  induction routines with
  | nil => exact absurd hr List.not_mem_nil
  | cons first rest ih =>
    rcases List.mem_cons.mp hr with rfl | hrest
    · exact List.mem_append_left _ hsite
    · exact List.mem_append_right _ (ih hrest)

/-- The places in a program. -/
def Program.sites (program : Program) : List Site := Stmt.sitesOfAll [] program

end Scriptlet
