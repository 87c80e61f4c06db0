import Scriptlet.Proofs.Grammar.Viable

/-!
# Expressions can be read on

The shortest expression is `nil`, and every loop over operators, signs, calls and
arguments may end before what may follow an expression. The readers of nested
expressions are parameters here too, with one unit of fuel less.
-/

namespace Scriptlet.Grammar

/-- What may follow an expression: nothing with which it could go on. -/
abbrev EndsExpr : List Token → Prop := Stops exprGoesOn

/-- The shortest expression. -/
abbrev shortest : List Token := [sample .kwNil]

variable {fuel : Nat} {nested operand : Reader Expr} {follow : List Token → Prop}

/-- A constant, a name, the receiver or an expression in parentheses. -/
theorem primary_viable (h : Viable fuel 1 shortest EndsExpr nested) :
    Viable (fuel + 1) 1 shortest follow (primary nested) := by
  have hgroup : Viable fuel 1 [sample .kwNil, sample .rightParen] follow (do
      let inner ← nested
      let _ ← expect .rightParen .groupClose
      node (.group · inner)) :=
    .closed h (Nat.le_refl _) (by decide) (fun _ => .cons (by decide)) fun _ _ => .node _
  have hconstant : constant? (sample .kwNil) = some .nil := rfl
  exact .acceptFirst hconstant (by decide) (fun _ value => .node _)
    (.acceptFirst (fun _ => .node _) (.acceptFirst (fun _ => .node _)
      (.acceptFirst (fun _ => hgroup) (.missing _))))

/-- Arguments separated by commas, up to a closing parenthesis. -/
theorem arguments_viable (h : Viable fuel 1 shortest EndsExpr nested) (steps count : Nat) :
    Viable (min steps fuel) 1 shortest (Closes .rightParen) (arguments nested steps count) := by
  induction steps generalizing count with
  | zero =>
    rw [Nat.zero_min]
    exact .exhausted
  | succ steps ih =>
    rw [arguments]
    exact .noteIf (.bind h
      (fun _ => .acceptLast (fun _ => (ih (count + 1)).andPure) (.pure _)
        (fun _ hrest => hrest.stops (by decide)) (by omega))
      rfl (by omega) (Nat.le_refl 1) (fun _ hrest => hrest.stops (by decide))
      fun _ _ hrest => hrest.stops (by decide))

/-- The arguments of a call, possibly none, up to the closing parenthesis. -/
theorem callArguments_viable (h : Viable fuel 1 shortest EndsExpr nested) (steps : Nat) :
    Viable (min steps fuel) 0 [] (Closes .rightParen) (callArguments nested steps) :=
  .stoppingAt (.pure []) (arguments_viable h steps 0).toExtends

/-- Calls and properties behind an operand. -/
theorem postfixes_viable (h : Viable fuel 1 shortest EndsExpr nested) (steps : Nat)
    (hsteps : steps ≤ fuel + 1) (operand : Expr) :
    Viable steps 0 [] EndsExpr (postfixes nested steps operand) := by
  induction steps generalizing operand with
  | zero => exact .exhausted
  | succ steps ih =>
    have hloop : ∀ make : Nat → Expr, Viable steps 0 [] EndsExpr
        (node make >>= fun operand => postfixes nested steps operand) :=
      fun make => .after (.node make) fun operand => ih (by omega) operand
    have hcall : Viable steps 1 [sample .rightParen] EndsExpr (do
        let given ← callArguments nested (steps + 1)
        let paren ← expect .rightParen .argumentsClose
        let call ← node (.call · operand paren given)
        postfixes nested steps call) :=
      .closed (callArguments_viable h (steps + 1)) (by omega) (by decide) (fun _ => .cons _ rfl)
        fun given paren => hloop (.call · operand paren given)
    exact .acceptLast (fun _ => hcall)
      (.acceptLast (fun _ => .expect (by decide) fun name => hloop (.get · operand name))
        (.pure operand) (fun _ hrest => hrest.mono (by decide)) (Nat.le_refl _))
      (fun _ hrest => hrest.mono (by decide)) (Nat.le_refl _)

/-- An operand with its calls and properties. -/
theorem call_viable (h : Viable fuel 1 shortest EndsExpr nested) :
    Viable (fuel + 1) 1 shortest EndsExpr (call nested (fuel + 1)) :=
  .behind (primary_viable h) (postfixes_viable h (fuel + 1) (Nat.le_refl _)) rfl (Nat.le_refl _)

/-- Signs before an operand. -/
theorem signed_viable (h : Viable fuel 1 shortest EndsExpr operand) (steps : Nat)
    (hsteps : steps ≤ fuel) : Viable steps 1 shortest EndsExpr (signed operand steps) := by
  induction steps with
  | zero => exact .exhausted
  | succ steps ih =>
    have hinner : ∀ operator, Viable steps 1 shortest EndsExpr (do
        let inner ← signed operand steps
        node (.unary · operator inner)) := fun operator =>
      .andThen (ih (by omega)) (fun inner => .node _) (Nat.le_refl _)
    exact .accept hinner (h.mono hsteps (Nat.le_refl 1) fun _ hrest => hrest) (by decide)
      (Nat.le_refl _)

/-- Operators and operands behind a first operand. -/
theorem chainFrom_viable (make : Nat → Expr → Token → Expr → Expr) {operators : List Kind}
    (hoperators : ∀ kind ∈ operators, kind ∈ exprGoesOn)
    (h : Viable fuel 1 shortest EndsExpr operand) (steps : Nat) (hsteps : steps ≤ fuel + 1)
    (left : Expr) : Viable steps 0 [] EndsExpr (chainFrom make operators operand steps left) := by
  induction steps generalizing left with
  | zero => exact .exhausted
  | succ steps ih =>
    have hloop : ∀ operator, Viable steps 1 shortest EndsExpr (do
        let right ← operand
        let joined ← node (make · left operator right)
        chainFrom make operators operand steps joined) := fun operator =>
      .andThen h (fun right => .after (.node _) fun joined => ih (by omega) joined) (by omega)
    exact .acceptLast hloop (.pure left) (fun _ hrest => hrest.mono hoperators) (Nat.le_refl _)

/-- Operands joined by operators of one level. -/
theorem chain_viable {make : Nat → Expr → Token → Expr → Expr} {operators : List Kind}
    (hoperators : ∀ kind ∈ operators, kind ∈ exprGoesOn)
    (h : Viable (fuel + 1) 1 shortest EndsExpr operand) :
    Viable (fuel + 1) 1 shortest EndsExpr (chain make operators operand (fuel + 1)) :=
  .andThen h (chainFrom_viable make hoperators h (fuel + 1) (by omega)) (Nat.le_refl _)

/-- All levels of operators. -/
theorem disjunction_viable (h : Viable fuel 1 shortest EndsExpr nested) :
    Viable (fuel + 1) 1 shortest EndsExpr (disjunction nested (fuel + 1)) := by
  have hsigned := signed_viable (call_viable h) (fuel + 1) (Nat.le_refl _)
  have hcomparison : Viable (fuel + 1) 1 shortest EndsExpr (comparison nested (fuel + 1)) :=
    chain_viable (by decide) (chain_viable (by decide) (chain_viable (by decide) hsigned))
  have hequality : Viable (fuel + 1) 1 shortest EndsExpr (equality nested (fuel + 1)) :=
    chain_viable (by decide) hcomparison
  exact chain_viable (by decide) (chain_viable (by decide) hequality)

/-- An assignment, or what stands without one. -/
theorem assignment_viable (h : Viable fuel 1 shortest EndsExpr nested) :
    Viable (fuel + 1) 1 shortest EndsExpr (assignment nested (fuel + 1)) := by
  refine .andThen (disjunction_viable h) (fun target => .acceptLast
      (fun sign => (.andThen h (fun value => (?_ : Viable fuel 0 [] EndsExpr _)) (Nat.le_refl _) :
        Viable fuel 1 shortest EndsExpr _))
      (.pure target) (fun _ hrest => hrest.mono (by decide)) (Nat.le_refl _)) (Nat.le_refl _)
  split
  · exact .node _
  · exact .node _
  · exact .after (.noteAt sign .invalidTarget) fun _ => .pure target

/-- An expression. -/
theorem expression_viable (fuel : Nat) : Viable fuel 1 shortest EndsExpr (expression fuel) := by
  induction fuel with
  | zero => exact .exhausted
  | succ fuel ih => exact assignment_viable ih

end Scriptlet.Grammar
