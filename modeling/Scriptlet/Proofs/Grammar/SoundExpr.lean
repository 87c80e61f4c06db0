import Scriptlet.Grammar.Stmt
import Scriptlet.Proofs.Grammar.Obeys
import Scriptlet.Proofs.Grammar.Reading

/-!
# What the readers have read

Each reader, when it notes no violation, has passed tokens that say its value.
The readers of nested parts are parameters, here as in their definitions, and
may have one unit of fuel less, because they are called behind a token.
-/

namespace Scriptlet.Grammar

/-- Tokens that say a value as a part, whatever follows them. -/
abbrev Part.Says {α : Type} (p : Part) (wrap : α → Node) : Meaning α :=
  fun n used _ v m => Reads p n used (wrap v) m

variable {fuel : Nat} {nested : Reader Expr}

/-- A constant, a name, the receiver or an expression in parentheses. -/
theorem primary_obeys (h : Obeys fuel 1 nested (Part.Says .expression .expr)) :
    Obeys (fuel + 1) 1 (primary nested) (Part.Says .primary .expr) := by
  refine .acceptMap (fun value => .nodeLast ?constant) (.accept (fun keyword => .nodeLast ?receiver)
    (.accept (fun name => .nodeLast ?name) (.accept (fun left => .bind h (by omega) fun inner =>
      .expect fun right => .nodeLast ?group) .missing)))
  case constant => exact fun n rest t ht => .constant ht
  case receiver => exact fun n rest ht _ => .receiver ht
  case name => exact fun n rest ht _ _ => .name ht
  case group =>
    exact fun m rest hright n used hinner hleft _ _ _ => .group hleft hinner hright

/-- Arguments behind `count` earlier ones; with at most 255 of them nothing is noted. -/
theorem arguments_obeys (h : Obeys fuel 1 nested (Part.Says .expression .expr))
    (steps count : Nat) :
    Obeys (min steps fuel) 1 (arguments nested steps count)
      (fun n used _ es m => Reads .arguments n used (.exprs es) m ∧ count + es.length ≤ 255) := by
  induction steps generalizing count with
  | zero => exact .exhausted
  | succ steps ih =>
    rw [arguments]
    by_cases hmany : maxCount ≤ count
    · rw [if_pos hmany]
      exact .noted (fun c => ⟨c.here, rfl⟩) (.bind h (by omega) fun first => .accept
        (fun comma => .bind (ih (count + 1)) (by omega) fun others => .pure (by intros; trivial))
        (.pure (by intros; trivial)))
    · rw [if_neg hmany]
      refine .bind h (by omega) fun first => .accept
        (fun comma => .bind (ih (count + 1)) (by omega) fun others => .pure ?more) (.pure ?last)
      case more =>
        rintro k rest n us ⟨hothers, hcount⟩ hcomma m ts hfirst
        rw [List.append_nil]
        refine ⟨.argumentsMore hfirst hcomma hothers, ?_⟩
        rw [List.length_cons]
        omega
      case last =>
        rintro n rest - m ts hfirst
        rw [List.append_nil]
        exact ⟨.argumentsLast hfirst, Nat.lt_of_not_le hmany⟩

/-- Calls and properties behind an operand. -/
theorem postfixes_obeys (h : Obeys fuel 1 nested (Part.Says .expression .expr)) (steps : Nat)
    (hsteps : steps ≤ fuel + 1) (operand : Expr) :
    Obeys steps 0 (postfixes nested steps operand)
      (fun m used _ e k => ∀ n ts, Reads .call n ts (.expr operand) m →
        Reads .call n (ts ++ used) (.expr e) k) := by
  induction steps generalizing operand with
  | zero => exact .exhausted
  | succ steps ih =>
    have hgiven : Obeys (min (steps + 1) fuel) 0 (callArguments nested (steps + 1))
        (fun n used _ es m => (used = [] ∧ es = [] ∧ m = n) ∨
          (Reads .arguments n used (.exprs es) m ∧ es.length ≤ 255)) := by
      refine .nextIs fun closes => ?_
      cases closes with
      | true => exact .pure fun n rest _ => Or.inl ⟨rfl, rfl, rfl⟩
      | false =>
        refine (arguments_obeys h (steps + 1) 0).mono (Nat.le_refl _) (Nat.zero_le _) ?_
        rintro n used rest es m ⟨hreads, hfew⟩ -
        exact Or.inr ⟨hreads, by omega⟩
    refine .accept (fun left => .bind hgiven (by omega) fun given => .expect fun right =>
      .node fun call => ?call) (.accept (fun dot => .expect fun name => .node fun property => ?get)
        (.pure ?done))
    case call =>
      refine (ih (by omega) call).mono (by omega) (by omega) ?_
      rintro k more rest e j hcall m ⟨rfl, rfl⟩ hright n us hus hleft b ts hts
      rcases hus with ⟨rfl, rfl, rfl⟩ | ⟨hgiven, hfew⟩
      · have hread := hcall b _ (.callEmpty hts hleft hright)
        rwa [List.append_assoc] at hread
      · have hread := hcall b _ (.callWith hts hleft hgiven hfew hright)
        rwa [List.append_assoc, List.cons_append, List.append_assoc] at hread
    case get =>
      refine (ih (by omega) property).mono (by omega) (by omega) ?_
      rintro k more rest e j hget m ⟨rfl, rfl⟩ hname hdot - b ts hts
      have hread := hget b _ (.callGet hts hdot hname)
      rwa [List.append_assoc] at hread
    case done =>
      intro n rest _ _ b ts hts
      rwa [List.append_nil]

/-- An operand with its calls and properties. -/
theorem call_obeys (h : Obeys fuel 1 nested (Part.Says .expression .expr)) :
    Obeys (fuel + 1) 1 (call nested (fuel + 1)) (Part.Says .call .expr) := by
  refine .bind (primary_obeys h) (by omega) fun operand =>
    (postfixes_obeys h (fuel + 1) (Nat.le_refl _) operand).mono (by omega) (Nat.le_refl _) ?_
  exact fun m more rest e k hcall n used hoperand => hcall n used (.callPrimary hoperand)

/-- Signs before an operand. -/
theorem signed_obeys {operand : Reader Expr} (h : Obeys fuel 1 operand (Part.Says .call .expr))
    (steps : Nat) (hsteps : steps ≤ fuel) :
    Obeys steps 1 (signed operand steps) (Part.Says .unary .expr) := by
  induction steps with
  | zero => exact .exhausted
  | succ steps ih =>
    refine .acceptAny (fun operator => .bind (ih (by omega)) (by omega) fun inner => .nodeLast ?sign)
      (h.mono hsteps (Nat.le_refl _) ?plain)
    case sign =>
      intro m rest n used hinner hoperator
      rw [List.append_nil]
      exact .unarySign hoperator hinner
    case plain => exact fun n used rest e m hcall _ => .unaryCall hcall

/-- Operators of a level and operands behind a first operand. -/
theorem chainFrom_obeys (l : Level) {operand : Reader Expr}
    (h : Obeys fuel 1 operand (Part.Says l.operand .expr)) (steps : Nat) (hsteps : steps ≤ fuel + 1)
    (left : Expr) :
    Obeys steps 0 (chainFrom l.join l.operators operand steps left)
      (fun m used _ e k => ∀ n ts, Reads (.level l) n ts (.expr left) m →
        Reads (.level l) n (ts ++ used) (.expr e) k) := by
  induction steps generalizing left with
  | zero => exact .exhausted
  | succ steps ih =>
    refine .acceptAny (fun operator => .bind h (by omega) fun right => .node fun joined => ?join)
      (.pure ?done)
    case join =>
      refine (ih (by omega) joined).mono (by omega) (Nat.zero_le _) ?_
      rintro k more rest e j hmore m ⟨rfl, rfl⟩ n us hright hoperator b ts hleft
      have hread := hmore b _ (.levelJoin l hleft hoperator hright)
      rwa [List.append_assoc, List.cons_append] at hread
    case done =>
      intro n rest _ b ts hleft
      rwa [List.append_nil]

/-- Operands joined by the operators of a level. -/
theorem chain_obeys (l : Level) {operand : Reader Expr}
    (h : Obeys (fuel + 1) 1 operand (Part.Says l.operand .expr)) :
    Obeys (fuel + 1) 1 (chain l.join l.operators operand (fuel + 1)) (Part.Says (.level l) .expr) := by
  refine .bind h (by omega) fun first => (chainFrom_obeys l h (fuel + 1) (by omega) first).mono
    (by omega) (Nat.le_refl _) ?_
  exact fun m more rest e k hmore n used hfirst => hmore n used (.levelOperand l hfirst)

/-- All levels of operators. -/
theorem disjunction_obeys (h : Obeys fuel 1 nested (Part.Says .expression .expr)) :
    Obeys (fuel + 1) 1 (disjunction nested (fuel + 1)) (Part.Says (.level .disjunction) .expr) := by
  have hsigned := signed_obeys (call_obeys h) (fuel + 1) (Nat.le_refl _)
  exact chain_obeys .disjunction (chain_obeys .conjunction (chain_obeys .equality
    (chain_obeys .comparison (chain_obeys .term (chain_obeys .factor hsigned)))))

/-- Whether an expression may stand before an equals sign. -/
def IsTarget : Expr → Prop
  | .var _ _ => True
  | .get _ _ _ => True
  | _ => False

/-- No level makes a target, so a target read at a level is an operand of it. -/
theorem Reads.operand_of_target {l : Level} {n m : Nat} {ts : List Token} {e : Expr}
    (h : Reads (.level l) n ts (.expr e) m) (target : IsTarget e) :
    Reads l.operand n ts (.expr e) m := by
  cases h with
  | levelOperand _ operand => exact operand
  | levelJoin _ left hoperator right => cases l <;> exact target.elim

/-- A target read with all levels of operators is a call. -/
theorem Reads.call_of_target {n m : Nat} {ts : List Token} {e : Expr}
    (h : Reads (.level .disjunction) n ts (.expr e) m) (target : IsTarget e) :
    Reads .call n ts (.expr e) m := by
  have hunary : Reads .unary n ts (.expr e) m :=
    (((((h.operand_of_target target).operand_of_target target).operand_of_target
      target).operand_of_target target).operand_of_target target).operand_of_target target
  cases hunary with
  | unaryCall operand => exact operand
  | unarySign hoperator operand => exact target.elim

/-- An assignment, or what stands without one. -/
theorem assignment_obeys (h : Obeys fuel 1 nested (Part.Says .expression .expr)) :
    Obeys (fuel + 1) 1 (assignment nested (fuel + 1)) (Part.Says .assignment .expr) := by
  refine .bind (disjunction_obeys h) (by omega) fun target => .accept
    (fun sign => .bind h (by omega) fun value => ?_) (.pure ?plain)
  case plain =>
    intro m rest _ n used htarget
    rw [List.append_nil]
    exact .assignmentPlain htarget
  split
  case h_1 id name =>
    refine .nodeLast ?_
    intro k rest m us hvalue hsign n ts htarget
    rw [List.append_nil]
    cases htarget.call_of_target trivial with
    | callPrimary operand =>
      cases operand with
      | name hname =>
        cases hvalue with
        | expression hvalue => exact .assignmentVar hname hsign hvalue
  case h_2 id object name =>
    refine .nodeLast ?_
    intro k rest m us hvalue hsign n ts htarget
    rw [List.append_nil]
    cases htarget.call_of_target trivial with
    | callPrimary operand => cases operand
    | callGet hobject hdot hname =>
      cases hvalue with
      | expression hvalue =>
        rw [List.append_assoc]
        exact .assignmentSet hobject hdot hname hsign hvalue
  case h_3 =>
    exact .noted (fun c => ⟨sign, rfl⟩) (.pure fun _ _ => trivial)

/-- An expression. -/
theorem expression_obeys (fuel : Nat) :
    Obeys fuel 1 (expression fuel) (Part.Says .expression .expr) := by
  induction fuel with
  | zero => exact .exhausted
  | succ fuel ih =>
    exact (assignment_obeys ih).mono (Nat.le_refl _) (Nat.le_refl _)
      fun _ _ _ _ _ hreads => .expression hreads

end Scriptlet.Grammar
