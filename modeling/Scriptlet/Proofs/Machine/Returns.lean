import Scriptlet.Machine.Run
import Scriptlet.Proofs.Binding.Walked

/-!
# Returning outside routines

A statement is executed with parts of it: the members of blocks, the branches of
conditionals and the bodies of loops. The body of a routine is no part in this sense, as it
is executed only by calls, and a call ends the return inside it. So a statement returns
only if one of its parts is a `return`. Binding notes a violation at each `return` among
the parts of a program, and hence no statement of a bound program returns.
-/

namespace Scriptlet

mutual

/-- A statement and the statements that are executed as parts of it. -/
def Stmt.parts : Stmt → List Stmt
  | .expr value => [.expr value]
  | .print value => [.print value]
  | .var name initial => [.var name initial]
  | .block body => .block body :: Stmt.partsOfAll body
  | .ifThen condition yes => .ifThen condition yes :: yes.parts
  | .ifElse condition yes no => .ifElse condition yes no :: (yes.parts ++ no.parts)
  | .loop condition body => .loop condition body :: body.parts
  | .function routine => [.function routine]
  | .ret keyword value => [.ret keyword value]
  | .classDecl name methods => [.classDecl name methods]

/-- The parts of statements one after the other. -/
def Stmt.partsOfAll : List Stmt → List Stmt
  | [] => []
  | s :: rest => s.parts ++ Stmt.partsOfAll rest

end

/-- Whether a statement is a `return`. -/
def Stmt.isReturn : Stmt → Bool
  | .ret _ _ => true
  | _ => false

/-- Whether none of some statements is a `return`. -/
def NoReturn (parts : List Stmt) : Prop := ∀ part ∈ parts, part.isReturn = false

namespace NoReturn

variable {s : Stmt} {parts others : List Stmt}

/-- A statement that is no `return`, with its parts. -/
theorem cons (h : s.isReturn = false) (hparts : NoReturn parts) : NoReturn (s :: parts) :=
  List.forall_mem_cons.mpr ⟨h, hparts⟩

/-- A statement that is no `return` and has no parts. -/
theorem single (h : s.isReturn = false) : NoReturn [s] :=
  cons h fun _ hmem => absurd hmem List.not_mem_nil

/-- Parts before others. -/
theorem append (h : NoReturn parts) (h' : NoReturn others) : NoReturn (parts ++ others) :=
  List.forall_mem_append.mpr ⟨h, h'⟩

/-- The parts before others. -/
theorem left (h : NoReturn (parts ++ others)) : NoReturn parts := (List.forall_mem_append.mp h).1

/-- The parts behind others. -/
theorem right (h : NoReturn (parts ++ others)) : NoReturn others := (List.forall_mem_append.mp h).2

/-- The parts of a statement. -/
theorem inside (h : NoReturn (s :: parts)) : NoReturn parts := (List.forall_mem_cons.mp h).2

/-- The parts of a member of a list. -/
theorem member {body : List Stmt} (h : NoReturn (Stmt.partsOfAll body)) (hs : s ∈ body) :
    NoReturn s.parts := by
  induction body with
  | nil => exact absurd hs List.not_mem_nil
  | cons first rest ih =>
    rcases List.mem_cons.mp hs with rfl | hs
    · exact h.left
    · exact ih h.right hs

end NoReturn

/-- Every statement is the first of its parts. -/
theorem Stmt.mem_parts (s : Stmt) : s ∈ s.parts := by
  cases s <;> rw [Stmt.parts] <;> exact List.mem_cons_self

mutual

/-- The parts of a part are parts. -/
theorem Stmt.parts_subset {part : Stmt} : ∀ s : Stmt, part ∈ s.parts → part.parts ⊆ s.parts
  | .expr _, h | .print _, h | .var _ _, h | .function _, h | .ret _ _, h | .classDecl _ _, h => by
    rw [List.mem_singleton.mp h]
    exact List.Subset.refl _
  | .block body, h => by
    rcases List.mem_cons.mp h with rfl | h
    · exact List.Subset.refl _
    · exact List.subset_cons_of_subset _ (Stmt.partsOfAll_subset body h)
  | .ifThen _ yes, h => by
    rcases List.mem_cons.mp h with rfl | h
    · exact List.Subset.refl _
    · exact List.subset_cons_of_subset _ (Stmt.parts_subset yes h)
  | .ifElse _ yes no, h => by
    rcases List.mem_cons.mp h with rfl | h
    · exact List.Subset.refl _
    · refine List.subset_cons_of_subset _ ?_
      rcases List.mem_append.mp h with h | h
      · exact List.subset_append_of_subset_left _ (Stmt.parts_subset yes h)
      · exact List.subset_append_of_subset_right _ (Stmt.parts_subset no h)
  | .loop _ body, h => by
    rcases List.mem_cons.mp h with rfl | h
    · exact List.Subset.refl _
    · exact List.subset_cons_of_subset _ (Stmt.parts_subset body h)

/-- The parts of a part of some statements are parts of them. -/
theorem Stmt.partsOfAll_subset {part : Stmt} :
    ∀ body : List Stmt, part ∈ Stmt.partsOfAll body → part.parts ⊆ Stmt.partsOfAll body
  | [], h => absurd h List.not_mem_nil
  | s :: rest, h => by
    rcases List.mem_append.mp h with h | h
    · exact List.subset_append_of_subset_left _ (Stmt.parts_subset s h)
    · exact List.subset_append_of_subset_right _ (Stmt.partsOfAll_subset rest h)

end

namespace Binding

/-- Outside every class nothing has to be declared, in whatever scopes. -/
theorem Context.Sees.outside (scopes : List Scope) : Context.Sees {} scopes :=
  fun hclass => by cases hclass

/-- A step that ends without a violation began without one. -/
theorem Walks.errors_nil {step : Walk → Walk} {w : Walk} {after : List Scope} {sites : List Site}
    (h : Walks step w.scopes sites after) (hnone : (step w).errors = []) : w.errors = [] := by
  obtain ⟨recorded, found, heq, -⟩ := h
  have hstep : step w = ⟨after, recorded.foldl Site.record w.hops, w.errors ++ found⟩ :=
    heq w.hops w.errors
  rw [hstep] at hnone
  exact (List.append_eq_nil_iff.mp hnone).1

mutual

/-- A walk outside routines that finds no violation began without one and met no `return`. -/
theorem noReturn_of_walkStmt : ∀ (s : Stmt) (w : Walk), (walkStmt {} w s).errors = [] →
    w.errors = [] ∧ NoReturn s.parts
  | .expr value, w, h => ⟨(walkExpr_walks (.outside _) value).errors_nil h, .single rfl⟩
  | .print value, w, h => ⟨(walkExpr_walks (.outside _) value).errors_nil h, .single rfl⟩
  | .var name initial, w, h =>
    ⟨(walkStmt_walks (.outside _) (.var name initial)).errors_nil h, .single rfl⟩
  | .block body, w, h => by
    obtain ⟨hbefore, hbody⟩ := noReturn_of_walkStmts body (w.enter .empty) h
    exact ⟨hbefore, .cons rfl hbody⟩
  | .ifThen condition yes, w, h => by
    obtain ⟨hcondition, hyes⟩ := noReturn_of_walkStmt yes _ h
    exact ⟨(walkExpr_walks (.outside _) condition).errors_nil hcondition, .cons rfl hyes⟩
  | .ifElse condition yes no, w, h => by
    obtain ⟨hmiddle, hno⟩ := noReturn_of_walkStmt no _ h
    obtain ⟨hcondition, hyes⟩ := noReturn_of_walkStmt yes _ hmiddle
    exact ⟨(walkExpr_walks (.outside _) condition).errors_nil hcondition,
      .cons rfl (hyes.append hno)⟩
  | .loop condition body, w, h => by
    obtain ⟨hcondition, hbody⟩ := noReturn_of_walkStmt body _ h
    exact ⟨(walkExpr_walks (.outside _) condition).errors_nil hcondition, .cons rfl hbody⟩
  | .function routine, w, h =>
    ⟨(walkStmt_walks (.outside _) (.function routine)).errors_nil h, .single rfl⟩
  -- The violation noted at a `return` stays noted to the end of the walk.
  | .ret keyword value, w, h => by
    have hnoted : (w.note keyword .topLevelReturn).errors = [] :=
      (walkOption_walks (.outside _) value).errors_nil h
    exact absurd (List.append_eq_nil_iff.mp hnoted).2 (List.cons_ne_nil _ [])
  | .classDecl name methods, w, h =>
    ⟨(walkStmt_walks (.outside _) (.classDecl name methods)).errors_nil h, .single rfl⟩

/-- A walk over statements outside routines that finds no violation began without one and met no
`return`. -/
theorem noReturn_of_walkStmts : ∀ (body : List Stmt) (w : Walk),
    (walkStmts {} w body).errors = [] → w.errors = [] ∧ NoReturn (Stmt.partsOfAll body)
  | [], w, h => ⟨h, fun _ hmem => absurd hmem List.not_mem_nil⟩
  | s :: rest, w, h => by
    obtain ⟨hmiddle, hrest⟩ := noReturn_of_walkStmts rest _ h
    obtain ⟨hbefore, hs⟩ := noReturn_of_walkStmt s w hmiddle
    exact ⟨hbefore, hs.append hrest⟩

end

/-- A program that is bound without violations has no `return` outside routines. -/
theorem bindProgram_noReturn {program : Program} (h : (bindProgram program).errors = []) :
    NoReturn (Stmt.partsOfAll program) :=
  (noReturn_of_walkStmts program {} h).2

end Binding

namespace Machine

/-- An action that never ends by returning. -/
def NeverReturns (action : Run Flow) : Prop :=
  ∀ m value after, action m ≠ .ok (.returned value) after

namespace NeverReturns

variable {α : Type} {action : Run Flow}

/-- An action that goes on to the next statement. -/
theorem normal : NeverReturns (Pure.pure .normal) := fun _ _ _ h => by cases h

/-- Stopping for lack of fuel. -/
theorem exhausted : NeverReturns Machine.exhausted := fun _ _ _ h => by cases h

/-- An action behind another one that does not return. -/
theorem after {first : Run α} {next : α → Run Flow} (h : ∀ a, NeverReturns (next a)) :
    NeverReturns (first >>= next) := by
  intro m value after heq
  change EStateM.bind first next m = _ at heq
  unfold EStateM.bind at heq
  split at heq
  · exact h _ _ _ _ heq
  · cases heq

/-- An action behind one that never returns, which then went on. -/
theorem behind {next : Flow → Run Flow} (h : NeverReturns action)
    (hnext : NeverReturns (next .normal)) : NeverReturns (action >>= next) := by
  intro m value after heq
  change EStateM.bind action next m = _ at heq
  unfold EStateM.bind at heq
  split at heq
  · rename_i flow middle hflow
    cases flow with
    | normal => exact hnext middle value after heq
    | returned value' => exact h m value' middle hflow
  · cases heq

/-- An action inside another frame. -/
theorem within (h : NeverReturns action) (frame : FrameId) :
    NeverReturns (Machine.within frame action) := by
  intro m value after heq
  unfold Machine.within at heq
  split at heq
  · rename_i flow inside hinside
    cases heq
    exact h _ _ _ hinside
  · cases heq

/-- Statements one after the other. -/
theorem executeAll {execute : Stmt → Run Flow} {body : List Stmt}
    (h : ∀ s ∈ body, NeverReturns (execute s)) :
    NeverReturns (Machine.executeAll execute body) := by
  induction body with
  | nil => exact normal
  | cons s rest ih =>
    obtain ⟨hs, hrest⟩ := List.forall_mem_cons.mp h
    exact hs.behind (ih hrest)

/-- A loop. -/
theorem repeatWhile {condition : Run Value} {body : Run Flow} (h : NeverReturns body) (fuel : Nat) :
    NeverReturns (Machine.repeatWhile condition body fuel) := by
  induction fuel with
  | zero => exact exhausted
  | succ fuel ih =>
    refine after fun holds => ?_
    split
    · exact h.behind ih
    · exact normal

end NeverReturns

/-- A statement without a `return` among its parts never returns. -/
theorem execute_neverReturns (fuel : Nat) {s : Stmt} (h : NoReturn s.parts) :
    NeverReturns (execute fuel s) := by
  unfold execute
  induction fuel generalizing s with
  | zero =>
    rw [executeBy]
    exact .exhausted
  | succ fuel ih =>
    cases s with
    | expr value => exact .after fun _ => .normal
    | print value => exact .after fun _ => .after fun _ => .normal
    | var name initial =>
      cases initial with
      | none => exact .after fun _ => .normal
      | some initial => exact .after fun _ => .after fun _ => .normal
    | block body =>
      exact .after fun _ => .after fun frame =>
        (NeverReturns.executeAll fun s hs => ih (h.inside.member hs)).within frame
    | ifThen condition yes =>
      refine .after fun a => ?_
      split
      · exact ih h.inside
      · exact .normal
    | ifElse condition yes no =>
      refine .after fun a => ?_
      split
      · exact ih h.inside.left
      · exact ih h.inside.right
    | loop condition body => exact .repeatWhile (ih h.inside) fuel
    | function routine => exact .after fun _ => .after fun _ => .after fun _ => .normal
    | ret keyword value => exact absurd (h _ List.mem_cons_self) nofun
    | classDecl name methods => exact .after fun _ => .after fun _ => .after fun _ => .normal

end Machine

end Scriptlet
