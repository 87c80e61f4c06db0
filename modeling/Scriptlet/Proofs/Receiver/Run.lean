import Scriptlet.Proofs.Receiver.Faithful

/-!
# Whole programs that read the receiver

By induction on the fuel every expression and every statement reads the receiver as it
should, at every place where a tidy machine stands, and so does every program at the top
level.
-/

namespace Scriptlet.Receiver

open Binding Machine

variable {root m : Machine} {seen : List Site} {scopes : List Scope} {k? : Option Method}
  {id : Nat} {name : Token} {fuel : Nat} (alarm : Stop)

/-- A name other than the receiver is read. -/
theorem Stands.readOther (h : Stands root seen scopes k? m) (hname : name.lexeme ≠ receiverName) :
    Faithful root seen (readName id name) ((watching root seen alarm).read id name) m := by
  refine .still h.tidy (if_pos fun heq => absurd heq hname) ?_
  unfold readName
  split <;> rfl

/-- The receiver is read. -/
theorem Stands.readReceiver (h : Stands root seen scopes k? m)
    (hsite : ⟨scopes, .use id name .receiver⟩ ∈ placesIn seen k?) :
    Faithful root seen (readName id name) ((watching root seen alarm).read id name) m := by
  refine .still h.tidy (if_pos fun _ => h.reads hsite) ?_
  unfold readName
  split <;> rfl

/-- One unit of fuel more for expressions. -/
theorem evaluates_succ
    (hevaluates : Evaluates root seen (evaluateBy .recorded fuel)
      (evaluateBy (watching root seen alarm) fuel))
    (hexecutes : Executes root seen (executeBy .recorded fuel)
      (executeBy (watching root seen alarm) fuel)) :
    Evaluates root seen (evaluateBy .recorded (fuel + 1))
      (evaluateBy (watching root seen alarm) (fuel + 1)) := by
  intro scopes k? e m h hsites
  cases e with
  | literal id value => exact h.return _
  | group id inner => exact hevaluates scopes k? inner m h hsites
  | unary id operator operand =>
    exact h.andThen (hevaluates scopes k? operand m h hsites) fun value after hafter =>
      .ofExcept hafter.tidy (applyUnary operator value)
  | binary id left operator right =>
    obtain ⟨hleft, hright⟩ := List.append_subset.mp hsites
    refine h.andThen (hevaluates scopes k? left m h hleft) fun a middle hmiddle => ?_
    exact hmiddle.andThen (hevaluates scopes k? right middle hmiddle hright) fun b after hafter =>
      .ofExcept hafter.tidy (applyBinary operator a b)
  | logical id left operator right =>
    obtain ⟨hleft, hright⟩ := List.append_subset.mp hsites
    refine h.andThen (hevaluates scopes k? left m h hleft) fun a after hafter => ?_
    cases decides operator a with
    | true => exact hafter.return a
    | false => exact hevaluates scopes k? right after hafter hright
  | var id name =>
    exact h.readOther alarm (h.settled (hsites List.mem_cons_self)).shaped
  | receiver id keyword => exact h.readReceiver alarm (hsites List.mem_cons_self)
  | assign id name value =>
    obtain ⟨hvalue, hwrite⟩ := List.append_subset.mp hsites
    have hname : name.lexeme ≠ receiverName := (h.settled (hwrite List.mem_cons_self)).shaped
    refine h.andThen (hevaluates scopes k? value m h hvalue) fun a middle hmiddle => ?_
    exact hmiddle.andThen (hmiddle.write hname id a) fun _ after hafter => hafter.return a
  | call id callee paren arguments =>
    obtain ⟨hcallee, harguments⟩ := List.append_subset.mp hsites
    refine h.andThen (hevaluates scopes k? callee m h hcallee) fun f middle hmiddle => ?_
    exact hmiddle.andThen (hevaluates.all arguments hmiddle harguments) fun given after hafter =>
      hexecutes.callValue hafter.tidy f paren given
  | get id object name =>
    -- The object of the access is kept, since what is bound to it has to name it.
    refine (hevaluates scopes k? object m h hsites).bind fun o after ho hkept => ?_
    cases o with
    | object o => exact hkept.tidy.property h.tidy.history ho name
    | _ => exact .still hkept.tidy rfl rfl
  | set id object name value =>
    obtain ⟨hvalue, hobject⟩ := List.append_subset.mp hsites
    refine (hevaluates scopes k? object m h hobject).bind fun o middle ho hkept => ?_
    have hmiddle := h.keep hkept
    cases o with
    | object o =>
      refine (hevaluates scopes k? value middle hmiddle hvalue).bind fun a after ha hkept' => ?_
      have hset : Kept root seen after { after with
          store := after.store.setField o name.lexeme a } :=
        hkept'.tidy.same (.setField o name.lexeme ⟨fuel, object, value, m, middle, a, ho, ha, rfl⟩)
          (fun _ _ => rfl) rfl rfl rfl
      exact .step rfl hset (.pure hset.tidy a)
    | _ => exact .still hmiddle.tidy rfl rfl

/-- One unit of fuel more for statements. -/
theorem executes_succ
    (hevaluates : Evaluates root seen (evaluateBy .recorded fuel)
      (evaluateBy (watching root seen alarm) fuel))
    (hexecutes : Executes root seen (executeBy .recorded fuel)
      (executeBy (watching root seen alarm) fuel)) :
    Executes root seen (executeBy .recorded (fuel + 1))
      (executeBy (watching root seen alarm) (fuel + 1)) := by
  intro scopes k? s m h hsites
  cases s with
  | expr value =>
    exact h.andThen (hevaluates scopes k? value m h hsites) fun _ after hafter => hafter.return _
  | print value =>
    refine h.andThen (hevaluates scopes k? value m h hsites) fun a middle hmiddle => ?_
    exact hmiddle.andThen (hmiddle.print a) fun _ after hafter => hafter.return _
  | var name initial =>
    have hname : name.lexeme ≠ receiverName := (h.settled (hsites List.mem_cons_self)).shaped
    cases initial with
    | none => exact h.andThen (h.define hname .nil) fun _ after hafter => hafter.return _
    | some e =>
      have hvalue := List.Subset.trans (List.subset_cons_self _ _) hsites
      have hdeclared := h.declareIn hname
      refine hdeclared.andThen (hevaluates _ k? e m hdeclared hvalue) fun a middle hmiddle => ?_
      exact hmiddle.andThen (hmiddle.define hname a) fun _ after hafter => hafter.return _
  | block body =>
    obtain ⟨hkept, hstands⟩ := h.openBlock
    have hbody : Faithful root seen
        (make (fun s => s.addFrame { enclosing := some m.scope }) >>= fun frame =>
          within frame (executeAll (executeBy .recorded fuel) body))
        (make (fun s => s.addFrame { enclosing := some m.scope }) >>= fun frame =>
          within frame (executeAll (executeBy (watching root seen alarm) fuel) body)) m :=
      .inside hkept (hexecutes.all body hstands hsites)
    exact ⟨hbody.watch, hbody.kept⟩
  | ifThen condition yes =>
    obtain ⟨hcondition, hbranch⟩ := List.append_subset.mp hsites
    have hyes := List.Subset.trans (List.subset_cons_self _ _) hbranch
    refine h.andThen (hevaluates scopes k? condition m h hcondition) fun a after hafter => ?_
    split
    · exact hexecutes scopes k? yes after hafter hyes
    · exact hafter.return _
  | ifElse condition yes no =>
    obtain ⟨hcondition, hbranches⟩ := List.append_subset.mp hsites
    obtain ⟨hyes, hbranch⟩ := List.append_subset.mp
      (List.Subset.trans (List.subset_cons_self _ _) hbranches)
    have hno := List.Subset.trans (List.subset_cons_self _ _) hbranch
    refine h.andThen (hevaluates scopes k? condition m h hcondition) fun a after hafter => ?_
    split
    · exact hexecutes scopes k? yes after hafter hyes
    · exact hexecutes _ k? no after (hafter.behind hyes) hno
  | loop condition body =>
    obtain ⟨hcondition, hbranch⟩ := List.append_subset.mp hsites
    have hbody := List.Subset.trans (List.subset_cons_self _ _) hbranch
    exact hexecutes.repeat hevaluates hcondition hbody fuel h
  | function routine =>
    have hname : routine.name.lexeme ≠ receiverName :=
      (h.settled (hsites List.mem_cons_self)).shaped
    have hroutine := List.Subset.trans (List.subset_cons_self _ _) hsites
    have hintroduced : Stands root seen (introduceIn routine.name scopes) k? m :=
      ⟨h.tidy, h.plain, h.lies.introduceIn h.plain hname⟩
    have hmade := hintroduced.makeFunction hroutine
    have hstands := h.keep hmade
    have hdefined := (hstands.define hname (.function m.store.functions.size)).kept
    exact ⟨rfl, hmade.trans hdefined⟩
  | ret keyword value =>
    cases value with
    | none => exact h.return _
    | some value =>
      exact h.andThen (hevaluates scopes k? value m h hsites) fun a after hafter => hafter.return _
  | classDecl name methods =>
    have hname : name.lexeme ≠ receiverName := (h.settled (hsites List.mem_cons_self)).shaped
    have hmade := h.makeClass hname hsites
    have hstands := h.keep hmade
    have hdefined := (hstands.define hname (.classRef m.store.classes.size)).kept
    exact ⟨rfl, hmade.trans hdefined⟩

/-- Expressions are evaluated and statements executed faithfully at every place. -/
theorem evaluates_and_executes (fuel : Nat) :
    Evaluates root seen (evaluateBy .recorded fuel) (evaluateBy (watching root seen alarm) fuel) ∧
      Executes root seen (executeBy .recorded fuel)
        (executeBy (watching root seen alarm) fuel) := by
  induction fuel with
  | zero =>
    constructor
    · intro scopes k? e m h _
      exact .still h.tidy rfl rfl
    · intro scopes k? s m h _
      exact .still h.tidy rfl rfl
  | succ fuel ih =>
    exact ⟨evaluates_succ alarm ih.1 ih.2, executes_succ alarm ih.1 ih.2⟩

/-- The statements of a program are executed faithfully at the top level. -/
theorem Stands.program (h : Stands root seen [] none m) (fuel : Nat) (program : Program)
    (hsites : program.sites ⊆ seen) :
    Faithful root seen (executeProgramBy .recorded fuel program)
      (executeProgramBy (watching root seen alarm) fuel program) m := by
  induction program generalizing m with
  | nil => exact h.return ()
  | cons s rest ih =>
    obtain ⟨hfirst, hrest⟩ := List.append_subset.mp hsites
    rw [Stmt.scopesAfter_nil] at hrest
    exact h.andThen ((evaluates_and_executes alarm fuel).2 [] none s m h hfirst)
      fun _ after hafter => ih hafter hrest

end Scriptlet.Receiver
