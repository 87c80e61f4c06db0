import Scriptlet.Proofs.Grammar.Operators
import Scriptlet.Proofs.Machine.Heap

/-!
# Operators that can always be applied

The machine has a rule for every operator that the grammar reads, with operands of every
kind: it fails for an operand, never for the operator. What it runs is the program and the
routines in its store, so when all of these have operators that were read, no action
fails for an operator, and what it leaves in the store has such operators again, however it
ends.
-/

namespace Scriptlet

/-- Whether a failure is another one than that of an operator without a rule. -/
def RuntimeFault.Possible : RuntimeFault → Prop
  | .invalidUnary => False
  | .invalidBinary => False
  | _ => True

/-- Whether an action may stop so when all operators can be applied. -/
def Stop.Possible : Stop → Prop
  | .fault e => e.fault.Possible
  | .sink _ => True
  | .exhausted => True

/-- An operator of one operand is applied, or the operand is not what it needs. -/
theorem applyUnary_possible {operator : Token} (h : operator.kind ∈ unaryOperators)
    (operand : Value) {e : RuntimeError} (he : applyUnary operator operand = .error e) :
    e.fault.Possible := by
  have hkind : operator.kind = .bang ∨ operator.kind = .minus := by
    simpa only [unaryOperators, List.mem_cons, List.not_mem_nil, or_false] using h
  unfold applyUnary at he
  rcases hkind with hbang | hminus
  · rw [hbang] at he
    cases he
  · rw [hminus] at he
    dsimp only at he
    split at he
    · cases he
    · cases he
      exact trivial

/-- Numbers can be added and texts joined, and nothing else. -/
theorem applyPlus_possible {operator : Token} {left right : Value} {e : RuntimeError}
    (he : applyPlus operator left right = .error e) : e.fault.Possible := by
  unfold applyPlus at he
  split at he
  · cases he
  · cases he
  · cases he
    exact trivial

/-- The operators that want numbers can be applied to them. -/
theorem applyNumeric_ne_error {operator : Token} (h : operator.kind ∈ binaryOperators)
    (hplus : operator.kind ≠ .plus) (hequal : operator.kind ≠ .equalEqual)
    (hunequal : operator.kind ≠ .bangEqual) (a b : Float) (e : RuntimeError) :
    applyNumeric operator a b ≠ .error e := by
  unfold applyNumeric
  simp only [binaryOperators, List.mem_cons, List.not_mem_nil, or_false] at h
  rcases h with h | h | h | h | h | h | h | h | h | h <;> simp_all

/-- An operator of two operands is applied, or the operands are not what it needs. -/
theorem applyBinary_possible {operator : Token} (h : operator.kind ∈ binaryOperators)
    {left right : Value} {e : RuntimeError} (he : applyBinary operator left right = .error e) :
    e.fault.Possible := by
  unfold applyBinary at he
  split at he
  · cases he
  · cases he
  · exact applyPlus_possible he
  · rename_i hequal hunequal hplus
    split at he
    · exact absurd he (applyNumeric_ne_error h hplus hequal hunequal _ _ e)
    · cases he
      exact trivial

/-- Whether every operator in the routines of a store can be applied. -/
structure Store.Operable (s : Store) : Prop where
  /-- In functions. -/
  functions : ∀ (id : FunctionId) closure, s.functions[id]? = some closure →
    AllOperable closure.routine.exprs
  /-- In methods. -/
  methods : ∀ (id : ClassId) info name closure, s.classes[id]? = some info →
    info.methods.get? name = some closure → AllOperable closure.routine.exprs

namespace Store.Operable

variable {s t : Store}

/-- A store with the same functions and classes. -/
theorem same (h : s.Operable) (hfunctions : t.functions = s.functions)
    (hclasses : t.classes = s.classes) : t.Operable where
  functions := fun id closure hfound => h.functions id closure (hfunctions ▸ hfound)
  methods := fun id info name closure hclass hfound =>
    h.methods id info name closure (hclasses ▸ hclass) hfound

/-- A function is added. -/
theorem addFunction (h : s.Operable) {closure : Closure}
    (hroutine : AllOperable closure.routine.exprs) : (s.addFunction closure).2.Operable where
  functions := fun id other hfound => by
    rcases found_of_push hfound with hold | ⟨-, rfl⟩
    · exact h.functions id other hold
    · exact hroutine
  methods := h.methods

/-- A class is added. -/
theorem addClass (h : s.Operable) (name : String) (frame : FrameId) {methods : List Routine}
    (hmethods : AllOperable (Routine.exprsOfAll methods)) :
    (s.addClass ⟨name, Machine.methodTable frame methods⟩).2.Operable where
  functions := h.functions
  methods := fun id info sought closure hclass hfound => by
    rcases found_of_push hclass with hold | ⟨-, rfl⟩
    · exact h.methods id info sought closure hold hfound
    · obtain ⟨r, hr, rfl⟩ := Machine.mem_of_methodTable hfound
      exact hmethods.method hr

end Store.Operable

namespace Machine

/-- From a store in which all operators can be applied an action leaves such a store again, and
if it stops, then not for an operator. -/
def Operates {α : Type} (action : Run α) (m : Machine) : Prop :=
  m.store.Operable → (reached (action m)).store.Operable ∧
    ∀ stop after, action m = .error stop after → stop.Possible

namespace Operates

variable {α β : Type} {m after : Machine}

/-- An action that gives a value and leaves functions and classes alone. -/
theorem gives {action : Run α} {a : α} (heq : action m = .ok a after)
    (hafter : m.store.Operable → after.store.Operable) : Operates action m := by
  intro h
  rw [heq]
  exact ⟨hafter h, fun _ _ hstop => by cases hstop⟩

/-- An action that stops for another reason. -/
theorem stops {action : Run α} {stop : Stop} (heq : action m = .error stop after)
    (hstop : stop.Possible) (hafter : m.store.Operable → after.store.Operable) :
    Operates action m := by
  intro h
  rw [heq]
  refine ⟨hafter h, fun stop' after' heq' => ?_⟩
  cases heq'
  exact hstop

/-- A value. -/
theorem pure (a : α) : Operates (Pure.pure a) m := gives rfl id

/-- Failing, but not for an operator. -/
theorem fail (line : Nat) {fault : RuntimeFault} (h : fault.Possible) :
    Operates (Machine.fail line fault : Run α) m := stops rfl h id

/-- Taking a result over. -/
theorem ofExcept {result : Except RuntimeError α}
    (h : ∀ e, result = .error e → e.fault.Possible) : Operates (Machine.ofExcept result) m := by
  cases result with
  | ok a => exact gives rfl id
  | error e => exact stops rfl (h e rfl) id

/-- One action after another. -/
theorem bind {first : Run β} {next : β → Run α} (h : Operates first m)
    (hnext : ∀ b after, Operates (next b) after) : Operates (first >>= next) m := by
  intro hm
  obtain ⟨hkept, hstop⟩ := h hm
  have hbind : (first >>= next) m = EStateM.bind first next m := rfl
  rw [hbind]
  unfold EStateM.bind
  cases hfirst : first m with
  | ok b after =>
    rw [hfirst] at hkept
    exact hnext b after hkept
  | error stop after =>
    rw [hfirst] at hkept
    refine ⟨hkept, fun stop' after' heq => ?_⟩
    cases heq
    exact hstop stop after hfirst

/-- Going on with what the store says. -/
theorem asking {f : Store → β} {next : β → Run α}
    (h : m.store.Operable → Operates (next (f m.store)) m) : Operates (ask f >>= next) m :=
  fun hm => h hm hm

/-- Going on after a change of the machine. -/
theorem past {first : Run β} {next : β → Run α} {b : β} (hfirst : first m = .ok b after)
    (hafter : m.store.Operable → after.store.Operable) (h : Operates (next b) after) :
    Operates (first >>= next) m := by
  intro hm
  have hbind : (first >>= next) m = next b after := by
    change EStateM.bind first next m = _
    unfold EStateM.bind
    rw [hfirst]
  unfold Operates at h
  rw [hbind]
  exact h (hafter hm)

/-- An action inside another frame. -/
theorem within {action : Run α} {frame : FrameId} (h : Operates action { m with scope := frame }) :
    Operates (Machine.within frame action) m := by
  intro hm
  obtain ⟨hkept, hstop⟩ := h hm
  unfold Machine.within
  cases heq : action { m with scope := frame } with
  | ok a after =>
    rw [heq] at hkept
    exact ⟨hkept, fun _ _ h => by cases h⟩
  | error stop after =>
    rw [heq] at hkept
    refine ⟨hkept, fun stop' after' h => ?_⟩
    cases h
    exact hstop stop after heq

/-- Expressions one after the other. -/
theorem evaluateAll {evaluate : Expr → Run Value} {es : List Expr}
    (h : ∀ e ∈ es, ∀ m, Operates (evaluate e) m) (m : Machine) :
    Operates (Machine.evaluateAll evaluate es) m := by
  induction es generalizing m with
  | nil => exact pure []
  | cons e rest ih =>
    obtain ⟨he, hrest⟩ := List.forall_mem_cons.mp h
    exact (he m).bind fun _ after => (ih hrest after).bind fun _ _ => pure _

/-- Statements one after the other. -/
theorem executeAll {execute : Stmt → Run Flow} {body : List Stmt}
    (h : ∀ s ∈ body, ∀ m, Operates (execute s) m) (m : Machine) :
    Operates (Machine.executeAll execute body) m := by
  induction body generalizing m with
  | nil => exact pure _
  | cons s rest ih =>
    obtain ⟨hs, hrest⟩ := List.forall_mem_cons.mp h
    refine (hs m).bind fun flow after => ?_
    cases flow with
    | normal => exact ih hrest after
    | returned value => exact pure _

/-- A loop. -/
theorem repeatWhile {condition : Run Value} {body : Run Flow}
    (hcondition : ∀ m, Operates condition m) (hbody : ∀ m, Operates body m) (fuel : Nat)
    (m : Machine) : Operates (Machine.repeatWhile condition body fuel) m := by
  induction fuel generalizing m with
  | zero => exact stops rfl trivial id
  | succ fuel ih =>
    refine (hcondition m).bind fun holds middle => ?_
    split
    · refine (hbody middle).bind fun flow after => ?_
      cases flow with
      | normal => exact ih after
      | returned value => exact pure _
    · exact pure _

/-- A name is read. -/
theorem readName (id : Nat) (name : Token) : Operates (Machine.readName id name) m := by
  cases heq : m.store.readIn (m.frameOf? id name) name with
  | ok value =>
    have hread : Machine.readName id name m = .ok value m := by
      unfold Machine.readName
      rw [heq]
    exact gives hread fun h => h
  | error e =>
    have hread : Machine.readName id name m = .error (.fault e) m := by
      unfold Machine.readName
      rw [heq]
    have hpossible : e.fault.Possible := by
      unfold Store.readIn at heq
      split at heq
      · cases heq
      · cases heq
        exact trivial
    exact stops hread hpossible fun h => h

/-- A name is overwritten. -/
theorem writeName (id : Nat) (name : Token) (value : Value) :
    Operates (Machine.writeName id name value) m := by
  unfold Operates Machine.writeName
  split
  · exact fun h => ⟨h.same rfl rfl, fun _ _ heq => by cases heq⟩
  · refine fun h => ⟨h, fun stop after heq => ?_⟩
    cases heq
    exact trivial

/-- A line is printed. -/
theorem printLine (value : Value) : Operates (Machine.printLine value) m := by
  unfold Operates Machine.printLine
  dsimp only
  split
  · exact fun h => ⟨h, fun _ _ heq => by cases heq⟩
  · refine fun h => ⟨h, fun stop after heq => ?_⟩
    cases heq
    trivial

/-- The output is flushed. -/
theorem flush : Operates Machine.flush m := by
  unfold Operates Machine.flush
  split
  · exact fun h => ⟨h, fun _ _ heq => by cases heq⟩
  · refine fun h => ⟨h, fun stop after heq => ?_⟩
    cases heq
    trivial

/-- The clock is read, or shows no time. -/
theorem readClock (line : Nat) : Operates (Machine.readClock line) m := by
  intro h
  rw [reached_readClock]
  refine ⟨h.same rfl rfl, fun stop after hstop => ?_⟩
  unfold Machine.readClock at hstop
  dsimp only at hstop
  split at hstop
  · cases hstop
  · cases hstop
    trivial

/-- A property of an object is found or bound. -/
theorem property (object : ObjectId) (name : Token) :
    Operates (Machine.property object name) m := by
  refine asking fun _ => ?_
  split
  · exact pure _
  · refine asking fun hm => ?_
    cases hmethod : (m.store.objects[object]?.bind fun o => m.store.classes[o.classId]?).bind
        fun c => c.methods.get? name.lexeme with
    | none => exact fail _ trivial
    | some method =>
      obtain ⟨info, hinfo, hfound⟩ := Option.bind_eq_some_iff.mp hmethod
      obtain ⟨o, -, hclass⟩ := Option.bind_eq_some_iff.mp hinfo
      have hroutine := hm.methods _ info _ method hclass hfound
      exact past rfl (fun h => h.same rfl rfl) (past rfl (fun h => h.addFunction hroutine) (pure _))

variable {execute : Stmt → Run Flow}

/-- A closure whose statements are executed so. -/
theorem callClosure {closure : Closure}
    (h : ∀ s ∈ closure.routine.body, ∀ m, Operates (execute s) m) (arguments : List Value) :
    Operates (Machine.callClosure execute closure arguments) m := by
  refine past rfl (fun h => h.same rfl rfl) ((within (executeAll h _)).bind fun flow after => ?_)
  cases flow <;> exact pure _

/-- A value that takes as many arguments as are given. -/
theorem enter (h : ∀ s, AllOperable s.exprs → ∀ m, Operates (execute s) m) (callee : Value)
    (paren : Token) (arguments : List Value) :
    Operates (Machine.enter execute callee paren arguments) m := by
  cases callee with
  | function id =>
    refine asking fun hm => ?_
    cases hclosure : m.store.functions[id]? with
    | none => exact pure _
    | some closure =>
      have hbody : AllOperable (Stmt.exprsOfAll closure.routine.body) := by
        have hroutine := hm.functions id closure hclosure
        cases hr : closure.routine with
        | mk name parameters body =>
          rw [hr] at hroutine
          exact hroutine
      exact callClosure (fun s hs => h s (hbody.member hs)) arguments
  | classRef id => exact past rfl (fun h => h.same rfl rfl) (pure _)
  | _ => exact readClock paren.line

/-- A value is called, whatever it is. -/
theorem callValue (h : ∀ s, AllOperable s.exprs → ∀ m, Operates (execute s) m) (callee : Value)
    (paren : Token) (arguments : List Value) :
    Operates (Machine.callValue execute callee paren arguments) m := by
  refine asking fun _ => ?_
  cases m.store.arity? callee with
  | none => exact fail _ trivial
  | some arity =>
    dsimp only
    split
    · exact enter h callee paren arguments
    · exact fail _ trivial

end Operates

/-- Expressions and statements whose operators can be applied are evaluated and executed without
failing for one. -/
theorem evaluate_execute_operate (fuel : Nat) :
    (∀ e, AllOperable e.nodes → ∀ m, Operates (evaluate fuel e) m) ∧
      ∀ s, AllOperable s.exprs → ∀ m, Operates (execute fuel s) m := by
  unfold evaluate execute
  induction fuel with
  | zero =>
    constructor
    · intro e _ m
      rw [evaluateBy]
      exact .stops rfl trivial id
    · intro s _ m
      rw [executeBy]
      exact .stops rfl trivial id
  | succ fuel ih =>
    obtain ⟨he, hs⟩ := ih
    constructor
    · intro e h m
      cases e with
      | literal id value => exact .pure _
      | group id inner => exact he inner h.parts m
      | unary id operator operand =>
        have hoperator : operator.kind ∈ unaryOperators := h _ List.mem_cons_self
        exact (he operand h.parts m).bind fun a _ =>
          .ofExcept fun _ => applyUnary_possible hoperator a
      | binary id left operator right =>
        have hoperator : operator.kind ∈ binaryOperators := h _ List.mem_cons_self
        exact (he left h.parts.left m).bind fun a middle =>
          (he right h.parts.right middle).bind fun b _ =>
            .ofExcept fun _ => applyBinary_possible hoperator
      | logical id left operator right =>
        refine (he left h.parts.left m).bind fun a after => ?_
        split
        · exact .pure _
        · exact he right h.parts.right after
      | var id name => exact .readName id name
      | receiver id keyword => exact .readName id keyword
      | assign id name value =>
        exact (he value h.parts m).bind fun a after =>
          (Operates.writeName id name a).bind fun _ _ => .pure _
      | call id callee paren arguments =>
        exact (he callee h.parts.left m).bind fun f middle =>
          (Operates.evaluateAll (fun e hmem => he e (h.parts.right.argument hmem)) middle).bind
            fun given after => .callValue hs f paren given
      | get id object name =>
        refine (he object h.parts m).bind fun o after => ?_
        cases o with
        | object id => exact .property id name
        | _ => exact .fail _ trivial
      | set id object name value =>
        refine (he object h.parts.left m).bind fun o middle => ?_
        cases o with
        | object id =>
          exact (he value h.parts.right middle).bind fun a after =>
            .past rfl (fun h => h.same rfl rfl) (.pure _)
        | _ => exact .fail _ trivial
    · intro s h m
      cases s with
      | expr value => exact (he value h m).bind fun _ _ => .pure _
      | print value =>
        exact (he value h m).bind fun a _ => (Operates.printLine a).bind fun _ _ => .pure _
      | var name initial =>
        cases initial with
        | none => exact .past rfl (fun h => h.same rfl rfl) (.pure _)
        | some initial =>
          exact (he initial h m).bind fun a _ => .past rfl (fun h => h.same rfl rfl) (.pure _)
      | block body =>
        exact .past rfl id (.past rfl (fun h => h.same rfl rfl)
          (.within (.executeAll (fun s hmem => hs s (h.member hmem)) _)))
      | ifThen condition yes =>
        refine (he condition h.left m).bind fun a after => ?_
        split
        · exact hs yes h.right after
        · exact .pure _
      | ifElse condition yes no =>
        refine (he condition h.left.left m).bind fun a after => ?_
        split
        · exact hs yes h.left.right after
        · exact hs no h.right after
      | loop condition body =>
        exact .repeatWhile (he condition h.left) (hs body h.right) fuel m
      | function routine =>
        exact .past rfl id (.past rfl (fun hm => hm.addFunction h)
          (.past rfl (fun h => h.same rfl rfl) (.pure _)))
      | ret keyword value =>
        cases value with
        | none => exact .pure _
        | some value => exact (he value h m).bind fun _ _ => .pure _
      | classDecl name methods =>
        exact .past rfl id (.past rfl (fun hm => hm.addClass _ _ h)
          (.past rfl (fun h => h.same rfl rfl) (.pure _)))

/-- A program whose operators can be applied is executed without failing for one. -/
theorem executeProgram_operates (fuel : Nat) {program : Program}
    (h : AllOperable (Stmt.exprsOfAll program)) (m : Machine) :
    Operates (executeProgramBy .recorded fuel program) m := by
  induction program generalizing m with
  | nil => exact .pure ()
  | cons s rest ih =>
    exact ((evaluate_execute_operate fuel).2 s h.left m).bind fun _ after => ih h.right after

/-- A program whose operators can be applied is run without failing for one. -/
theorem interpret_operates (fuel : Nat) {program : Program}
    (h : AllOperable (Stmt.exprsOfAll program)) (hops : Hops) (m : Machine) :
    Operates (interpret fuel program hops) m := by
  refine .past rfl (fun h => h.same rfl rfl) (.bind ?_ fun _ _ => .flush)
  intro hm
  obtain ⟨hkept, hstop⟩ := executeProgram_operates fuel h _ hm
  unfold backToGlobals
  split
  · rename_i a after heq
    rw [heq] at hkept
    exact ⟨hkept, fun _ _ heq => by cases heq⟩
  · rename_i stop after heq
    rw [heq] at hkept
    refine ⟨hkept, fun stop' after' heq' => ?_⟩
    cases heq'
    exact hstop stop after heq

end Machine

end Scriptlet
