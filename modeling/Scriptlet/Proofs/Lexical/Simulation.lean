import Scriptlet.Proofs.Lexical.Actions
import Scriptlet.Proofs.Lexical.Run

/-!
# Expressions and statements side by side

By induction on the fuel every expression and every statement goes side by side,
at every place where machine and state stand. Expressions lead back to the same
place, statements to the place behind them. The branches of conditionals and
loops declare no names, so that it does not matter which of them is taken.
-/

namespace Scriptlet.Lexical

open Binding Machine

variable {α β : Type} {seen : List Site} {hops : Hops} {initialising : Option String}
  {scopes : List Scope} {gaining : Option FrameId} {p : Pairing}

/-- An action, and behind it one more from the same place. -/
theorem Follows.andThen {plain watched : Scriptlet.Run α} {lexical : Run α}
    {next next' : α → Scriptlet.Run β} {further : α → Run β} {after : Option String}
    {behind : List Scope}
    (h : Follows seen hops p plain watched lexical (Reaches seen hops none initialising scopes p))
    (hnext : ∀ a q, Stands seen hops initialising scopes q → Leads none p q →
      Follows seen hops q (next a) (next' a) (further a) (Reaches seen hops gaining after behind q)) :
    Follows seen hops p (plain >>= next) (watched >>= next') (lexical >>= further)
      (Reaches seen hops gaining after behind p) :=
  h.bind fun a q hreaches =>
    (hnext a q hreaches.1 hreaches.2).since (hreaches.2.weaken gaining)

/-- Ending with a value where machine and state stand. -/
theorem Stands.return (h : Stands seen hops initialising scopes p) (a : α) :
    Follows seen hops p (pure a) (pure a) (pure a)
      (Reaches seen hops gaining initialising scopes p) :=
  .pure ⟨h, .refl gaining p⟩

/-- Taking a result over where machine and state stand. -/
theorem Stands.ofExcept (h : Stands seen hops initialising scopes p)
    (result : Except RuntimeError α) :
    Follows seen hops p (Machine.ofExcept result) (Machine.ofExcept result)
      (Machine.ofExcept result) (Reaches seen hops gaining initialising scopes p) :=
  .ofExcept h.agrees fun _ => ⟨h, .refl gaining p⟩

/-- Expressions go side by side where machine and state stand, unless the receiver
is about to be initialised. -/
def Evaluates (seen : List Site) (hops : Hops) (plain watched : Expr → Scriptlet.Run Value)
    (lexical : Expr → Run Value) : Prop :=
  ∀ initialising scopes e p, initialising ≠ some receiverName →
    Stands seen hops initialising scopes p → e.sites scopes ⊆ seen →
    Follows seen hops p (plain e) (watched e) (lexical e)
      (Reaches seen hops none initialising scopes p)

section Expressions

variable {plain watched : Expr → Scriptlet.Run Value} {lexical : Expr → Run Value}
  {body body' : Stmt → Scriptlet.Run Flow} {body'' : Stmt → Run Flow}

/-- Expressions in a row go side by side. -/
theorem Evaluates.all (hevaluates : Evaluates seen hops plain watched lexical)
    (hinit : initialising ≠ some receiverName) (es : List Expr)
    (h : Stands seen hops initialising scopes p) (hsites : Expr.sitesOfAll scopes es ⊆ seen) :
    Follows seen hops p (evaluateAll plain es) (evaluateAll watched es) (evaluateAll lexical es)
      (Reaches seen hops none initialising scopes p) := by
  induction es generalizing p with
  | nil => exact h.return []
  | cons e rest ih =>
    obtain ⟨hfirst, hrest⟩ := List.append_subset.mp hsites
    refine (hevaluates initialising scopes e p hinit h hfirst).andThen ?_
    intro value q hq _
    refine (ih hq hrest).andThen ?_
    intro others r hr _
    exact hr.return _

/-- A call: the callee, the arguments from left to right, and then the call itself. -/
theorem Evaluates.call (hevaluates : Evaluates seen hops plain watched lexical)
    (hexecutes : Executes seen hops body body' body'')
    (hsettled : ∀ site ∈ seen, site.Settled hops) (hinit : initialising ≠ some receiverName)
    (h : Stands seen hops initialising scopes p) (callee : Expr) (paren : Token)
    (arguments : List Expr) (hsites : callee.sites scopes ++ Expr.sitesOfAll scopes arguments ⊆ seen) :
    Follows seen hops p
      (do
        let f ← plain callee
        let given ← evaluateAll plain arguments
        Machine.callValue body f paren given)
      (do
        let f ← watched callee
        let given ← evaluateAll watched arguments
        Machine.callValue body' f paren given)
      (do
        let f ← lexical callee
        let given ← evaluateAll lexical arguments
        Lexical.callValue body'' f paren given)
      (Reaches seen hops none initialising scopes p) := by
  obtain ⟨hcallee, harguments⟩ := List.append_subset.mp hsites
  refine (hevaluates initialising scopes callee p hinit h hcallee).andThen ?_
  intro f q hq _
  refine (hevaluates.all hinit arguments hq harguments).andThen ?_
  intro given r hr _
  exact hexecutes.callValue hsettled hr f paren given

end Expressions

variable (hsettled : ∀ site ∈ seen, site.Settled hops) (alarm : Stop) {fuel : Nat}

include hsettled

/-- One unit of fuel more for expressions. -/
theorem evaluates_succ
    (hevaluates : Evaluates seen hops (Machine.evaluateBy .recorded fuel)
      (Machine.evaluateBy (.watched seen alarm) fuel) (evaluate fuel))
    (hexecutes : Executes seen hops (Machine.executeBy .recorded fuel)
      (Machine.executeBy (.watched seen alarm) fuel) (execute fuel)) :
    Evaluates seen hops (Machine.evaluateBy .recorded (fuel + 1))
      (Machine.evaluateBy (.watched seen alarm) (fuel + 1)) (evaluate (fuel + 1)) := by
  intro initialising scopes e p hinit h hsites
  cases e with
  | literal id value => exact h.return value.value
  | group id inner => exact hevaluates initialising scopes inner p hinit h hsites
  | unary id operator operand =>
    refine (hevaluates initialising scopes operand p hinit h hsites).andThen ?_
    intro value q hq _
    exact hq.ofExcept (applyUnary operator value)
  | binary id left operator right =>
    obtain ⟨hleft, hright⟩ := List.append_subset.mp hsites
    refine (hevaluates initialising scopes left p hinit h hleft).andThen ?_
    intro a q hq _
    refine (hevaluates initialising scopes right q hinit hq hright).andThen ?_
    intro b r hr _
    exact hr.ofExcept (applyBinary operator a b)
  | logical id left operator right =>
    obtain ⟨hleft, hright⟩ := List.append_subset.mp hsites
    refine (hevaluates initialising scopes left p hinit h hleft).andThen ?_
    intro a q hq _
    cases decides operator a with
    | true => exact hq.return a
    | false => exact hevaluates initialising scopes right q hinit hq hright
  | var id name =>
    have hsite := hsites List.mem_cons_self
    exact h.read alarm hinit hsite (hsettled _ hsite) rfl
  | receiver id keyword =>
    have hsite := hsites List.mem_cons_self
    exact h.read alarm hinit hsite (hsettled _ hsite) rfl
  | assign id name value =>
    obtain ⟨hvalue, hown⟩ := List.append_subset.mp hsites
    have hsite := hown List.mem_cons_self
    refine (hevaluates initialising scopes value p hinit h hvalue).andThen ?_
    intro a q hq _
    refine (hq.write alarm hinit hsite (hsettled _ hsite) a).bind ?_
    rintro _ r hreaches
    exact .pure hreaches
  | call id callee paren arguments =>
    exact hevaluates.call hexecutes hsettled hinit h callee paren arguments hsites
  | get id object name =>
    refine (hevaluates initialising scopes object p hinit h hsites).andThen ?_
    intro value q hq _
    cases value with
    | object own => exact hq.property own name
    | _ => exact .stop hq.agrees _
  | set id object name value =>
    obtain ⟨hvalue, hobject⟩ := List.append_subset.mp hsites
    refine (hevaluates initialising scopes object p hinit h hobject).andThen ?_
    intro target q hq _
    cases target with
    | object own =>
      refine (hevaluates initialising scopes value q hinit hq hvalue).andThen ?_
      intro a r hr _
      refine (hr.changeField own name.lexeme a).andThen ?_
      intro _ t ht _
      exact ht.return a
    | _ => exact .stop hq.agrees _

omit hsettled in
/-- A loop goes side by side if its condition and its body do and the body declares
no names. -/
theorem Stands.repeatWhile {condition condition' : Scriptlet.Run Value} {condition'' : Run Value}
    {body body' : Scriptlet.Run Flow} {body'' : Run Flow}
    (hcondition : ∀ q, Stands seen hops none scopes q →
      Follows seen hops q condition condition' condition'' (Reaches seen hops none none scopes q))
    (hbody : ∀ q, Stands seen hops none scopes q →
      Follows seen hops q body body' body''
        (Reaches seen hops (some q.machine.scope) none scopes q))
    (turns : Nat) (h : Stands seen hops none scopes p) :
    Follows seen hops p (Machine.repeatWhile condition body turns)
      (Machine.repeatWhile condition' body' turns) (Machine.repeatWhile condition'' body'' turns)
      (Reaches seen hops (some p.machine.scope) none scopes p) := by
  induction turns generalizing p with
  | zero => exact .stop h.agrees _
  | succ turns ih =>
    refine (hcondition p h).andThen ?_
    intro holds q hq hleads
    cases holds.isTruthy with
    | false => exact hq.return _
    | true =>
      rw [← hleads.scope]
      refine (hbody q hq).bind ?_
      rintro flow r ⟨hr, hleads'⟩
      cases flow with
      | returned value => exact .pure ⟨hr, hleads'⟩
      | normal =>
        have hagain := ih hr
        rw [hleads'.scope] at hagain
        exact hagain.since hleads'

/-- A branch declares no names, so that it leads back to the place before it. -/
theorem Executes.branch {plain watched : Stmt → Scriptlet.Run Flow} {lexical : Stmt → Run Flow}
    (hexecutes : Executes seen hops plain watched lexical) (h : Stands seen hops none scopes p)
    (s : Stmt) (hsite : ⟨scopes, .branch s⟩ ∈ seen) (hsites : s.sites scopes ⊆ seen) :
    Follows seen hops p (plain s) (watched s) (lexical s)
      (Reaches seen hops (some p.machine.scope) none scopes p) := by
  have hshaped : s.declares = false := (hsettled _ hsite).shaped
  have hfollows := hexecutes scopes s p h hsites
  rw [s.scopesAfter_of_not_declares scopes hshaped] at hfollows
  exact hfollows

omit hsettled in
/-- A name declared together with its value. -/
theorem Stands.define (h : Stands seen hops none scopes p) {name : Token}
    (hlegal : Site.Legal ⟨scopes, .declare name⟩) (value : Value) :
    Follows seen hops p (Machine.define name.lexeme value) (Machine.define name.lexeme value)
      (Lexical.change fun s => s.introduce name.lexeme value)
      (Reaches seen hops (some p.machine.scope) none (Binding.introduceIn name scopes) p) := by
  obtain ⟨layout, hreaches⟩ := h.introduceIn hlegal value
  exact ⟨rfl, rfl, layout, hreaches⟩

/-- A variable with an initial value: its name is declared before, and has a value
only behind it. -/
theorem Stands.initialise {evaluate evaluate' : Scriptlet.Run Value} {evaluate'' : Run Value}
    (h : Stands seen hops none scopes p) {name : Token}
    (hsite : ⟨scopes, .declare name⟩ ∈ seen)
    (hvalue : ∀ initialising q, initialising ≠ some receiverName →
      Stands seen hops initialising (Binding.declareIn name scopes) q →
      Follows seen hops q evaluate evaluate' evaluate''
        (Reaches seen hops none initialising (Binding.declareIn name scopes) q)) :
    Follows seen hops p
      (do
        let a ← evaluate
        Machine.define name.lexeme a
        return Flow.normal)
      (do
        let a ← evaluate'
        Machine.define name.lexeme a
        return Flow.normal)
      (do
        Lexical.change fun s => s.declare name.lexeme
        let a ← evaluate''
        Lexical.change fun s => s.put name.lexeme a
        return Flow.normal)
      (Reaches seen hops (some p.machine.scope) none (Binding.introduceIn name scopes) p) := by
  have hlegal : isDeclared scopes name.lexeme = false := (hsettled _ hsite).legal
  have hshaped : name.lexeme ≠ receiverName := (hsettled _ hsite).shaped
  obtain ⟨layout, init, hinit, hdeclared, hleads⟩ := h.declareIn hlegal
  have hreceiver : init ≠ some receiverName := by
    rintro rfl
    rcases hinit with hnone | hsome
    · cases hnone
    · exact hshaped (Option.some.inj hsome).symm
  have hrest : Follows seen hops ⟨layout, p.machine, p.state.declare name.lexeme⟩
      (evaluate >>= fun a => Machine.define name.lexeme a >>= fun _ => pure Flow.normal)
      (evaluate' >>= fun a => Machine.define name.lexeme a >>= fun _ => pure Flow.normal)
      (evaluate'' >>= fun a => Lexical.change (fun s => s.put name.lexeme a) >>= fun _ =>
        pure Flow.normal)
      (Reaches seen hops (some p.machine.scope) none (Binding.introduceIn name scopes)
        ⟨layout, p.machine, p.state.declare name.lexeme⟩) := by
    refine (hvalue init _ hreceiver hdeclared).andThen ?_
    intro a q hq _
    obtain ⟨hfilled, hleads'⟩ := hq.completeIn hinit a
    exact ⟨rfl, rfl, q.layout, hfilled, hleads'.weaken _⟩
  exact (hrest.since hleads).of_eq rfl rfl rfl

omit hsettled in
/-- A name declared for something that is made where the name is already known. -/
theorem Stands.introduceFor (h : Stands seen hops none scopes p) {name : Token}
    (hlegal : Site.Legal ⟨scopes, .declare name⟩) (value : Value) {m : Scriptlet.Machine} {r : State}
    (hframes : m.store.frames = (p.machine.store.define p.machine.scope name.lexeme value).frames)
    (hglobals : m.globals = p.machine.globals) (hscope : m.scope = p.machine.scope)
    (henv : r.env = (p.state.declare name.lexeme).env)
    (hmade : ∀ layout, Agrees seen hops
        ⟨layout, { p.machine with
          store := p.machine.store.define p.machine.scope name.lexeme value },
          p.state.introduce name.lexeme value⟩ →
      Lies layout (p.machine.store.define p.machine.scope name.lexeme value) p.machine.globals none
        p.machine.scope (Binding.introduceIn name scopes) (p.state.declare name.lexeme).env →
      Agrees seen hops ⟨layout, m, r⟩) (a : α) :
    ∃ layout, Reaches seen hops (some p.machine.scope) none (Binding.introduceIn name scopes) p a
      ⟨layout, m, r⟩ := by
  obtain ⟨layout, hstands, hleads⟩ := h.introduceIn hlegal value
  have hintroduce := State.env_introduce p.state name.lexeme value
  have hlies := hstands.lies
  dsimp only at hlies
  rw [hintroduce] at hlies
  have hagrees := hmade layout hstands.agrees hlies
  obtain ⟨hreached, hleads'⟩ := hstands.reaches_of_agrees hagrees hframes hglobals hscope
    (henv.trans hintroduce.symm) a
  exact ⟨layout, hreached, hleads.trans (hleads'.weaken _)⟩

omit hsettled in
/-- A function finds its own name in its body. -/
theorem Stands.function (h : Stands seen hops none scopes p) (routine : Routine)
    (hlegal : Site.Legal ⟨scopes, .declare routine.name⟩)
    (hsites : routine.sites (Binding.introduceIn routine.name scopes) ⊆ seen) :
    Follows seen hops p
      (do
        let scope ← currentScope
        let id ← Machine.make fun s => s.addFunction ⟨routine, scope⟩
        Machine.define routine.name.lexeme (.function id)
        return Flow.normal)
      (do
        let scope ← currentScope
        let id ← Machine.make fun s => s.addFunction ⟨routine, scope⟩
        Machine.define routine.name.lexeme (.function id)
        return Flow.normal)
      (do
        Lexical.change fun s => s.declare routine.name.lexeme
        let id ← Lexical.make fun s => s.addFunction ⟨routine, s.env⟩
        Lexical.change fun s => s.put routine.name.lexeme (.function id)
        return Flow.normal)
      (Reaches seen hops (some p.machine.scope) none (Binding.introduceIn routine.name scopes) p) := by
  have hsize : (p.state.declare routine.name.lexeme).functions.size =
      p.machine.store.functions.size := by
    rw [State.functions_declare, h.agrees.functions.size]
  have hcommutes := State.addFunction_put (p.state.declare routine.name.lexeme)
    routine.name.lexeme (.function p.machine.store.functions.size)
    ⟨routine, (p.state.declare routine.name.lexeme).env⟩
  have hreached : ∃ layout, Reaches seen hops (some p.machine.scope) none
      (Binding.introduceIn routine.name scopes) p Flow.normal ⟨layout,
        { p.machine with
          store := (p.machine.store.define p.machine.scope routine.name.lexeme
            (.function p.machine.store.functions.size)).addFunction ⟨routine, p.machine.scope⟩ |>.2 },
        ((p.state.declare routine.name.lexeme).addFunction
          ⟨routine, (p.state.declare routine.name.lexeme).env⟩).2.put routine.name.lexeme
            (.function (p.state.declare routine.name.lexeme).functions.size)⟩ := by
    rw [hsize, ← hcommutes]
    apply h.introduceFor hlegal (.function p.machine.store.functions.size)
    · rfl
    · rfl
    · rfl
    · exact State.env_introduce _ _ _
    · intro layout hagrees hlies
      exact hagrees.addFunction ⟨rfl, _, hlies, hsites⟩
  obtain ⟨layout, hreaches⟩ := hreached
  exact ⟨rfl, rfl, layout, hreaches⟩

omit hsettled in
/-- The methods of a class find its name. -/
theorem Stands.classDecl (h : Stands seen hops none scopes p) (name : Token)
    (methods : List Routine) (hlegal : Site.Legal ⟨scopes, .declare name⟩)
    (hsites : Routine.sitesOfAll (receiverScope :: Binding.introduceIn name scopes) methods ⊆ seen) :
    Follows seen hops p
      (do
        let scope ← currentScope
        let id ← Machine.make fun s => s.addClass ⟨name.lexeme, Machine.methodTable scope methods⟩
        Machine.define name.lexeme (.classRef id)
        return Flow.normal)
      (do
        let scope ← currentScope
        let id ← Machine.make fun s => s.addClass ⟨name.lexeme, Machine.methodTable scope methods⟩
        Machine.define name.lexeme (.classRef id)
        return Flow.normal)
      (do
        Lexical.change fun s => s.declare name.lexeme
        let id ← Lexical.make fun s => s.addClass ⟨name.lexeme, methodTable s.env methods⟩
        Lexical.change fun s => s.put name.lexeme (.classRef id)
        return Flow.normal)
      (Reaches seen hops (some p.machine.scope) none (Binding.introduceIn name scopes) p) := by
  have hsize : (p.state.declare name.lexeme).classes.size =
      p.machine.store.classes.size := by
    rw [State.classes_declare, h.agrees.classes.size]
  have hcommutes := State.addClass_put (p.state.declare name.lexeme)
    name.lexeme (.classRef p.machine.store.classes.size)
    ⟨name.lexeme, methodTable (p.state.declare name.lexeme).env methods⟩
  have hreached : ∃ layout, Reaches seen hops (some p.machine.scope) none
      (Binding.introduceIn name scopes) p Flow.normal ⟨layout,
        { p.machine with
          store := (p.machine.store.define p.machine.scope name.lexeme
            (.classRef p.machine.store.classes.size)).addClass
              ⟨name.lexeme, Machine.methodTable p.machine.scope methods⟩ |>.2 },
        ((p.state.declare name.lexeme).addClass
          ⟨name.lexeme, methodTable (p.state.declare name.lexeme).env methods⟩).2.put name.lexeme
            (.classRef (p.state.declare name.lexeme).classes.size)⟩ := by
    rw [hsize, ← hcommutes]
    apply h.introduceFor hlegal (.classRef p.machine.store.classes.size)
    · rfl
    · rfl
    · rfl
    · exact State.env_introduce _ _ _
    · intro layout hagrees hlies
      exact hagrees.addClass ⟨rfl, _, _, _, methods, rfl, rfl, hlies, hsites⟩
  obtain ⟨layout, hreaches⟩ := hreached
  exact ⟨rfl, rfl, layout, hreaches⟩

/-- One unit of fuel more for statements. -/
theorem executes_succ
    (hevaluates : Evaluates seen hops (Machine.evaluateBy .recorded fuel)
      (Machine.evaluateBy (.watched seen alarm) fuel) (evaluate fuel))
    (hexecutes : Executes seen hops (Machine.executeBy .recorded fuel)
      (Machine.executeBy (.watched seen alarm) fuel) (execute fuel)) :
    Executes seen hops (Machine.executeBy .recorded (fuel + 1))
      (Machine.executeBy (.watched seen alarm) (fuel + 1)) (execute (fuel + 1)) := by
  intro scopes s p h hsites
  have hvalue : ∀ e q, Stands seen hops none scopes q → e.sites scopes ⊆ seen →
      Follows seen hops q (Machine.evaluateBy .recorded fuel e)
        (Machine.evaluateBy (.watched seen alarm) fuel e) (evaluate fuel e)
        (Reaches seen hops none none scopes q) :=
    fun e q hq => hevaluates none scopes e q (fun hnone => by cases hnone) hq
  cases s with
  | expr value =>
    refine (hvalue value p h hsites).andThen ?_
    intro _ q hq _
    exact hq.return Flow.normal
  | print value =>
    refine (hvalue value p h hsites).andThen ?_
    intro a q hq _
    refine (hq.printLine a).andThen ?_
    intro _ r hr _
    exact hr.return Flow.normal
  | var name initial =>
    obtain ⟨hsite, hinitial⟩ := List.cons_subset.mp hsites
    cases initial with
    | none =>
      refine (h.define (hsettled _ hsite).legal .nil).bind ?_
      intro _ q hreaches
      exact .pure hreaches
    | some e =>
      exact h.initialise hsettled hsite fun init q hinit hq =>
        hevaluates init _ e q hinit hq hinitial
  | block body =>
    exact (hexecutes.block h body hsites).mono fun _ _ hreaches =>
      ⟨hreaches.1, hreaches.2.weaken _⟩
  | ifThen condition yes =>
    obtain ⟨hcondition, hbranch⟩ := List.append_subset.mp hsites
    obtain ⟨hsite, hyes⟩ := List.cons_subset.mp hbranch
    have hafter : (Stmt.ifThen condition yes).scopesAfter scopes = scopes :=
      yes.scopesAfter_of_not_declares scopes (hsettled _ hsite).shaped
    rw [hafter]
    refine (hvalue condition p h hcondition).andThen ?_
    intro a q hq hleads
    rw [← hleads.scope]
    cases a.isTruthy with
    | false => exact hq.return _
    | true => exact hexecutes.branch hsettled hq yes hsite hyes
  | ifElse condition yes no =>
    obtain ⟨hcondition, hbranches⟩ := List.append_subset.mp hsites
    obtain ⟨hsite, hrest⟩ := List.cons_subset.mp hbranches
    obtain ⟨hyes, hotherwise⟩ := List.append_subset.mp hrest
    have hbetween : yes.scopesAfter scopes = scopes :=
      yes.scopesAfter_of_not_declares scopes (hsettled _ hsite).shaped
    rw [hbetween] at hotherwise
    obtain ⟨hsite', hno⟩ := List.cons_subset.mp hotherwise
    have hafter : (Stmt.ifElse condition yes no).scopesAfter scopes = scopes := by
      rw [Stmt.scopesAfter, hbetween]
      exact no.scopesAfter_of_not_declares scopes (hsettled _ hsite').shaped
    rw [hafter]
    refine (hvalue condition p h hcondition).andThen ?_
    intro a q hq hleads
    rw [← hleads.scope]
    cases a.isTruthy with
    | false => exact hexecutes.branch hsettled hq no hsite' hno
    | true => exact hexecutes.branch hsettled hq yes hsite hyes
  | loop condition body =>
    obtain ⟨hcondition, hbranch⟩ := List.append_subset.mp hsites
    obtain ⟨hsite, hbody⟩ := List.cons_subset.mp hbranch
    have hafter : (Stmt.loop condition body).scopesAfter scopes = scopes :=
      body.scopesAfter_of_not_declares scopes (hsettled _ hsite).shaped
    rw [hafter]
    exact Stands.repeatWhile (fun q hq => hvalue condition q hq hcondition)
      (fun q hq => hexecutes.branch hsettled hq body hsite hbody) fuel h
  | function routine =>
    obtain ⟨hsite, hroutine⟩ := List.cons_subset.mp hsites
    exact h.function routine (hsettled _ hsite).legal hroutine
  | ret keyword value =>
    cases value with
    | none => exact h.return _
    | some e =>
      refine (hvalue e p h hsites).andThen ?_
      intro a q hq _
      exact hq.return _
  | classDecl name methods =>
    obtain ⟨hsite, hmethods⟩ := List.cons_subset.mp hsites
    exact h.classDecl name methods (hsettled _ hsite).legal hmethods

/-- Expressions and statements go side by side with any fuel. -/
theorem evaluates_and_executes (fuel : Nat) :
    Evaluates seen hops (Machine.evaluateBy .recorded fuel)
        (Machine.evaluateBy (.watched seen alarm) fuel) (evaluate fuel) ∧
      Executes seen hops (Machine.executeBy .recorded fuel)
        (Machine.executeBy (.watched seen alarm) fuel) (execute fuel) := by
  induction fuel with
  | zero =>
    constructor
    · intro initialising scopes e p hinit h hsites
      exact .stop h.agrees .exhausted
    · intro scopes s p h hsites
      exact .stop h.agrees .exhausted
  | succ fuel ih =>
    obtain ⟨hevaluates, hexecutes⟩ := ih
    exact ⟨evaluates_succ hsettled alarm hevaluates hexecutes,
      executes_succ hsettled alarm hevaluates hexecutes⟩

end Scriptlet.Lexical
