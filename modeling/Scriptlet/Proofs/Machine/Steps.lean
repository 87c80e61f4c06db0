import Scriptlet.Machine.Lemmas
import Scriptlet.Machine.Run
import Scriptlet.Store.Lemmas

/-!
# What a running program does to its machine

Whatever the program is, and however it ends, a run of it is a sequence of a few
kinds of change, some of them inside another frame. A change says all that it
does and under which condition it is made. What every change keeps is therefore
kept by every run, and is proved by induction on the steps, without looking at
expressions and statements again.
-/

namespace Scriptlet.Machine

/-- The frame in which a method is bound to an object. -/
def receiverFrame (object : ObjectId) (method : Closure) : Frame where
  bindings := Table.empty.insert Binding.receiverName (.object object)
  enclosing := some method.frame

/-- An assignment to a field of an object ends: its target has been found to be the
object, then its value has been found, and now the field is set. -/
def SetsField (names : Names) (object : ObjectId) (name : String) (m after : Machine) : Prop :=
  ∃ fuel target value before middle a,
    evaluateBy names fuel target before = .ok (.object object) middle ∧
    evaluateBy names fuel value middle = .ok a m ∧
    after = { m with store := m.store.setField object name a }

/-- What a machine may become at once. -/
inductive Change (names : Names) (m : Machine) : Machine → Prop where
  /-- A name is defined in the current frame. -/
  | define (name : String) (value : Value) :
    Change names m { m with store := m.store.define m.scope name value }
  /-- A name is overwritten in a frame that binds it. -/
  | overwrite (frame : FrameId) (name : String) (value : Value)
    (h : m.store.binds frame name = true) :
    Change names m { m with store := m.store.define frame name value }
  /-- A frame is made for a block. -/
  | openBlock :
    Change names m { m with store := (m.store.addFrame { enclosing := some m.scope }).2 }
  /-- A frame is made for a call. -/
  | openCall (id : FunctionId) (closure : Closure) (arguments : List Value)
    (h : m.store.functions[id]? = some closure) :
    Change names m { m with store := (m.store.addFrame (callFrame closure arguments)).2 }
  /-- A method of the class of an object, to which the target of a property access has been
  evaluated, is bound to the object, in a frame of its own. -/
  | bindMethod (fuel : Nat) (target : Expr) (before : Machine) (id : ObjectId) (object : Object)
    (info : ClassInfo) (name : Token) (method : Closure)
    (htarget : evaluateBy names fuel target before = .ok (.object id) m)
    (hobject : m.store.objects[id]? = some object)
    (hfield : object.fields.get? name.lexeme = none)
    (hclass : m.store.classes[object.classId]? = some info)
    (hmethod : info.methods.get? name.lexeme = some method) :
    Change names m { m with
      store := ((m.store.addFrame (receiverFrame id method)).2.addFunction
        ⟨method.routine, m.store.frames.size⟩).2 }
  /-- A function is made in the current frame. -/
  | makeFunction (routine : Routine) :
    Change names m { m with store := (m.store.addFunction ⟨routine, m.scope⟩).2 }
  /-- A class is made in the current frame. -/
  | makeClass (name : String) (methods : List Routine) :
    Change names m { m with store := (m.store.addClass ⟨name, methodTable m.scope methods⟩).2 }
  /-- An object without fields is made. -/
  | makeObject (id : ClassId) :
    Change names m { m with store := (m.store.addObject { classId := id }).2 }
  /-- A field of an object is set. -/
  | setField {after : Machine} (object : ObjectId) (name : String)
    (h : SetsField names object name m after) : Change names m after
  /-- A line is written, as far as the output has room for it. -/
  | print (value : Value) :
    Change names m { m with sink := (m.sink.write (m.store.render value ++ "\n").toUTF8.data).2 }
  /-- The clock is read. -/
  | readClock : Change names m { m with clock := { m.clock with calls := m.clock.calls + 1 } }

/-- What a machine may become by steps of some kind one after the other. Those made inside
another frame, which exists, leave the current frame as it was. -/
inductive Steps (step : Machine → Machine → Prop) : Machine → Machine → Prop where
  | refl (m : Machine) : Steps step m m
  | trans {a b c : Machine} (first : Steps step a b) (second : Steps step b c) : Steps step a c
  | once {a b : Machine} (change : step a b) : Steps step a b
  | within {a b : Machine} (frame : FrameId) (h : frame < a.store.frames.size)
    (inside : Steps step { a with scope := frame } b) : Steps step a { b with scope := a.scope }

/-- Steps of one kind are steps of every kind that allows them. -/
theorem Steps.mono {step step' : Machine → Machine → Prop} {m after : Machine}
    (h : Steps step m after) (hstep : ∀ a b, step a b → step' a b) : Steps step' m after := by
  induction h with
  | refl m => exact .refl m
  | trans first second ih ih' => exact ih.trans ih'
  | once change => exact .once (hstep _ _ change)
  | within frame hframe inside ih => exact .within frame hframe ih

variable {names : Names}

/-- A change is one of the store, of what was written and of the clock. -/
theorem Change.rest {m after : Machine} (h : Change names m after) :
    after.hops = m.hops ∧ after.scope = m.scope ∧ after.globals = m.globals ∧
      after.sink.flush = m.sink.flush := by
  cases h with
  | setField object name h =>
    obtain ⟨-, -, -, -, -, -, -, -, rfl⟩ := h
    exact ⟨rfl, rfl, rfl, rfl⟩
  | _ => exact ⟨rfl, rfl, rfl, rfl⟩

/-- Steps change nothing but the store, what was written and the clock. -/
theorem Steps.rest {m after : Machine} (h : Steps (Change names) m after) :
    after.hops = m.hops ∧ after.scope = m.scope ∧ after.globals = m.globals ∧
      after.sink.flush = m.sink.flush := by
  induction h with
  | refl m => exact ⟨rfl, rfl, rfl, rfl⟩
  | trans first second ih ih' =>
    obtain ⟨hhops, hscope, hglobals, hflush⟩ := ih
    obtain ⟨hhops', hscope', hglobals', hflush'⟩ := ih'
    exact ⟨hhops'.trans hhops, hscope'.trans hscope, hglobals'.trans hglobals,
      hflush'.trans hflush⟩
  | once change => exact change.rest
  | within frame hframe inside ih => exact ⟨ih.1, rfl, ih.2.2⟩

/-- However an action ends, the machine it leaves behind is reached by steps. -/
def Goes {α : Type} (names : Names) (action : Run α) (m : Machine) : Prop :=
  Steps (Change names) m (reached (action m))

namespace Goes

variable {α β : Type} {m : Machine}

/-- An action that leaves the machine alone. -/
theorem still {action : Run α} (h : reached (action m) = m) : Goes names action m := by
  unfold Goes
  rw [h]
  exact .refl m

/-- A value goes nowhere. -/
theorem pure (a : α) : Goes names (Pure.pure a) m := still rfl

/-- Taking a result over goes nowhere. -/
theorem ofExcept (result : Except RuntimeError α) : Goes names (Machine.ofExcept result) m := by
  cases result <;> exact still rfl

/-- Reading the clock is one step, whether it shows a time or not. -/
theorem readClock (line : Nat) : Goes names (Machine.readClock line) m := by
  unfold Goes
  rw [reached_readClock]
  exact .once .readClock

/-- One action after another, from the machine that the first leaves behind. -/
theorem bind {first : Run β} {next : β → Run α} (h : Goes names first m)
    (hnext : ∀ b after, first m = .ok b after → Goes names (next b) after) :
    Goes names (first >>= next) m := by
  unfold Goes at h ⊢
  change Steps (Change names) m (reached (EStateM.bind first next m))
  unfold EStateM.bind
  cases hfirst : first m with
  | ok b after =>
    rw [hfirst] at h
    exact h.trans (hnext b after hfirst)
  | error stop after =>
    rw [hfirst] at h
    exact h

/-- One action after another, whatever value the first gives. -/
theorem andThen {first : Run β} {next : β → Run α} (h : Goes names first m)
    (hnext : ∀ b after, Goes names (next b) after) : Goes names (first >>= next) m :=
  h.bind fun b after _ => hnext b after

/-- Going on with what the store says. -/
theorem asking {f : Store → β} {next : β → Run α} (h : Goes names (next (f m.store)) m) :
    Goes names (ask f >>= next) m := h

/-- Going on after one change. -/
theorem change {first : Run β} {next : β → Run α} {b : β} {after : Machine}
    (hfirst : first m = .ok b after) (hchange : Change names m after) (h : Goes names (next b) after) :
    Goes names (first >>= next) m := by
  have hgoes : Goes names first m := by
    unfold Goes
    rw [hfirst]
    exact .once hchange
  refine hgoes.bind fun b' after' heq => ?_
  rw [hfirst] at heq
  cases heq
  exact h

/-- An action inside a frame that exists. -/
theorem within {action : Run α} {frame : FrameId} (hframe : frame < m.store.frames.size)
    (h : Goes names action { m with scope := frame }) : Goes names (Machine.within frame action) m := by
  have hsteps := Steps.within frame hframe h
  have hreached : reached (Machine.within frame action m) =
      { reached (action { m with scope := frame }) with scope := m.scope } := by
    unfold Machine.within
    cases action { m with scope := frame } <;> rfl
  unfold Goes
  rw [hreached]
  exact hsteps

/-- Going on with the current frame. -/
theorem here {next : FrameId → Run α} (h : Goes names (next m.scope) m) :
    Goes names (currentScope >>= next) m := h

/-- An action inside a frame that is made for it. -/
theorem inside {action : FrameId → Run α} {frame : Frame}
    (hchange : Change names m { m with store := (m.store.addFrame frame).2 })
    (h : ∀ id m, Goes names (action id) m) :
    Goes names (make (fun s => s.addFrame frame) >>= fun id => Machine.within id (action id)) m := by
  have hsize : m.store.frames.size < (m.store.addFrame frame).2.frames.size := by
    rw [Store.size_addFrame]
    omega
  exact change rfl hchange (within hsize (h _ _))

/-- Expressions one after the other. -/
theorem evaluateAll {evaluate : Expr → Run Value} (h : ∀ e m, Goes names (evaluate e) m)
    (es : List Expr) (m : Machine) : Goes names (Machine.evaluateAll evaluate es) m := by
  induction es generalizing m with
  | nil => exact pure []
  | cons e rest ih =>
    exact (h e m).andThen fun _ after => (ih after).andThen fun _ _ => pure _

/-- Statements one after the other. -/
theorem executeAll {execute : Stmt → Run Flow} (h : ∀ s m, Goes names (execute s) m)
    (body : List Stmt) (m : Machine) : Goes names (Machine.executeAll execute body) m := by
  induction body generalizing m with
  | nil => exact pure _
  | cons s rest ih =>
    refine (h s m).andThen fun flow after => ?_
    cases flow with
    | normal => exact ih after
    | returned value => exact pure _

/-- A loop. -/
theorem repeatWhile {condition : Run Value} {body : Run Flow} (hcondition : ∀ m, Goes names condition m)
    (hbody : ∀ m, Goes names body m) (fuel : Nat) (m : Machine) :
    Goes names (Machine.repeatWhile condition body fuel) m := by
  induction fuel generalizing m with
  | zero => exact still rfl
  | succ fuel ih =>
    refine (hcondition m).andThen fun holds middle => ?_
    split
    · refine (hbody middle).andThen fun flow after => ?_
      cases flow with
      | normal => exact ih after
      | returned value => exact pure _
    · exact pure _

end Goes

variable {execute : Stmt → Run Flow}

/-- A value that takes as many arguments as are given is called by steps. -/
theorem enter_goes (h : ∀ s m, Goes names (execute s) m) (callee : Value) (paren : Token)
    (arguments : List Value) (m : Machine) :
    Goes names (enter execute callee paren arguments) m := by
  cases callee with
  | function id =>
    refine .asking ?_
    cases hclosure : m.store.functions[id]? with
    | none => exact .pure _
    | some closure =>
      have hbody : Goes names (make (fun s => s.addFrame (callFrame closure arguments)) >>= fun frame =>
          within frame (executeAll execute closure.routine.body)) m :=
        .inside (.openCall id closure arguments hclosure) fun _ => Goes.executeAll h _
      refine hbody.andThen fun flow after => ?_
      cases flow <;> exact .pure _
  | classRef id => exact .change rfl (.makeObject id) (.pure _)
  | _ => exact .readClock paren.line

/-- A value is called by steps, whatever it is. -/
theorem callValue_goes (h : ∀ s m, Goes names (execute s) m) (callee : Value) (paren : Token)
    (arguments : List Value) (m : Machine) : Goes names (callValue execute callee paren arguments) m := by
  refine .asking ?_
  cases m.store.arity? callee with
  | none => exact .still rfl
  | some arity =>
    dsimp only
    split
    · exact enter_goes h callee paren arguments m
    · exact .still rfl

/-- A property of an object that was found is found or bound by steps. -/
theorem property_goes {fuel : Nat} {target : Expr} {object : ObjectId} {before m : Machine}
    (htarget : evaluateBy names fuel target before = .ok (.object object) m) (name : Token) :
    Goes names (property object name) m := by
  refine .asking ?_
  cases hobject : m.store.objects[object]? with
  | none => exact .still rfl
  | some o =>
    dsimp only [Option.bind_some]
    cases hfield : o.fields.get? name.lexeme with
    | some value => exact .pure value
    | none =>
      refine .asking ?_
      cases hclass : m.store.classes[o.classId]? with
      | none => exact .still rfl
      | some info =>
        dsimp only [Option.bind_some]
        cases hmethod : info.methods.get? name.lexeme with
        | none => exact .still rfl
        | some method =>
          exact Steps.once (.bindMethod fuel target before object o info name method htarget hobject
            hfield hclass hmethod)

/-- Reading and overwriting names makes steps. -/
structure Names.Goes (names : Names) : Prop where
  /-- Reading makes steps. -/
  read : ∀ id name m, Machine.Goes names (names.read id name) m
  /-- Overwriting makes steps. -/
  write : ∀ id name value m, Machine.Goes names (names.write id name value) m

/-- Names at their recorded distances are read without a change, and overwritten
where they are bound. -/
theorem Names.Goes.recorded : Names.recorded.Goes where
  read := by
    intro id name m
    change Machine.Goes .recorded (readName id name) m
    unfold Machine.Goes readName
    split <;> exact .refl m
  write := by
    intro id name value m
    change Machine.Goes .recorded (writeName id name value) m
    unfold Machine.Goes writeName
    split
    · rename_i frame hframe
      exact .once (.overwrite frame name.lexeme value (Option.filter_eq_some_iff.mp hframe).2)
    · exact .refl m

/-- Expressions are evaluated and statements executed by steps. -/
theorem evaluateBy_executeBy_go (hnames : names.Goes) (fuel : Nat) :
    (∀ e m, Goes names (evaluateBy names fuel e) m) ∧ ∀ s m, Goes names (executeBy names fuel s) m := by
  induction fuel with
  | zero =>
    constructor
    · intro e m
      rw [evaluateBy]
      exact .still rfl
    · intro s m
      rw [executeBy]
      exact .still rfl
  | succ fuel ih =>
    obtain ⟨he, hs⟩ := ih
    constructor
    · intro e m
      cases e with
      | literal id value => exact .pure _
      | group id inner => exact he inner m
      | unary id operator operand =>
        exact (he operand m).andThen fun _ _ => .ofExcept _
      | binary id left operator right =>
        exact (he left m).andThen fun _ after => (he right after).andThen fun _ _ => .ofExcept _
      | logical id left operator right =>
        refine (he left m).andThen fun a after => ?_
        split
        · exact .pure _
        · exact he right after
      | var id name => exact hnames.read id name m
      | receiver id keyword => exact hnames.read id keyword m
      | assign id name value =>
        exact (he value m).andThen fun a after =>
          (hnames.write id name a after).andThen fun _ _ => .pure _
      | call id callee paren arguments =>
        exact (he callee m).andThen fun f middle =>
          (Goes.evaluateAll he arguments middle).andThen fun given after =>
            callValue_goes hs f paren given after
      | get id object name =>
        refine (he object m).bind fun o after ho => ?_
        cases o with
        | object id => exact property_goes ho name
        | _ => exact .still rfl
      | set id object name value =>
        refine (he object m).bind fun o middle ho => ?_
        cases o with
        | object id =>
          exact (he value middle).bind fun a after hvalue =>
            .change rfl (.setField id name.lexeme ⟨fuel, object, value, m, middle, a, ho, hvalue, rfl⟩)
              (.pure _)
        | _ => exact .still rfl
    · intro s m
      cases s with
      | expr value => exact (he value m).andThen fun _ _ => .pure _
      | print value =>
        refine (he value m).andThen fun a after => .andThen ?_ fun _ _ => .pure _
        unfold Goes printLine
        dsimp only
        split <;> exact .once (.print a)
      | var name initial =>
        cases initial with
        | none => exact .change rfl (.define name.lexeme .nil) (.pure _)
        | some initial =>
          exact (he initial m).andThen fun a _ => .change rfl (.define name.lexeme a) (.pure _)
      | block body => exact .here (.inside .openBlock fun _ => Goes.executeAll hs body)
      | ifThen condition yes =>
        refine (he condition m).andThen fun a after => ?_
        split
        · exact hs yes after
        · exact .pure _
      | ifElse condition yes no =>
        refine (he condition m).andThen fun a after => ?_
        split
        · exact hs yes after
        · exact hs no after
      | loop condition body => exact Goes.repeatWhile (he condition) (hs body) fuel m
      | function routine =>
        exact .here (.change rfl (.makeFunction routine)
          (.change rfl (.define routine.name.lexeme (.function m.store.functions.size)) (.pure _)))
      | ret keyword value =>
        cases value with
        | none => exact .pure _
        | some value => exact (he value m).andThen fun _ _ => .pure _
      | classDecl name methods =>
        exact .here (.change rfl (.makeClass name.lexeme methods)
          (.change rfl (.define name.lexeme (.classRef m.store.classes.size)) (.pure _)))

/-- A program is executed by steps. -/
theorem executeProgramBy_goes (hnames : names.Goes) (fuel : Nat)
    (program : Program) (m : Machine) : Goes names (executeProgramBy names fuel program) m := by
  induction program generalizing m with
  | nil => exact .pure ()
  | cons s rest ih =>
    exact ((evaluateBy_executeBy_go hnames fuel).2 s m).andThen fun _ after => ih after

end Scriptlet.Machine
