import Scriptlet.Proofs.Alike.Machines

/-!
# Running programs that are alike

From machines alike, programs alike come to machines alike. Numbers of expressions
are looked at only to find distances, which agree where numbers correspond; lines
are looked at only to say where a program failed. So values, output and clock
readings are the same on both sides, both sides return or both stop, and they run
dry together. By induction on the fuel this holds of every expression and every
statement.
-/

namespace Scriptlet.Machine

variable {α β : Type} {K : Likeness}

/-- Results alike, with values in a relation. -/
inductive ResultAlike (K : Likeness) (R : α → α → Prop) :
    EStateM.Result Stop Machine α → EStateM.Result Stop Machine α → Prop where
  | ok {a a' : α} {m m' : Machine} (value : R a a') (machine : m.Alike K m') :
    ResultAlike K R (.ok a m) (.ok a' m')
  | error {stop stop' : Stop} {m m' : Machine} (why : stop.Alike K stop')
    (machine : m.Alike K m') : ResultAlike K R (.error stop m) (.error stop' m')

/-- From machines alike two actions come to results alike. -/
def TracksBy (K : Likeness) (R : α → α → Prop) (action action' : Run α) : Prop :=
  ∀ m m', m.Alike K m' → ResultAlike K R (action m) (action' m')

/-- From machines alike two actions come to results alike, with the same value. -/
abbrev Tracks (K : Likeness) (action action' : Run α) : Prop := TracksBy K Eq action action'

namespace TracksBy

variable {R : α → α → Prop} {S : β → β → Prop} {first first' : Run β} {next next' : β → Run α}

/-- Values given without acting. -/
theorem pure {a a' : α} (h : R a a') : TracksBy K R (Pure.pure a : Run α) (Pure.pure a') :=
  fun _ _ hm => .ok h hm

/-- One action after another. -/
theorem bind (h : TracksBy K S first first')
    (hnext : ∀ b b', S b b' → TracksBy K R (next b) (next' b')) :
    TracksBy K R (first >>= next) (first' >>= next') := by
  intro m m' hm
  change ResultAlike K R (EStateM.bind first next m) (EStateM.bind first' next' m')
  unfold EStateM.bind
  have hfirst := h m m' hm
  generalize first m = result at hfirst ⊢
  generalize first' m' = result' at hfirst ⊢
  cases hfirst with
  | ok value machine => exact hnext _ _ value _ _ machine
  | error why machine => exact .error why machine

/-- One action after another that gives the same value on both sides. -/
theorem andThen (h : Tracks K first first') (hnext : ∀ b, TracksBy K R (next b) (next' b)) :
    TracksBy K R (first >>= next) (first' >>= next') := by
  refine h.bind ?_
  rintro b _ rfl
  exact hnext b

/-- Stopping for lack of fuel. -/
theorem exhausted : TracksBy K R (exhausted : Run α) exhausted :=
  fun _ _ hm => .error .exhausted hm

/-- Failing on lines that correspond. -/
theorem fail {line line' : Nat} (h : K.lines line line') (fault : RuntimeFault) :
    TracksBy K R (fail line fault : Run α) (fail line' fault) :=
  fun _ _ hm => .error (.fault ⟨h, rfl⟩) hm

/-- Asking about the store. -/
theorem ask {f f' : Store → α} (h : ∀ s s', s.Alike K s' → R (f s) (f' s')) :
    TracksBy K R (ask f) (ask f') :=
  fun _ _ hm => .ok (h _ _ hm.store) hm

/-- Taking a result over. -/
theorem ofExcept {result result' : Except RuntimeError α} (h : Operated K result result') :
    Tracks K (ofExcept result : Run α) (ofExcept result') := by
  cases h with
  | ok a => exact .pure rfl
  | error h => exact fun _ _ hm => .error (.fault h) hm

/-- Making something in the store. -/
theorem make {f f' : Store → α × Store}
    (h : ∀ s s', s.Alike K s' → (f s).1 = (f' s').1 ∧ (f s).2.Alike K (f' s').2) :
    Tracks K (make f) (make f') := by
  intro m m' hm
  obtain ⟨hvalue, hstore⟩ := h _ _ hm.store
  exact .ok hvalue ⟨hstore, hm.globals, hm.scope, hm.hops, hm.sink, hm.clock⟩

/-- Changing the store. -/
theorem change {f f' : Store → Store} (h : ∀ s s', s.Alike K s' → (f s).Alike K (f' s')) :
    Tracks K (change f) (change f') :=
  fun _ _ hm => .ok rfl ⟨h _ _ hm.store, hm.globals, hm.scope, hm.hops, hm.sink, hm.clock⟩

/-- Defining a name in the current frame. -/
theorem define {t t' : Token} (ht : t.Alike K t') (value : Value) :
    Tracks K (define t.lexeme value) (define t'.lexeme value) := by
  intro m m' hm
  refine .ok rfl ⟨?_, hm.globals, hm.scope, hm.hops, hm.sink, hm.clock⟩
  rw [hm.scope, ht.lexeme]
  exact hm.store.define _ _ value

/-- Looking at the current frame. -/
theorem currentScope : Tracks K currentScope currentScope := fun _ _ hm => .ok hm.scope hm

/-- Acting inside another frame. -/
theorem within (frame : FrameId) {action action' : Run α} (h : Tracks K action action') :
    Tracks K (within frame action) (within frame action') := by
  intro m m' hm
  have hinside := h { m with scope := frame } { m' with scope := frame }
    ⟨hm.store, hm.globals, rfl, hm.hops, hm.sink, hm.clock⟩
  unfold Machine.within
  generalize action { m with scope := frame } = result at hinside ⊢
  generalize action' { m' with scope := frame } = result' at hinside ⊢
  cases hinside with
  | ok value after =>
    exact .ok value ⟨after.store, after.globals, hm.scope, after.hops, after.sink, after.clock⟩
  | error why after =>
    exact .error why ⟨after.store, after.globals, hm.scope, after.hops, after.sink, after.clock⟩

variable {i i' : Nat} {t t' : Token}

/-- The frame in which a name is looked up. -/
theorem frameOf? {m m' : Machine} (hm : m.Alike K m') (hi : K.numbers i i') (ht : t.Alike K t') :
    m.frameOf? i t = m'.frameOf? i' t' := by
  unfold Machine.frameOf?
  rw [hm.hops i i' hi, hm.scope, hm.globals, ht.lexeme, hm.store.nearest?]
  cases m'.hops.get? i' with
  | none => rfl
  | some links => exact hm.store.ancestor? _ links

/-- Reading a name. -/
theorem readName (hi : K.numbers i i') (ht : t.Alike K t') :
    Tracks K (readName i t) (readName i' t') := by
  intro m m' hm
  unfold Machine.readName Store.readIn
  rw [frameOf? hm hi ht, ht.lexeme, funext fun frame => hm.store.local? frame t'.lexeme]
  cases (m'.frameOf? i' t').bind fun frame => m'.store.local? frame t'.lexeme with
  | some value => exact .ok rfl hm
  | none => exact .error (.fault ht.undefined) hm

/-- Overwriting a name. -/
theorem writeName (hi : K.numbers i i') (ht : t.Alike K t') (value : Value) :
    Tracks K (writeName i t value) (writeName i' t' value) := by
  intro m m' hm
  unfold Machine.writeName
  rw [frameOf? hm hi ht, ht.lexeme, funext fun frame => hm.store.binds frame t'.lexeme]
  cases (m'.frameOf? i' t').filter fun frame => m'.store.binds frame t'.lexeme with
  | some frame =>
    exact .ok rfl
      ⟨hm.store.define frame _ value, hm.globals, hm.scope, hm.hops, hm.sink, hm.clock⟩
  | none => exact .error (.fault ht.undefined) hm

/-- Printing a value. -/
theorem printLine (value : Value) : Tracks K (printLine value) (printLine value) := by
  intro m m' hm
  unfold Machine.printLine
  rw [hm.store.render, hm.sink]
  generalize m'.sink.write _ = written
  obtain ⟨failure, sink⟩ := written
  cases failure with
  | none => exact .ok rfl ⟨hm.store, hm.globals, hm.scope, hm.hops, rfl, hm.clock⟩
  | some f => exact .error (.sink f) ⟨hm.store, hm.globals, hm.scope, hm.hops, rfl, hm.clock⟩

/-- Flushing the output. -/
theorem flush : Tracks K flush flush := by
  intro m m' hm
  unfold Machine.flush
  rw [hm.sink]
  split
  · exact .ok rfl hm
  · exact .error (.sink _) hm

/-- Reading the clock. -/
theorem readClock {line line' : Nat} (h : K.lines line line') :
    Tracks K (readClock line) (readClock line') := by
  intro m m' hm
  unfold Machine.readClock
  rw [hm.clock]
  cases m'.clock.time? with
  | some seconds => exact .ok rfl ⟨hm.store, hm.globals, hm.scope, hm.hops, hm.sink, rfl⟩
  | none =>
    exact .error (.fault ⟨h, rfl⟩) ⟨hm.store, hm.globals, hm.scope, hm.hops, hm.sink, rfl⟩

end TracksBy

section Operators

variable {t t' : Token}

/-- Operators of one operand. -/
theorem applyUnary_alike (ht : t.Alike K t') (operand : Value) :
    Operated K (applyUnary t operand) (applyUnary t' operand) := by
  unfold applyUnary
  rw [ht.kind]
  split
  · exact .ok _
  · split
    · exact .ok _
    · exact .error ⟨ht.line, rfl⟩
  · exact .error ⟨ht.line, rfl⟩

/-- Operators of two numbers. -/
theorem applyNumeric_alike (ht : t.Alike K t') (a b : Float) :
    Operated K (applyNumeric t a b) (applyNumeric t' a b) := by
  unfold applyNumeric
  rw [ht.kind]
  split
  case h_8 => exact .error ⟨ht.line, rfl⟩
  all_goals exact .ok _

/-- Operators of two operands. -/
theorem applyBinary_alike (ht : t.Alike K t') (left right : Value) :
    Operated K (applyBinary t left right) (applyBinary t' left right) := by
  unfold applyBinary applyPlus
  rw [ht.kind]
  split
  · exact .ok _
  · exact .ok _
  · split
    · exact .ok _
    · exact .ok _
    · exact .error ⟨ht.line, rfl⟩
  · split
    · exact applyNumeric_alike ht _ _
    · exact .error ⟨ht.line, rfl⟩

/-- What a logical operator decides. -/
theorem decides_alike (ht : t.Alike K t') (left : Value) : decides t left = decides t' left := by
  unfold decides
  rw [ht.kind]

end Operators

/-- Binding methods alike to an object. -/
theorem bindMethod_tracks (object : ObjectId) {c c' : Closure} (hc : c.Alike K c') :
    Tracks K (bindMethod object c) (bindMethod object c') := by
  obtain ⟨routine, frame⟩ := c
  obtain ⟨routine', _⟩ := c'
  obtain rfl : frame = _ := hc.frame
  exact .andThen (.make fun _ _ hs => hs.addFrame _) fun inner =>
    .andThen (.make fun _ _ hs => hs.addFunction ⟨hc.routine, rfl⟩) fun _ => .pure rfl

/-- Reading a property. -/
theorem property_tracks (object : ObjectId) {t t' : Token} (ht : t.Alike K t') :
    Tracks K (property object t) (property object t') := by
  unfold property
  rw [ht.lexeme]
  refine .andThen (.ask fun s s' hs => by rw [hs.objects]) fun found => ?_
  split
  · exact .pure rfl
  · refine .bind (S := Option.Rel (Closure.Alike K)) (.ask fun s s' hs => ?_)
      fun method method' hmethod => ?_
    · cases found with
      | none => exact .none
      | some o =>
        change Option.Rel _ ((s.classes[o.classId]?).bind _) ((s'.classes[o.classId]?).bind _)
        have hclass := hs.class? o.classId
        generalize s.classes[o.classId]? = c at hclass ⊢
        generalize s'.classes[o.classId]? = c' at hclass ⊢
        cases hclass with
        | none => exact .none
        | some hc => exact hc.methods.get? t'.lexeme
    · cases hmethod with
      | none => exact .fail ht.line _
      | some hc => exact bindMethod_tracks object hc

/-- The methods of a class. -/
theorem methodTable_alike (frame : FrameId) {rs rs' : List Routine}
    (h : Routine.AllAlike K rs rs') :
    Table.Alike (Closure.Alike K) (methodTable frame rs) (methodTable frame rs') := by
  refine Table.Alike.insertAll .nil (List.rel_map ?_ h)
  intro r r' hr
  exact ⟨hr.name.lexeme, hr, rfl⟩

/-- Statements alike are executed alike. -/
def Executes (K : Likeness) (execute execute' : Stmt → Run Flow) : Prop :=
  ∀ s s', s.Alike K s' → Tracks K (execute s) (execute' s')

/-- Expressions alike are evaluated alike. -/
def Evaluates (K : Likeness) (evaluate evaluate' : Expr → Run Value) : Prop :=
  ∀ e e', e.Alike K e' → Tracks K (evaluate e) (evaluate' e')

/-- Expressions in a row. -/
theorem Evaluates.all {evaluate evaluate' : Expr → Run Value} (h : Evaluates K evaluate evaluate')
    {es es' : List Expr} (hes : Expr.AllAlike K es es') :
    Tracks K (evaluateAll evaluate es) (evaluateAll evaluate' es') := by
  induction hes with
  | nil => exact .pure rfl
  | cons first _ ih => exact .andThen (h _ _ first) fun _ => .andThen ih fun _ => .pure rfl

/-- Repeating a body. -/
theorem repeatWhile_tracks {condition condition' : Run Value} {body body' : Run Flow}
    (hcondition : Tracks K condition condition') (hbody : Tracks K body body') (fuel : Nat) :
    Tracks K (repeatWhile condition body fuel) (repeatWhile condition' body' fuel) := by
  induction fuel with
  | zero => exact .exhausted
  | succ fuel ih =>
    refine .andThen hcondition fun holds => ?_
    split
    · refine .andThen hbody fun flow => ?_
      cases flow with
      | returned value => exact .pure rfl
      | normal => exact ih
    · exact .pure rfl

namespace Executes

variable {execute execute' : Stmt → Run Flow}

/-- Statements in a row. -/
theorem all (h : Executes K execute execute') {ss ss' : List Stmt} (hss : Stmt.AllAlike K ss ss') :
    Tracks K (executeAll execute ss) (executeAll execute' ss') := by
  induction hss with
  | nil => exact .pure rfl
  | cons first _ ih =>
    refine .andThen (h _ _ first) fun flow => ?_
    cases flow with
    | returned value => exact .pure rfl
    | normal => exact ih

/-- Calling closures alike. -/
theorem callClosure (h : Executes K execute execute') {c c' : Closure} (hc : c.Alike K c')
    (arguments : List Value) :
    Tracks K (callClosure execute c arguments) (callClosure execute' c' arguments) := by
  have hframe : Machine.callFrame c arguments = Machine.callFrame c' arguments := by
    unfold callFrame
    rw [hc.routine.parameters.lexemes, hc.frame]
  unfold Machine.callClosure
  rw [hframe]
  refine .andThen (.make fun _ _ hs => hs.addFrame _) fun inner =>
    .andThen (.within inner (h.all hc.routine.body)) fun flow => ?_
  cases flow with
  | returned value => exact .pure rfl
  | normal => exact .pure rfl

/-- Calling a value that takes as many arguments as are given. -/
theorem enter (h : Executes K execute execute') (callee : Value) {t t' : Token}
    (ht : t.Alike K t') (arguments : List Value) :
    Tracks K (enter execute callee t arguments) (enter execute' callee t' arguments) := by
  cases callee with
  | function id =>
    refine .bind (.ask fun _ _ hs => hs.function? id) fun c c' hc => ?_
    cases hc with
    | none => exact .pure rfl
    | some hc => exact h.callClosure hc arguments
  | classRef id => exact .andThen (.make fun _ _ hs => hs.addObject _) fun _ => .pure rfl
  | _ => exact .readClock ht.line

/-- Calling a value. -/
theorem callValue (h : Executes K execute execute') (callee : Value) {t t' : Token}
    (ht : t.Alike K t') (arguments : List Value) :
    Tracks K (callValue execute callee t arguments) (callValue execute' callee t' arguments) := by
  refine .andThen (.ask fun _ _ hs => hs.arity? callee) fun arity => ?_
  cases arity with
  | none => exact .fail ht.line _
  | some arity =>
    dsimp only
    split
    · exact h.enter callee ht arguments
    · exact .fail ht.line _

end Executes

/-- Expressions and statements alike run alike, with names at their recorded distances. -/
theorem evaluate_execute_track (fuel : Nat) :
    Evaluates K (evaluateBy .recorded fuel) (evaluateBy .recorded fuel) ∧
      Executes K (executeBy .recorded fuel) (executeBy .recorded fuel) := by
  induction fuel with
  | zero =>
    refine ⟨fun e e' _ => ?_, fun s s' _ => ?_⟩
    · unfold evaluateBy
      exact .exhausted
    · unfold executeBy
      exact .exhausted
  | succ fuel ih =>
    obtain ⟨hevaluates, hexecutes⟩ := ih
    constructor
    · intro e e' h
      unfold evaluateBy
      cases h with
      | literal value number => exact .pure rfl
      | unary number operator operand =>
        exact .andThen (hevaluates _ _ operand) fun a => .ofExcept (applyUnary_alike operator a)
      | binary number left operator right =>
        exact .andThen (hevaluates _ _ left) fun a => .andThen (hevaluates _ _ right) fun b =>
          .ofExcept (applyBinary_alike operator a b)
      | logical number left operator right =>
        refine .andThen (hevaluates _ _ left) fun a => ?_
        rw [decides_alike operator]
        split
        · exact .pure rfl
        · exact hevaluates _ _ right
      | group number inner => exact hevaluates _ _ inner
      | var number name => exact .readName number name
      | receiver number keyword => exact .readName number keyword
      | assign number name value =>
        exact .andThen (hevaluates _ _ value) fun a => .andThen (.writeName number name a)
          fun _ => .pure rfl
      | call number callee paren arguments =>
        exact .andThen (hevaluates _ _ callee) fun f => .andThen (hevaluates.all arguments)
          fun given => hexecutes.callValue f paren given
      | get number object name =>
        refine .andThen (hevaluates _ _ object) fun a => ?_
        cases a with
        | object id => exact property_tracks id name
        | _ => exact .fail name.line _
      | set number object name value =>
        refine .andThen (hevaluates _ _ object) fun a => ?_
        cases a with
        | object id =>
          refine .andThen (hevaluates _ _ value) fun b => .andThen (.change fun s s' hs => ?_)
            fun _ => .pure rfl
          rw [name.lexeme]
          exact hs.setField id _ b
        | _ => exact .fail name.line _
    · intro s s' h
      unfold executeBy
      cases h with
      | expr value => exact .andThen (hevaluates _ _ value) fun _ => .pure rfl
      | print value =>
        exact .andThen (hevaluates _ _ value) fun a => .andThen (.printLine a) fun _ => .pure rfl
      | var name initial =>
        cases initial with
        | none => exact .andThen (.define name _) fun _ => .pure rfl
        | some initial =>
          exact .andThen (hevaluates _ _ initial) fun a => .andThen (.define name a) fun _ =>
            .pure rfl
      | block body =>
        exact .andThen .currentScope fun _ => .andThen (.make fun _ _ hs => hs.addFrame _)
          fun frame => .within frame (hexecutes.all body)
      | ifThen condition yes =>
        refine .andThen (hevaluates _ _ condition) fun a => ?_
        split
        · exact hexecutes _ _ yes
        · exact .pure rfl
      | ifElse condition yes no =>
        refine .andThen (hevaluates _ _ condition) fun a => ?_
        split
        · exact hexecutes _ _ yes
        · exact hexecutes _ _ no
      | loop condition body =>
        exact repeatWhile_tracks (hevaluates _ _ condition) (hexecutes _ _ body) fuel
      | function routine =>
        exact .andThen .currentScope fun scope =>
          .andThen (.make fun _ _ hs => hs.addFunction ⟨routine, rfl⟩) fun id =>
            .andThen (.define routine.name _) fun _ => .pure rfl
      | ret keyword value =>
        cases value with
        | none => exact .pure rfl
        | some value => exact .andThen (hevaluates _ _ value) fun _ => .pure rfl
      | classDecl name methods =>
        exact .andThen .currentScope fun scope => .andThen
          (.make fun _ _ hs => hs.addClass ⟨name.lexeme, methodTable_alike scope methods⟩)
          fun id => .andThen (.define name _) fun _ => .pure rfl

/-- Programs alike run alike. -/
theorem executeProgramBy_tracks (fuel : Nat) {p p' : Program} (h : Stmt.AllAlike K p p') :
    Tracks K (executeProgramBy .recorded fuel p) (executeProgramBy .recorded fuel p') := by
  induction h with
  | nil => exact .pure rfl
  | cons first _ ih =>
    exact .andThen ((evaluate_execute_track fuel).2 _ _ first) fun _ => ih

/-- Coming back to the outermost frame when an action stops. -/
theorem backToGlobals_tracks {action action' : Run α} (h : Tracks K action action') :
    Tracks K (backToGlobals action) (backToGlobals action') := by
  intro m m' hm
  have haction := h m m' hm
  unfold backToGlobals
  generalize action m = result at haction ⊢
  generalize action' m' = result' at haction ⊢
  cases haction with
  | ok value after => exact .ok value after
  | error why after =>
    exact .error why
      ⟨after.store, after.globals, after.globals, after.hops, after.sink, after.clock⟩

/-- Running programs alike, each with its distances. -/
theorem interpret_alike (fuel : Nat) {p p' : Program} {hops hops' : Hops} {m m' : Machine}
    (hm : Machine.Alike K { m with hops := m.hops.insertAll hops.entries }
      { m' with hops := m'.hops.insertAll hops'.entries }) (hp : Stmt.AllAlike K p p') :
    ResultAlike K Eq (interpret fuel p hops m) (interpret fuel p' hops' m') :=
  TracksBy.andThen (backToGlobals_tracks (executeProgramBy_tracks fuel hp)) (fun _ => .flush)
    _ _ hm

end Scriptlet.Machine
