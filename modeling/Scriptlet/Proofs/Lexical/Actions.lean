import Scriptlet.Proofs.Lexical.Access

/-!
# Actions of programs side by side

Printing, calls and properties go side by side where a machine and a state
stand, whatever the statements of the bodies do, as long as these go side by
side too. A call enters a frame of its own around which the captured chain
lies, with the parameters as its first names; a method is bound in a frame that
holds its receiver.
-/

namespace Scriptlet.Lexical

open Binding Machine

variable {α : Type}

/-- Behind an action, at a place with these scopes open. -/
def Reaches (seen : List Site) (hops : Hops) (gaining : Option FrameId)
    (initialising : Option String) (scopes : List Scope) (p : Pairing) : α → Pairing → Prop :=
  fun _ q => Stands seen hops initialising scopes q ∧ Leads gaining p q

variable {seen : List Site} {hops : Hops} {initialising : Option String} {scopes : List Scope}
  {gaining : Option FrameId} {p q : Pairing}

/-- What is reached from a later pairing is reached from an earlier one. -/
theorem Follows.since {plain watched : Scriptlet.Run α} {lexical : Run α}
    (hleads : Leads gaining p q)
    (h : Follows seen hops q plain watched lexical (Reaches seen hops gaining initialising scopes q)) :
    Follows seen hops q plain watched lexical (Reaches seen hops gaining initialising scopes p) :=
  h.mono fun _ _ hreaches => ⟨hreaches.1, hleads.trans hreaches.2⟩

namespace Agrees

/-- Classes have the same names. -/
theorem className (h : Agrees seen hops p) (id : ClassId) :
    p.state.className id = p.machine.store.className id := by
  unfold State.className Store.className
  rcases h.classes.lookup id with ⟨hnone, hnone'⟩ | ⟨c, c', hc, hc', hname, -⟩
  · rw [hnone, hnone']
    rfl
  · rw [hc, hc', Option.map_some, Option.map_some, hname]

/-- Values are printed alike. -/
theorem render (h : Agrees seen hops p) (value : Value) :
    p.state.render value = p.machine.store.render value := by
  cases value with
  | function id =>
    unfold State.render Store.render Store.functionName
    rcases h.functions.lookup id with ⟨hnone, hnone'⟩ | ⟨c, c', hc, hc', hroutine, -⟩
    · simp only [hnone, hnone', Option.map_none]
    · simp only [hc, hc', Option.map_some, hroutine]
  | classRef id => exact h.className id
  | object id =>
    unfold State.render Store.render Store.objectClassName
    have hclass : p.state.className = p.machine.store.className := funext h.className
    simp only [h.objects, hclass]
  | nil => rfl
  | bool b => rfl
  | number x => rfl
  | text t => rfl
  | native f => rfl

/-- Values take the same number of arguments. -/
theorem arity? (h : Agrees seen hops p) (value : Value) :
    p.state.arity? value = p.machine.store.arity? value := by
  cases value with
  | function id =>
    unfold State.arity? Store.arity?
    rcases h.functions.lookup id with ⟨hnone, hnone'⟩ | ⟨c, c', hc, hc', hroutine, -⟩
    · simp only [hnone, hnone', Option.map_none]
    · simp only [hc, hc', Option.map_some, hroutine]
  | _ => rfl

end Agrees

namespace Stands

variable (h : Stands seen hops initialising scopes p)

include h

/-- Only the output, the clock, objects or the like change. -/
theorem reaches_of_agrees {m : Scriptlet.Machine} {r : State}
    (hagrees : Agrees seen hops ⟨p.layout, m, r⟩) (hframes : m.store.frames = p.machine.store.frames)
    (hglobals : m.globals = p.machine.globals) (hscope : m.scope = p.machine.scope)
    (henv : r.env = p.state.env) (a : α) :
    Reaches seen hops none initialising scopes p a ⟨p.layout, m, r⟩ := by
  have hleads : Leads none p ⟨p.layout, m, r⟩ :=
    ⟨Grows.of_frames p.layout hframes, hglobals, hscope⟩
  exact ⟨h.keep hagrees hleads henv, hleads⟩

/-- Printing a value. -/
theorem printLine (value : Value) :
    Follows seen hops p (Machine.printLine value) (Machine.printLine value)
      (Lexical.printLine value) (Reaches seen hops none initialising scopes p) := by
  refine ⟨rfl, ?_⟩
  unfold Machine.printLine Lexical.printLine
  rw [h.agrees.render, h.agrees.sink]
  cases hwrite : p.machine.sink.write (p.machine.store.render value ++ "\n").toUTF8.data with
  | mk failure sink =>
    cases failure with
    | none =>
      exact ⟨rfl, p.layout, h.reaches_of_agrees (h.agrees.output sink) rfl rfl rfl rfl ()⟩
    | some f => exact ⟨rfl, p.layout, h.agrees.output sink⟩

/-- Reading the clock. -/
theorem readClock (line : Nat) :
    Follows seen hops p (Machine.readClock line) (Machine.readClock line) (Lexical.readClock line)
      (Reaches seen hops none initialising scopes p) := by
  refine ⟨rfl, ?_⟩
  have htick := h.agrees.tick { p.machine.clock with calls := p.machine.clock.calls + 1 }
  unfold Machine.readClock Lexical.readClock
  rw [h.agrees.clock]
  cases p.machine.clock.time? with
  | some seconds => exact ⟨rfl, p.layout, h.reaches_of_agrees htick rfl rfl rfl rfl _⟩
  | none => exact ⟨rfl, p.layout, htick⟩

/-- Making an object. -/
theorem makeObject (object : Object) :
    Follows seen hops p (Machine.make fun s => s.addObject object)
      (Machine.make fun s => s.addObject object) (Lexical.make fun s => s.addObject object)
      (Reaches seen hops none initialising scopes p) :=
  ⟨rfl, congrArg Array.size h.agrees.objects, p.layout,
    h.reaches_of_agrees (h.agrees.addObject object) rfl rfl rfl rfl _⟩

/-- Setting a field. -/
theorem changeField (object : ObjectId) (name : String) (value : Value) :
    Follows seen hops p (Machine.change fun s => s.setField object name value)
      (Machine.change fun s => s.setField object name value)
      (Lexical.change fun s => s.setField object name value)
      (Reaches seen hops none initialising scopes p) :=
  ⟨rfl, rfl, p.layout,
    h.reaches_of_agrees (h.agrees.setField object name value) rfl rfl rfl rfl ()⟩

end Stands

/-- Statements go side by side where machine and state stand. -/
def Executes (seen : List Site) (hops : Hops) (plain watched : Stmt → Scriptlet.Run Flow)
    (lexical : Stmt → Run Flow) : Prop :=
  ∀ scopes s p, Stands seen hops none scopes p → s.sites scopes ⊆ seen →
    Follows seen hops p (plain s) (watched s) (lexical s)
      (Reaches seen hops (some p.machine.scope) none (s.scopesAfter scopes) p)

variable {plain watched : Stmt → Scriptlet.Run Flow} {lexical : Stmt → Run Flow}

/-- Statements in a row go side by side; where one returns, the current frame may
have fewer names than behind all of them. -/
theorem Executes.all (hexecutes : Executes seen hops plain watched lexical) (body : List Stmt)
    (h : Stands seen hops none scopes p) (hsites : Stmt.sitesOfAll scopes body ⊆ seen) :
    Follows seen hops p (executeAll plain body) (executeAll watched body) (executeAll lexical body)
      fun _ q => Agrees seen hops q ∧ Leads (some p.machine.scope) p q := by
  induction body generalizing scopes p with
  | nil => exact .pure ⟨h.agrees, .refl _ p⟩
  | cons s rest ih =>
    obtain ⟨hfirst, hrest⟩ := List.append_subset.mp hsites
    refine Follows.bind (hexecutes scopes s p h hfirst) ?_
    rintro flow q ⟨hstands, hleads⟩
    cases flow with
    | returned value => exact .pure ⟨hstands.agrees, hleads⟩
    | normal =>
      refine (ih hstands hrest).mono ?_
      rintro _ r ⟨hagrees, hleads'⟩
      rw [hleads.scope] at hleads'
      exact ⟨hagrees, hleads.trans hleads'⟩

/-- Declaring parameters with their values. -/
theorem Stands.introduceAll (h : Stands seen hops none scopes p)
    (hsettled : ∀ site ∈ seen, site.Settled hops) (parameters : List Token) (values : List Value)
    (hlength : values.length = parameters.length)
    (hsites : declarations scopes parameters ⊆ seen) :
    ∃ layout, Stands seen hops none
        (parameters.foldl (fun scopes name => Binding.introduceIn name scopes) scopes)
        ⟨layout, { p.machine with
            store := ((parameters.map Token.lexeme).zip values).foldl
              (fun s entry => s.define p.machine.scope entry.1 entry.2) p.machine.store },
          Lexical.introduceAll p.state ((parameters.map Token.lexeme).zip values)⟩ ∧
      Leads (some p.machine.scope) p
        ⟨layout, { p.machine with
            store := ((parameters.map Token.lexeme).zip values).foldl
              (fun s entry => s.define p.machine.scope entry.1 entry.2) p.machine.store },
          Lexical.introduceAll p.state ((parameters.map Token.lexeme).zip values)⟩ := by
  induction parameters generalizing scopes p values with
  | nil => exact ⟨p.layout, h, .refl _ p⟩
  | cons name rest ih =>
    cases values with
    | nil => cases hlength
    | cons value values =>
      obtain ⟨hfirst, hrest⟩ := List.cons_subset.mp hsites
      obtain ⟨layout, hstands, hleads⟩ := h.introduceIn (hsettled _ hfirst).legal value
      obtain ⟨layout', hstands', hleads'⟩ := ih hstands values (Nat.succ.inj hlength) hrest
      exact ⟨layout', hstands', hleads.trans hleads'⟩

/-- A call goes side by side if the statements of the body do. -/
theorem Executes.callClosure (hexecutes : Executes seen hops plain watched lexical)
    (hsettled : ∀ site ∈ seen, site.Settled hops) (h : Stands seen hops initialising scopes p)
    {c : Scriptlet.Closure} {c' : Closure}
    (hsame : SameClosure seen p.layout p.machine.store p.machine.globals c c')
    (arguments : List Value) (hlength : arguments.length = c.routine.parameters.length) :
    Follows seen hops p (Machine.callClosure plain c arguments)
      (Machine.callClosure watched c arguments) (Lexical.callClosure lexical c' arguments)
      (Reaches seen hops none initialising scopes p) := by
  obtain ⟨⟨name, parameters, body⟩, frame⟩ := c
  obtain ⟨routine, env⟩ := c'
  obtain ⟨hroutine, around, hlies, hsites⟩ := hsame
  cases hroutine
  obtain ⟨hdeclarations, hbody⟩ := List.append_subset.mp hsites
  have hentered := Stands.enter h.agrees hlies
  obtain ⟨layout, hstands, hleads⟩ :=
    hentered.introduceAll hsettled parameters arguments hlength hdeclarations
  have hinside := hexecutes.all body hstands hbody
  have hstore := Store.addFrame_insertAll p.machine.store .empty (some frame)
    ((parameters.map Token.lexeme).zip arguments)
  have hgrows := ((Grows.addFrame p.layout p.machine.store { enclosing := some frame }).weaken
    (some p.machine.store.frames.size)).trans hleads.grows
  have hwithin : Follows seen hops
      ⟨p.layout, { p.machine with
          store := (p.machine.store.addFrame
            (callFrame ⟨.mk name parameters body, frame⟩ arguments)).2 }, p.state⟩
      (Machine.within p.machine.store.frames.size (executeAll plain body))
      (Machine.within p.machine.store.frames.size (executeAll watched body))
      (Lexical.within env.inside (do
        Lexical.change fun s =>
          Lexical.introduceAll s ((parameters.map Token.lexeme).zip arguments)
        executeAll lexical body))
      (Reaches seen hops none initialising scopes p) := by
    refine Follows.within (hinside.of_eq ?_ ?_ rfl) ?_
    · exact congrArg (fun store => executeAll plain body
        { p.machine with store, scope := p.machine.store.frames.size }) hstore
    · exact congrArg (fun store => executeAll watched body
        { p.machine with store, scope := p.machine.store.frames.size }) hstore
    · rintro _ q ⟨hagrees, hleads'⟩
      exact h.back hagrees ((hgrows.trans hleads'.grows).strengthen (Nat.le_refl _))
        (hleads'.globals.trans hleads.globals)
  refine Follows.of_eq (Follows.bind hwithin ?_) rfl rfl rfl
  rintro flow q hreaches
  cases flow with
  | returned value => exact .pure hreaches
  | normal => exact .pure hreaches

/-- Asking for different things about the store and about the state. -/
theorem Follows.asking {α β γ : Type} {f : Store → β} {g : State → γ}
    {next next' : β → Scriptlet.Run α} {further : γ → Run α} {claim : α → Pairing → Prop}
    (h : Follows seen hops p (next (f p.machine.store)) (next' (f p.machine.store))
      (further (g p.state)) claim) :
    Follows seen hops p (Machine.ask f >>= next) (Machine.ask f >>= next')
      (Lexical.ask g >>= further) claim :=
  h.of_eq rfl rfl rfl

/-- Corresponding classes have corresponding methods, each seen in the scope of its receiver. -/
theorem SameClass.method {layout : Layout} {store : Store} {globals : FrameId}
    {c : Scriptlet.ClassInfo} {c' : ClassInfo} (h : SameClass seen layout store globals c c')
    (name : String) :
    c.methods.get? name = none ∧ c'.methods.get? name = none ∨
      ∃ routine frame env scopes, c.methods.get? name = some ⟨routine, frame⟩ ∧
        c'.methods.get? name = some ⟨routine, env⟩ ∧
        Lies layout store globals none frame scopes env ∧
        routine.sites (receiverScope :: scopes) ⊆ seen := by
  obtain ⟨-, frame, scopes, env, methods, hmethods, hmethods', hlies, hsites⟩ := h
  have hget := Table.get?_ofList_map (fun r => (⟨r, frame⟩ : Scriptlet.Closure))
    (fun r : Routine => r.name.lexeme) methods name
  have hget' := Table.get?_ofList_map (fun r => (⟨r, env⟩ : Closure))
    (fun r : Routine => r.name.lexeme) methods name
  rw [hmethods, hmethods']
  unfold Machine.methodTable methodTable
  rw [hget, hget']
  cases hfound : (Table.ofList (methods.map fun r => (r.name.lexeme, r))).get? name with
  | none => exact Or.inl ⟨rfl, rfl⟩
  | some routine =>
    refine Or.inr ⟨routine, frame, env, scopes, rfl, rfl, hlies, ?_⟩
    have hmem := (Table.get?_insertAll_mem hfound).resolve_left fun hnone => by cases hnone
    exact fun site hsite => hsites (Routine.mem_sitesOfAll hmem hsite)

/-- Binding a method to an object. -/
theorem Stands.bindMethod (h : Stands seen hops initialising scopes p) {routine : Routine}
    {frame : FrameId} {env : Env} {around : List Scope}
    (hlies : Lies p.layout p.machine.store p.machine.globals none frame around env)
    (hsites : routine.sites (receiverScope :: around) ⊆ seen) (object : ObjectId) :
    Follows seen hops p (Machine.bindMethod object ⟨routine, frame⟩)
      (Machine.bindMethod object ⟨routine, frame⟩) (Lexical.bindMethod object ⟨routine, env⟩)
      (Reaches seen hops none initialising scopes p) := by
  have hentered := Stands.enter h.agrees hlies
  have hfresh : Table.contains (Table.empty : Scope) receiverName = false := rfl
  obtain ⟨layout, hdeclared, hleads⟩ := hentered.declare hfresh
  have hcontains : (Table.empty.insert receiverName false : Scope).contains receiverName = true := rfl
  obtain ⟨hfilled, hleads'⟩ := hdeclared.fill hcontains (Or.inr rfl) (.object object)
  have hsame : SameClosure seen _ _ _ ⟨routine, p.machine.store.frames.size⟩ ⟨routine, _⟩ :=
    ⟨rfl, receiverScope :: around, hfilled.lies, hsites⟩
  have hfunction := hfilled.agrees.addFunction hsame
  have hstore : (p.machine.store.addFrame { enclosing := some frame }).2.define
      p.machine.store.frames.size receiverName (.object object) =
        (p.machine.store.addFrame
          ⟨Table.empty.insert receiverName (.object object), some frame⟩).2 :=
    Store.define_addFrame p.machine.store .empty (some frame) receiverName (.object object)
  have hgrows := (((Grows.addFrame p.layout p.machine.store { enclosing := some frame }).weaken
    (some p.machine.store.frames.size)).trans (hleads.grows.trans (hleads'.grows.weaken _))).strengthen
      (Nat.le_refl _)
  have hback := h.back hfunction (hgrows.trans (Grows.of_frames layout rfl)) rfl
  dsimp only at hback
  rw [hstore] at hback
  exact ⟨rfl, congrArg Value.function hfilled.agrees.functions.size, layout, hback⟩

/-- A property of an object. -/
theorem Stands.property (h : Stands seen hops initialising scopes p) (object : ObjectId)
    (name : Token) :
    Follows seen hops p (Machine.property object name) (Machine.property object name)
      (Lexical.property object name) (Reaches seen hops none initialising scopes p) := by
  have hreturn : ∀ value : Value, Follows seen hops p (pure value) (pure value) (pure value)
      (Reaches seen hops none initialising scopes p) := fun _ => .pure ⟨h, .refl none p⟩
  have hfail : Follows seen hops p
      (fail name.line (.undefinedProperty name.lexeme) : Scriptlet.Run Value)
      (fail name.line (.undefinedProperty name.lexeme))
      (fail name.line (.undefinedProperty name.lexeme))
      (Reaches seen hops none initialising scopes p) := .stop h.agrees _
  have hobjects : p.state.objects[object]? = p.machine.store.objects[object]? := by
    rw [h.agrees.objects]
  refine Follows.asking ?_
  rw [hobjects]
  cases p.machine.store.objects[object]? with
  | none => exact hfail.of_eq rfl rfl rfl
  | some o =>
    dsimp only [Option.bind_some]
    cases o.fields.get? name.lexeme with
    | some value => exact hreturn value
    | none =>
      refine Follows.asking ?_
      rcases h.agrees.classes.lookup o.classId with ⟨hnone, hnone'⟩ | ⟨c, c', hc, hc', hsame⟩
      · rw [hnone, hnone']
        exact hfail
      · rw [hc, hc', Option.bind_some, Option.bind_some]
        rcases hsame.method name.lexeme with ⟨hnone, hnone'⟩ |
          ⟨routine, frame, env, around, hmethod, hmethod', hlies, hsites⟩
        · rw [hnone, hnone']
          exact hfail
        · rw [hmethod, hmethod']
          exact h.bindMethod hlies hsites object

/-- Entering a value with as many arguments as it takes. -/
theorem Executes.enter (hexecutes : Executes seen hops plain watched lexical)
    (hsettled : ∀ site ∈ seen, site.Settled hops) (h : Stands seen hops initialising scopes p)
    (callee : Value) (paren : Token) (arguments : List Value)
    (harity : p.machine.store.arity? callee = some arguments.length) :
    Follows seen hops p (Machine.enter plain callee paren arguments)
      (Machine.enter watched callee paren arguments)
      (Lexical.enter lexical callee paren arguments)
      (Reaches seen hops none initialising scopes p) := by
  cases callee with
  | function id =>
    refine Follows.asking ?_
    rcases h.agrees.functions.lookup id with ⟨hnone, hnone'⟩ | ⟨c, c', hc, hc', hsame⟩
    · rw [hnone, hnone']
      exact .pure ⟨h, .refl none p⟩
    · rw [hc, hc']
      simp only [Store.arity?, hc, Option.map_some, Option.some.injEq] at harity
      exact hexecutes.callClosure hsettled h hsame arguments harity.symm
  | classRef id =>
    exact (h.makeObject { classId := id }).bind fun _ _ hreaches => .pure hreaches
  | _ => exact h.readClock paren.line

/-- Calling a value. -/
theorem Executes.callValue (hexecutes : Executes seen hops plain watched lexical)
    (hsettled : ∀ site ∈ seen, site.Settled hops) (h : Stands seen hops initialising scopes p)
    (callee : Value) (paren : Token) (arguments : List Value) :
    Follows seen hops p (Machine.callValue plain callee paren arguments)
      (Machine.callValue watched callee paren arguments)
      (Lexical.callValue lexical callee paren arguments)
      (Reaches seen hops none initialising scopes p) := by
  refine Follows.asking ?_
  rw [h.agrees.arity?]
  cases harity : p.machine.store.arity? callee with
  | none => exact .stop h.agrees _
  | some arity =>
    dsimp only
    split
    · rename_i hlength
      subst hlength
      exact hexecutes.enter hsettled h callee paren arguments harity
    · exact .stop h.agrees _

/-- A block runs in a new frame around which the current chain lies. -/
theorem Executes.block (hexecutes : Executes seen hops plain watched lexical)
    (h : Stands seen hops none scopes p) (body : List Stmt)
    (hsites : Stmt.sitesOfAll (.empty :: scopes) body ⊆ seen) :
    Follows seen hops p
      (do
        let scope ← currentScope
        let frame ← Machine.make fun s => s.addFrame { enclosing := some scope }
        Machine.within frame (executeAll plain body))
      (do
        let scope ← currentScope
        let frame ← Machine.make fun s => s.addFrame { enclosing := some scope }
        Machine.within frame (executeAll watched body))
      (do
        let env ← Lexical.ask State.env
        Lexical.within env.inside (executeAll lexical body))
      (Reaches seen hops none none scopes p) := by
  have hentered := Stands.enter h.agrees h.lies
  have hinside := hexecutes.all body hentered hsites
  have hgrows := (Grows.addFrame p.layout p.machine.store
    { enclosing := some p.machine.scope }).weaken (some p.machine.store.frames.size)
  have hwithin : Follows seen hops
      ⟨p.layout, { p.machine with
          store := (p.machine.store.addFrame { enclosing := some p.machine.scope }).2 }, p.state⟩
      (Machine.within p.machine.store.frames.size (executeAll plain body))
      (Machine.within p.machine.store.frames.size (executeAll watched body))
      (Lexical.within p.state.env.inside (executeAll lexical body))
      (Reaches seen hops none none scopes p) := by
    refine Follows.within hinside ?_
    rintro _ q ⟨hagrees, hleads⟩
    exact h.back hagrees ((hgrows.trans hleads.grows).strengthen (Nat.le_refl _)) hleads.globals
  exact hwithin.of_eq rfl rfl rfl

end Scriptlet.Lexical
