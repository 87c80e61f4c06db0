import Scriptlet.Proofs.Receiver.Watch

/-!
# Programs that read the receiver

From a tidy machine that stands at a place, every expression and every statement of the
place does the same whether readings of the receiver are watched or not, and leads to a
tidy machine again by steps that keep receivers. There is one rule for each way to put
actions together, and one induction on the fuel.
-/

namespace Scriptlet.Receiver

open Binding Machine

variable {α β : Type} {root m after : Machine} {seen : List Site} {scopes : List Scope}
  {k? : Option Method} {frame : FrameId}

/-- A machine stays as it is. -/
theorem Kept.refl (h : Tidy root seen m) : Kept root seen m m := ⟨.refl m, h⟩

/-- What keeps a machine tidy, one after the other. -/
theorem Kept.trans {middle : Machine} (h : Kept root seen m middle)
    (h' : Kept root seen middle after) : Kept root seen m after :=
  ⟨h.steps.trans h'.steps, h'.tidy⟩

/-- From a machine an action does the same as a watched one, and keeps the machine tidy. -/
structure Faithful (root : Machine) (seen : List Site) (plain watched : Run α) (m : Machine) :
    Prop where
  /-- The watch is not set off. -/
  watch : watched m = plain m
  /-- However the action ends, it leaves a tidy machine behind. -/
  kept : Kept root seen m (reached (plain m))

namespace Faithful

variable {plain watched : Run α} {first watched' : Run β} {next next' : β → Run α}

/-- An action that leaves the machine alone. -/
theorem still (h : Tidy root seen m) (hwatch : watched m = plain m)
    (hstill : reached (plain m) = m) : Faithful root seen plain watched m :=
  ⟨hwatch, by rw [hstill]; exact .refl h⟩

/-- Ending with a value. -/
theorem pure (h : Tidy root seen m) (a : α) :
    Faithful root seen (Pure.pure a) (Pure.pure a) m := still h rfl rfl

/-- Taking a result over. -/
theorem ofExcept (h : Tidy root seen m) (result : Except RuntimeError α) :
    Faithful root seen (Machine.ofExcept result) (Machine.ofExcept result) m := by
  cases result <;> exact still h rfl rfl

/-- One action after another. -/
theorem bind (h : Faithful root seen first watched' m)
    (hnext : ∀ b after, first m = .ok b after → Kept root seen m after →
      Faithful root seen (next b) (next' b) after) :
    Faithful root seen (first >>= next) (watched' >>= next') m := by
  obtain ⟨hwatch, hkept⟩ := h
  have hplain : (first >>= next) m = EStateM.bind first next m := rfl
  have hwatched : (watched' >>= next') m = EStateM.bind watched' next' m := rfl
  unfold EStateM.bind at hplain hwatched
  rw [hwatch] at hwatched
  cases hfirst : first m with
  | ok b after =>
    rw [hfirst] at hplain hwatched hkept
    obtain ⟨hwatch', hkept'⟩ := hnext b after hfirst hkept
    refine ⟨hwatched.trans (hwatch'.trans hplain.symm), ?_⟩
    rw [hplain]
    exact hkept.trans hkept'
  | error stop after =>
    rw [hfirst] at hplain hwatched hkept
    refine ⟨hwatched.trans hplain.symm, ?_⟩
    rw [hplain]
    exact hkept

/-- Going on with what the store says. -/
theorem asking {f : Store → β} (h : Faithful root seen (next (f m.store)) (next' (f m.store)) m) :
    Faithful root seen (ask f >>= next) (ask f >>= next') m := ⟨h.watch, h.kept⟩

/-- Going on after one change. -/
theorem step {b : β} (hfirst : first m = .ok b after) (hkept : Kept root seen m after)
    (h : Faithful root seen (next b) (next' b) after) :
    Faithful root seen (first >>= next) (first >>= next') m := by
  have hreached : reached (first m) = after := by rw [hfirst]; rfl
  refine bind ⟨rfl, hreached ▸ hkept⟩ fun b' after' hsame _ => ?_
  rw [hfirst] at hsame
  cases hsame
  exact h

/-- Acting inside a frame that exists. -/
theorem within (h : Tidy root seen m) (hframe : frame < m.store.frames.size)
    (hinside : Faithful root seen plain watched { m with scope := frame }) :
    Faithful root seen (Machine.within frame plain) (Machine.within frame watched) m := by
  obtain ⟨hwatch, hsteps, htidy⟩ := hinside
  have hreached : reached (Machine.within frame plain m) =
      { reached (plain { m with scope := frame }) with scope := m.scope } := by
    unfold Machine.within
    cases plain { m with scope := frame } <;> rfl
  have hsize := (receivers_of_steps hsteps).1.frames.size_le
  have hscope := Nat.lt_of_lt_of_le (h.rooted.held _ .scope) hsize
  refine ⟨?_, ?_⟩
  · unfold Machine.within
    rw [hwatch]
  · rw [hreached]
    exact ⟨.within frame hframe hsteps, htidy.elsewhere hscope⟩

/-- Acting inside a new frame. -/
theorem inside {new : Frame} {action action' : FrameId → Run α}
    (hkept : Kept root seen m { m with store := (m.store.addFrame new).2 })
    (h : Faithful root seen (action m.store.frames.size) (action' m.store.frames.size)
      { m with store := (m.store.addFrame new).2, scope := m.store.frames.size }) :
    Faithful root seen
      (make (fun s => s.addFrame new) >>= fun id => Machine.within id (action id))
      (make (fun s => s.addFrame new) >>= fun id => Machine.within id (action' id)) m := by
  have hsize : m.store.frames.size < (m.store.addFrame new).2.frames.size := by
    rw [Store.size_addFrame]
    exact Nat.lt_succ_self _
  exact step rfl hkept (within hkept.tidy hsize h)

end Faithful

namespace Stands

variable {plain watched : Run α} {first watched' : Run β} {next next' : β → Run α}

/-- One action after another at one place. -/
theorem andThen (h : Stands root seen scopes k? m) (hfirst : Faithful root seen first watched' m)
    (hnext : ∀ b after, Stands root seen scopes k? after →
      Faithful root seen (next b) (next' b) after) :
    Faithful root seen (first >>= next) (watched' >>= next') m :=
  hfirst.bind fun b after _ hkept => hnext b after (h.keep hkept)

/-- A machine stands behind a statement as before it, since names are not frames. -/
theorem behind (h : Stands root seen scopes k? m) {s : Stmt}
    (hsites : s.sites scopes ⊆ placesIn seen k?) : Stands root seen (s.scopesAfter scopes) k? m :=
  ⟨h.tidy, h.plain, h.lies.behind h.plain s fun _ hsite => (h.settled (hsites hsite)).shaped⟩

/-- A machine stands behind the declaration of a name whose initial value is still to come. -/
theorem declareIn (h : Stands root seen scopes k? m) {name : Token}
    (hname : name.lexeme ≠ receiverName) : Stands root seen (Binding.declareIn name scopes) k? m :=
  ⟨h.tidy, h.plain, h.lies.declareIn h.plain hname⟩

end Stands

/-- Ending with a value where a machine stands. -/
theorem Stands.return (h : Stands root seen scopes k? m) (a : α) :
    Faithful root seen (pure a) (pure a) m := .pure h.tidy a

/-- Expressions are evaluated faithfully at every place. -/
def Evaluates (root : Machine) (seen : List Site) (plain watched : Expr → Run Value) : Prop :=
  ∀ scopes k? e m, Stands root seen scopes k? m → e.sites scopes ⊆ placesIn seen k? →
    Faithful root seen (plain e) (watched e) m

/-- Statements are executed faithfully at every place. -/
def Executes (root : Machine) (seen : List Site) (plain watched : Stmt → Run Flow) : Prop :=
  ∀ scopes k? s m, Stands root seen scopes k? m → s.sites scopes ⊆ placesIn seen k? →
    Faithful root seen (plain s) (watched s) m

section Rules

variable {plain watched : Expr → Run Value} {body body' : Stmt → Run Flow} {name : Token}

/-- Expressions one after the other. -/
theorem Evaluates.all (hevaluates : Evaluates root seen plain watched) (es : List Expr)
    (h : Stands root seen scopes k? m) (hsites : Expr.sitesOfAll scopes es ⊆ placesIn seen k?) :
    Faithful root seen (evaluateAll plain es) (evaluateAll watched es) m := by
  induction es generalizing m with
  | nil => exact h.return []
  | cons e rest ih =>
    obtain ⟨hfirst, hrest⟩ := List.append_subset.mp hsites
    refine h.andThen (hevaluates scopes k? e m h hfirst) fun value middle hmiddle => ?_
    exact hmiddle.andThen (ih hmiddle hrest) fun others after hafter => hafter.return _

/-- Statements one after the other. -/
theorem Executes.all (hexecutes : Executes root seen body body') (statements : List Stmt)
    (h : Stands root seen scopes k? m)
    (hsites : Stmt.sitesOfAll scopes statements ⊆ placesIn seen k?) :
    Faithful root seen (executeAll body statements) (executeAll body' statements) m := by
  induction statements generalizing scopes m with
  | nil => exact h.return _
  | cons s rest ih =>
    obtain ⟨hfirst, hrest⟩ := List.append_subset.mp hsites
    refine h.andThen (hexecutes scopes k? s m h hfirst) fun flow after hafter => ?_
    cases flow with
    | returned value => exact hafter.return _
    | normal => exact ih (hafter.behind hfirst) hrest

/-- A loop. -/
theorem Executes.repeat (hexecutes : Executes root seen body body')
    (hevaluates : Evaluates root seen plain watched) {condition : Expr} {s : Stmt}
    (hcondition : condition.sites scopes ⊆ placesIn seen k?)
    (hs : s.sites scopes ⊆ placesIn seen k?) (fuel : Nat) (h : Stands root seen scopes k? m) :
    Faithful root seen (repeatWhile (plain condition) (body s) fuel)
      (repeatWhile (watched condition) (body' s) fuel) m := by
  induction fuel generalizing m with
  | zero => exact .still h.tidy rfl rfl
  | succ fuel ih =>
    refine h.andThen (hevaluates scopes k? condition m h hcondition) fun value middle hmiddle => ?_
    cases value.isTruthy with
    | false => exact hmiddle.return _
    | true =>
      refine hmiddle.andThen (hexecutes scopes k? s middle hmiddle hs) fun flow after hafter => ?_
      cases flow with
      | returned value => exact hafter.return _
      | normal => exact ih hafter

/-- The clock is read, or shows no time. -/
theorem Tidy.readClock (h : Tidy root seen m) (line : Nat) :
    Faithful root seen (Machine.readClock line) (Machine.readClock line) m := by
  refine ⟨rfl, ?_⟩
  rw [reached_readClock]
  exact h.same .readClock (fun _ _ => rfl) rfl rfl rfl

/-- A value that takes as many arguments as are given is called. -/
theorem Executes.enter (hexecutes : Executes root seen body body') (h : Tidy root seen m)
    (callee : Value) (paren : Token) (arguments : List Value) :
    Faithful root seen (Machine.enter body callee paren arguments)
      (Machine.enter body' callee paren arguments) m := by
  cases callee with
  | function id =>
    refine .asking ?_
    cases hclosure : m.store.functions[id]? with
    | none => exact .pure h _
    | some closure =>
      obtain ⟨hkept, scopes, k?, hsites, hstands⟩ := h.openCall hclosure arguments
      have hbody : Faithful root seen
          (make (fun s => s.addFrame (callFrame closure arguments)) >>= fun frame =>
            within frame (executeAll body closure.routine.body))
          (make (fun s => s.addFrame (callFrame closure arguments)) >>= fun frame =>
            within frame (executeAll body' closure.routine.body)) m :=
        .inside hkept (hexecutes.all _ hstands hsites)
      refine hbody.bind fun flow after _ hafter => ?_
      cases flow <;> exact .pure hafter.tidy _
  | classRef id =>
    have hkept : Kept root seen m { m with store := (m.store.addObject { classId := id }).2 } :=
      h.same (.makeObject id) (fun _ _ => rfl) rfl rfl rfl
    exact .step rfl hkept (.pure hkept.tidy _)
  | _ => exact h.readClock paren.line

/-- A value is called. -/
theorem Executes.callValue (hexecutes : Executes root seen body body') (h : Tidy root seen m)
    (callee : Value) (paren : Token) (arguments : List Value) :
    Faithful root seen (Machine.callValue body callee paren arguments)
      (Machine.callValue body' callee paren arguments) m := by
  refine .asking ?_
  cases m.store.arity? callee with
  | none => exact .still h rfl rfl
  | some arity =>
    dsimp only
    split
    · exact hexecutes.enter h callee paren arguments
    · exact .still h rfl rfl

/-- A property of an object that a target was evaluated to. -/
theorem Tidy.property (h : Tidy root seen m) {before : Machine} (hbefore : History root before)
    {fuel : Nat} {target : Expr} {object : ObjectId}
    (htarget : evaluate fuel target before = .ok (.object object) m) (name : Token) :
    Faithful root seen (Machine.property object name) (Machine.property object name) m := by
  refine .asking ?_
  cases hobject : m.store.objects[object]? with
  | none => exact .still h rfl rfl
  | some o =>
    dsimp only [Option.bind_some]
    cases hfield : o.fields.get? name.lexeme with
    | some value => exact .pure h value
    | none =>
      refine .asking ?_
      cases hclass : m.store.classes[o.classId]? with
      | none => exact .still h rfl rfl
      | some info =>
        dsimp only [Option.bind_some]
        cases hmethod : info.methods.get? name.lexeme with
        | none => exact .still h rfl rfl
        | some method =>
          exact ⟨rfl, h.bindMethod hbefore htarget hobject hfield hclass hmethod⟩

/-- A name other than the receiver is defined where the machine stands. -/
theorem Stands.define (h : Stands root seen scopes k? m) (hname : name.lexeme ≠ receiverName)
    (value : Value) : Faithful root seen (Machine.define name.lexeme value)
      (Machine.define name.lexeme value) m :=
  ⟨rfl, h.tidy.define h.lt_size hname value (.define name.lexeme value)⟩

/-- A name other than the receiver is overwritten. -/
theorem Stands.write (h : Stands root seen scopes k? m) (hname : name.lexeme ≠ receiverName)
    (id : Nat) (value : Value) :
    Faithful root seen (writeName id name value) (writeName id name value) m := by
  refine ⟨rfl, ?_⟩
  unfold writeName
  cases hframe : (m.frameOf? id name).filter fun frame => m.store.binds frame name.lexeme with
  | none => exact .refl h.tidy
  | some frame =>
    have hbinds := (Option.filter_eq_some_iff.mp hframe).2
    exact h.tidy.define (Store.lt_size_of_binds hbinds) hname value
      (.overwrite frame name.lexeme value hbinds)

/-- A line is printed. -/
theorem Stands.print (h : Stands root seen scopes k? m) (value : Value) :
    Faithful root seen (printLine value) (printLine value) m := by
  have hkept := h.tidy.same (.print value) (fun _ _ => rfl) rfl rfl rfl
  refine ⟨rfl, ?_⟩
  unfold printLine
  dsimp only
  split <;> exact hkept

end Rules

end Scriptlet.Receiver
