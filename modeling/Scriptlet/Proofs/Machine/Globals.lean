import Mathlib.Data.Set.Insert
import Mathlib.Data.Set.Lattice
import Scriptlet.Proofs.Binding.Sites
import Scriptlet.Proofs.Machine.Scope

/-!
# Which names the globals bind

A name is declared in the frame that is current, and an assignment declares none. Blocks and
calls make frames of their own and act inside these, so that nothing which is evaluated or
executed binds a new name in a frame that was there before, save a declaration that stands in
that frame itself. At the top level a statement therefore adds the name that it declares,
if it comes to its end, and else none.
-/

namespace Scriptlet

/-- The names that statements declare themselves. -/
def Program.declaredNames (program : Program) : Set String :=
  {name | ∃ s ∈ program, ∃ token, s.declared? = some token ∧ token.lexeme = name}

/-- No statement declares no name. -/
@[simp] theorem Program.declaredNames_nil : declaredNames [] = ∅ :=
  Set.eq_empty_of_forall_notMem fun _ ⟨_, hs, _⟩ => List.not_mem_nil hs

/-- The names that a statement and those behind it declare. -/
theorem Program.declaredNames_cons (s : Stmt) (rest : Program) :
    declaredNames (s :: rest) = declaredNames [s] ∪ declaredNames rest := by
  ext name
  constructor
  · rintro ⟨first, hfirst, hname⟩
    rcases List.mem_cons.mp hfirst with rfl | hrest
    · exact Or.inl ⟨first, List.mem_singleton_self first, hname⟩
    · exact Or.inr ⟨first, hrest, hname⟩
  · rintro (⟨first, hfirst, hname⟩ | ⟨first, hfirst, hname⟩)
    · exact ⟨first, List.mem_cons.mpr (Or.inl (List.mem_singleton.mp hfirst)), hname⟩
    · exact ⟨first, List.mem_cons_of_mem s hfirst, hname⟩

/-- A statement that declares a name itself declares just that one. -/
theorem Program.declaredNames_of_some {s : Stmt} {token : Token} (h : s.declared? = some token) :
    declaredNames [s] = {token.lexeme} := by
  ext name
  constructor
  · rintro ⟨first, hfirst, other, hother, rfl⟩
    rw [List.mem_singleton.mp hfirst, h] at hother
    cases hother
    exact rfl
  · rintro rfl
    exact ⟨s, List.mem_singleton_self s, token, h, rfl⟩

/-- A statement that declares no name itself. -/
theorem Program.declaredNames_of_none {s : Stmt} (h : s.declared? = none) :
    declaredNames [s] = ∅ := by
  refine Set.eq_empty_of_forall_notMem ?_
  rintro name ⟨first, hfirst, other, hother, -⟩
  rw [List.mem_singleton.mp hfirst, h] at hother
  cases hother

/-- A statement whose branches declare nothing. -/
def Stmt.Plain (s : Stmt) : Prop := s.declared? = none → s.declares = false

namespace Machine

/-- The names that the globals bind. -/
def globalNames (m : Machine) : Set String := {name | m.store.binds m.globals name = true}

/-- What a machine became, seen from a frame: the frame binds the names that it bound, frames
are still there, and the current frame is the same. -/
structure Spared (g : FrameId) (m after : Machine) : Prop where
  /-- The current frame is the same. -/
  scope : after.scope = m.scope
  /-- No frame is lost. -/
  size : m.store.frames.size ≤ after.store.frames.size
  /-- The frame binds the same names. -/
  binds : ∀ name, after.store.binds g name = m.store.binds g name

namespace Spared

variable {g : FrameId} {m middle after : Machine}

/-- A machine that stays as it is. -/
theorem refl (g : FrameId) (m : Machine) : Spared g m m := ⟨rfl, Nat.le_refl _, fun _ => rfl⟩

/-- A machine that becomes one and then another. -/
theorem trans (h : Spared g m middle) (h' : Spared g middle after) : Spared g m after :=
  ⟨h'.scope.trans h.scope, Nat.le_trans h.size h'.size,
    fun name => (h'.binds name).trans (h.binds name)⟩

end Spared

/-- However an action ends, it binds no new name in a frame that is there. -/
def Spares {α : Type} (g : FrameId) (action : Run α) (m : Machine) : Prop :=
  g < m.store.frames.size → Spared g m (reached (action m))

namespace Spares

variable {α β : Type} {g : FrameId} {m : Machine}

/-- An action that keeps the frames and the current one. -/
theorem framesKept {action : Run α} (hscope : (reached (action m)).scope = m.scope)
    (hframes : (reached (action m)).store.frames = m.store.frames) : Spares g action m := by
  intro _
  refine ⟨hscope, Nat.le_of_eq (congrArg Array.size hframes.symm), fun name => ?_⟩
  unfold Store.binds Store.local?
  rw [hframes]

/-- An action that leaves the machine alone. -/
theorem still {action : Run α} (h : reached (action m) = m) : Spares g action m :=
  framesKept (congrArg Machine.scope h) (congrArg (fun m : Machine => m.store.frames) h)

/-- A value changes nothing. -/
theorem pure (a : α) : Spares g (Pure.pure a) m := still rfl

/-- Taking a result over changes nothing. -/
theorem ofExcept (result : Except RuntimeError α) : Spares g (Machine.ofExcept result) m := by
  cases result <;> exact still rfl

/-- One action after another, from the machine that the first leaves behind. -/
theorem bind {first : Run β} {next : β → Run α} (h : Spares g first m)
    (hnext : ∀ b after, after.scope = m.scope → Spares g (next b) after) :
    Spares g (first >>= next) m := by
  intro hg
  have hfirst := h hg
  change Spared g m (reached (EStateM.bind first next m))
  unfold EStateM.bind
  cases heq : first m with
  | ok b after =>
    rw [heq] at hfirst
    exact hfirst.trans (hnext b after hfirst.scope (Nat.lt_of_lt_of_le hg hfirst.size))
  | error stop after =>
    rw [heq] at hfirst
    exact hfirst

/-- Going on with what the store says. -/
theorem asking {f : Store → β} {next : β → Run α} (h : Spares g (next (f m.store)) m) :
    Spares g (ask f >>= next) m := h

/-- Going on with the current frame. -/
theorem here {next : FrameId → Run α} (h : Spares g (next m.scope) m) :
    Spares g (currentScope >>= next) m := h

/-- A name is defined in another frame. -/
theorem define (name : String) (value : Value) (hscope : m.scope ≠ g) :
    Spares g (Machine.define name value) m := by
  refine fun _ => ⟨rfl, Nat.le_of_eq (m.store.size_define _ _ _).symm, fun sought => ?_⟩
  change (m.store.define m.scope name value).binds g sought = _
  by_cases hsize : m.scope < m.store.frames.size
  · rw [m.store.binds_define m.scope g name sought value hsize,
      decide_eq_false fun heq => hscope heq.1, Bool.false_or]
  · unfold Store.define Store.binds Store.local?
    dsimp only
    rw [Array.getElem?_modify, if_neg hscope]

/-- A name that a frame binds is overwritten there. -/
theorem writeName (id : Nat) (name : Token) (value : Value) :
    Spares g (Machine.writeName id name value) m := by
  intro _
  unfold Machine.writeName
  split
  · rename_i frame hframe
    have hbound := (Option.filter_eq_some_iff.mp hframe).2
    refine ⟨rfl, Nat.le_of_eq (m.store.size_define _ _ _).symm, fun sought => ?_⟩
    change (m.store.define frame name.lexeme value).binds g sought = _
    rw [m.store.binds_define frame g name.lexeme sought value (Store.lt_size_of_binds hbound)]
    by_cases heq : frame = g ∧ name.lexeme = sought
    · obtain ⟨rfl, rfl⟩ := heq
      rw [hbound, Bool.or_true]
    · rw [decide_eq_false heq, Bool.false_or]
  · exact .refl g m

/-- Adding a frame binds no name in those that are there. -/
theorem addFrame {f : Store → Frame} : Spares g (make fun s => s.addFrame (f s)) m := by
  intro hg
  have hsize : m.store.frames.size ≤ (m.store.addFrame (f m.store)).2.frames.size := by
    rw [Store.size_addFrame]
    exact Nat.le_succ _
  refine ⟨rfl, hsize, fun name => ?_⟩
  change (m.store.addFrame (f m.store)).2.binds g name = _
  unfold Store.binds
  rw [Store.local?_addFrame, if_neg (Nat.ne_of_lt hg)]

/-- An action inside a frame that is made for it. -/
theorem inside {action : FrameId → Run α} {frame : Frame}
    (h : ∀ id (m : Machine), m.scope ≠ g → Spares g (action id) m) :
    Spares g (make (fun s => s.addFrame frame) >>= fun id => within id (action id)) m := by
  intro hg
  have hadded : Spared g m { m with store := (m.store.addFrame frame).2 } :=
    addFrame (f := fun _ => frame) hg
  have hinside := h m.store.frames.size
    { m with store := (m.store.addFrame frame).2, scope := m.store.frames.size }
    (Nat.ne_of_gt hg) (Nat.lt_of_lt_of_le hg hadded.size)
  change Spared g m (reached (within m.store.frames.size _
    { m with store := (m.store.addFrame frame).2 }))
  unfold within
  dsimp only
  cases heq : action m.store.frames.size
      { m with store := (m.store.addFrame frame).2, scope := m.store.frames.size } <;>
    rw [heq] at hinside <;>
    exact ⟨rfl, Nat.le_trans hadded.size hinside.size,
      fun name => (hinside.binds name).trans (hadded.binds name)⟩

/-- Expressions one after the other. -/
theorem evaluateAll {evaluate : Expr → Run Value} (h : ∀ e m, Spares g (evaluate e) m)
    (es : List Expr) (m : Machine) : Spares g (Machine.evaluateAll evaluate es) m := by
  induction es generalizing m with
  | nil => exact pure []
  | cons e rest ih =>
    exact (h e m).bind fun _ after _ => (ih after).bind fun _ _ _ => pure _

/-- Statements one after the other, inside another frame. -/
theorem executeAll {execute : Stmt → Run Flow}
    (h : ∀ s (m : Machine), m.scope ≠ g → Spares g (execute s) m) (body : List Stmt) (m : Machine)
    (hm : m.scope ≠ g) : Spares g (Machine.executeAll execute body) m := by
  induction body generalizing m with
  | nil => exact pure _
  | cons s rest ih =>
    refine (h s m hm).bind fun flow after hscope => ?_
    cases flow with
    | normal => exact ih after (hscope ▸ hm)
    | returned value => exact pure _

/-- A loop whose condition and body bind no new name when the current frame is this one. -/
theorem repeatWhile {condition : Run Value} {body : Run Flow} {scope : FrameId}
    (hcondition : ∀ m, Spares g condition m)
    (hbody : ∀ m : Machine, m.scope = scope → Spares g body m) (fuel : Nat) (m : Machine)
    (hm : m.scope = scope) : Spares g (Machine.repeatWhile condition body fuel) m := by
  induction fuel generalizing m with
  | zero => exact still rfl
  | succ fuel ih =>
    refine (hcondition m).bind fun holds middle hmiddle => ?_
    split
    · refine (hbody middle (hmiddle.trans hm)).bind fun flow after hafter => ?_
      cases flow with
      | normal => exact ih after (hafter.trans (hmiddle.trans hm))
      | returned value => exact pure _
    · exact pure _

/-- Binding a method binds its receiver in a frame of its own. -/
theorem bindMethod (object : ObjectId) (method : Closure) :
    Spares g (Machine.bindMethod object method) m :=
  addFrame.bind fun _ _ _ => (framesKept rfl rfl).bind fun _ _ _ => pure _

/-- A property is found, or bound as a method. -/
theorem property (object : ObjectId) (name : Token) :
    Spares g (Machine.property object name) m := by
  refine asking ?_
  split
  · exact pure _
  · refine asking ?_
    split
    · exact bindMethod object _
    · exact still rfl

/-- The clock is read, or shows no time. -/
theorem readClock (line : Nat) : Spares g (Machine.readClock line) m := by
  refine framesKept ?_ ?_ <;> rw [reached_readClock]

variable {execute : Stmt → Run Flow}

/-- A call acts inside the frame of the call. -/
theorem enter (h : ∀ s (m : Machine), m.scope ≠ g → Spares g (execute s) m) (callee : Value)
    (paren : Token) (arguments : List Value) :
    Spares g (Machine.enter execute callee paren arguments) m := by
  cases callee with
  | function id =>
    refine asking ?_
    split
    · rename_i closure _
      have hbody : Spares g (make (fun s => s.addFrame (callFrame closure arguments)) >>= fun frame =>
          within frame (Machine.executeAll execute closure.routine.body)) m :=
        inside fun _ => executeAll h _
      refine hbody.bind fun flow _ _ => ?_
      cases flow <;> exact pure _
    · exact pure _
  | classRef id => exact (framesKept rfl rfl).bind fun _ _ _ => pure _
  | _ => exact readClock paren.line

/-- Calling a value, whatever it is. -/
theorem callValue (h : ∀ s (m : Machine), m.scope ≠ g → Spares g (execute s) m) (callee : Value)
    (paren : Token) (arguments : List Value) :
    Spares g (Machine.callValue execute callee paren arguments) m := by
  refine asking ?_
  cases m.store.arity? callee with
  | none => exact still rfl
  | some arity =>
    dsimp only
    split
    · exact enter h callee paren arguments
    · exact still rfl

/-- Printing a line. -/
theorem printLine (value : Value) : Spares g (Machine.printLine value) m := by
  intro _
  unfold Machine.printLine
  dsimp only
  split <;> exact ⟨rfl, Nat.le_refl _, fun _ => rfl⟩

end Spares

/-- Evaluating an expression binds no new name in a frame that is there, and executing a
statement does so only where the statement declares a name in that frame. -/
theorem evaluate_execute_spare (g : FrameId) (fuel : Nat) :
    (∀ e m, Spares g (evaluate fuel e) m) ∧
      ∀ s (m : Machine), (m.scope = g → s.declares = false) → Spares g (execute fuel s) m := by
  unfold evaluate execute
  induction fuel with
  | zero =>
    constructor
    · intro e m
      rw [evaluateBy]
      exact .still rfl
    · intro s m _
      rw [executeBy]
      exact .still rfl
  | succ fuel ih =>
    obtain ⟨he, hs⟩ := ih
    -- In a frame of its own a body may declare what it likes.
    have hinside : ∀ s (m : Machine), m.scope ≠ g → Spares g (executeBy .recorded fuel s) m :=
      fun s m hm => hs s m fun heq => absurd heq hm
    have hread : ∀ id name (m : Machine), Spares g (readName id name) m := by
      intro id name m
      refine .still ?_
      unfold readName
      split <;> rfl
    constructor
    · intro e m
      cases e with
      | literal id value => exact .pure _
      | group id inner => exact he inner m
      | unary id operator operand => exact (he operand m).bind fun _ _ _ => .ofExcept _
      | binary id left operator right =>
        exact (he left m).bind fun _ after _ => (he right after).bind fun _ _ _ => .ofExcept _
      | logical id left operator right =>
        refine (he left m).bind fun a after _ => ?_
        split
        · exact .pure _
        · exact he right after
      | var id name => exact hread id name m
      | receiver id keyword => exact hread id keyword m
      | assign id name value =>
        exact (he value m).bind fun a after _ =>
          (Spares.writeName id name a).bind fun _ _ _ => .pure _
      | call id callee paren arguments =>
        exact (he callee m).bind fun f middle _ =>
          (Spares.evaluateAll he arguments middle).bind fun given after _ =>
            .callValue hinside f paren given
      | get id object name =>
        refine (he object m).bind fun o after _ => ?_
        cases o with
        | object id => exact .property id name
        | _ => exact .still rfl
      | set id object name value =>
        refine (he object m).bind fun o middle _ => ?_
        cases o with
        | object id =>
          exact (he value middle).bind fun a after _ =>
            (Spares.framesKept rfl rfl).bind fun _ _ _ => .pure _
        | _ => exact .still rfl
    · intro s m hm
      cases s with
      | expr value => exact (he value m).bind fun _ _ _ => .pure _
      | print value =>
        exact (he value m).bind fun a _ _ => (Spares.printLine a).bind fun _ _ _ => .pure _
      | var name initial =>
        have hother : m.scope ≠ g := fun heq => Bool.noConfusion (hm heq)
        cases initial with
        | none => exact (Spares.define _ _ hother).bind fun _ _ _ => .pure _
        | some initial =>
          exact (he initial m).bind fun a after hscope =>
            (Spares.define _ _ (hscope ▸ hother)).bind fun _ _ _ => .pure _
      | block body => exact .here (.inside fun _ => Spares.executeAll hinside body)
      | ifThen condition yes =>
        refine (he condition m).bind fun a after hscope => ?_
        split
        · exact hs yes after fun heq => hm (hscope ▸ heq)
        · exact .pure _
      | ifElse condition yes no =>
        refine (he condition m).bind fun a after hscope => ?_
        have hbranches := fun heq => Bool.or_eq_false_iff.mp (hm (hscope ▸ heq))
        split
        · exact hs yes after fun heq => (hbranches heq).1
        · exact hs no after fun heq => (hbranches heq).2
      | loop condition body =>
        have hbody : ∀ middle : Machine, middle.scope = m.scope →
            Spares g (executeBy .recorded fuel body) middle :=
          fun middle hscope => hs body middle fun heq => hm (hscope.symm.trans heq)
        exact Spares.repeatWhile (he condition) hbody fuel m rfl
      | function routine =>
        have hother : m.scope ≠ g := fun heq => Bool.noConfusion (hm heq)
        exact .here ((Spares.framesKept rfl rfl).bind fun _ after hscope =>
          (Spares.define _ _ (hscope ▸ hother)).bind fun _ _ _ => .pure _)
      | ret keyword value =>
        cases value with
        | none => exact .pure _
        | some value => exact (he value m).bind fun _ _ _ => .pure _
      | classDecl name methods =>
        have hother : m.scope ≠ g := fun heq => Bool.noConfusion (hm heq)
        exact .here ((Spares.framesKept rfl rfl).bind fun _ after hscope =>
          (Spares.define _ _ (hscope ▸ hother)).bind fun _ _ _ => .pure _)

/-- A name that is defined in the globals is one of their names from then on. -/
theorem globalNames_define {m : Machine} (hscope : m.scope = m.globals)
    (hglobals : m.globals < m.store.frames.size) (name : String) (value : Value) :
    globalNames { m with store := m.store.define m.scope name value } =
      m.globalNames ∪ {name} := by
  ext sought
  have hbinds := m.store.binds_define m.scope m.globals name sought value (hscope ▸ hglobals)
  change (m.store.define m.scope name value).binds m.globals sought = true ↔ _
  rw [hbinds, Bool.or_eq_true, decide_eq_true_iff]
  constructor
  · rintro (⟨-, rfl⟩ | hbound)
    · exact Or.inr rfl
    · exact Or.inl hbound
  · rintro (hbound | rfl)
    · exact Or.inr hbound
    · exact Or.inl ⟨hscope, rfl⟩

/-- What an action leaves the globals with: new names behind its end, and none if it stops. -/
structure Adds {α : Type} (names : Set String) (action : Run α) (m : Machine) : Prop where
  /-- Behind its end the globals have the new names. -/
  done : ∀ a after, action m = .ok a after →
    after.globalNames = m.globalNames ∪ names ∧ after.scope = m.scope ∧
      after.globals = m.globals ∧ m.store.frames.size ≤ after.store.frames.size
  /-- If it stops the globals have the names that they had. -/
  stopped : ∀ stop after, action m = .error stop after → after.globalNames = m.globalNames

/-- A frame that is spared and that the globals are binds the same names. -/
theorem Spared.globalNames {m after : Machine} (h : Spared m.globals m after)
    (hglobals : after.globals = m.globals) : after.globalNames = m.globalNames := by
  ext name
  change after.store.binds after.globals name = true ↔ m.store.binds m.globals name = true
  rw [hglobals, h.binds]

/-- An action that binds no new name in the globals adds none to them. -/
theorem Adds.of_spares {α : Type} {action : Run α} {m : Machine}
    (h : Spares m.globals action m) (hgoes : Goes .recorded action m)
    (hglobals : m.globals < m.store.frames.size) : Adds ∅ action m := by
  have hspared := h hglobals
  have hkept := Steps.scope_globals hgoes
  constructor
  · intro a after heq
    rw [heq] at hspared hkept
    rw [Set.union_empty]
    exact ⟨hspared.globalNames hkept.2, hspared.scope, hkept.2, hspared.size⟩
  · intro stop after heq
    rw [heq] at hspared hkept
    exact hspared.globalNames hkept.2

/-- The value of a declaration is found without binding a name, and is then defined in the globals
under the name of the declaration. -/
theorem Adds.define {first : Run Value} {m : Machine} (h : Adds ∅ first m)
    (hscope : m.scope = m.globals) (hglobals : m.globals < m.store.frames.size) (name : String) :
    Adds {name} (do
      let value ← first
      Machine.define name value
      return Flow.normal) m := by
  change Adds {name} (EStateM.bind first _) m
  obtain ⟨hdone, hstopped⟩ := h
  constructor
  · intro flow after heq
    unfold EStateM.bind at heq
    split at heq
    · rename_i value middle hfirst
      obtain ⟨hnames, hmiddle, houtermost, hsize⟩ := hdone value middle hfirst
      cases heq
      have hadded := globalNames_define (m := middle) (hmiddle.trans (hscope.trans houtermost.symm))
        (houtermost ▸ Nat.lt_of_lt_of_le hglobals hsize) name value
      rw [hnames, Set.union_empty] at hadded
      refine ⟨hadded, hmiddle, houtermost, ?_⟩
      rw [Store.size_define]
      exact hsize
    · cases heq
  · intro stop after heq
    unfold EStateM.bind at heq
    split at heq
    · cases heq
    · rename_i stop' middle hfirst
      cases heq
      exact hstopped _ _ hfirst

/-- A statement at the top level adds the name that it declares to the globals if it comes to its
end, and no name if it stops. -/
theorem execute_adds (fuel : Nat) {s : Stmt} (hs : s.Plain) {m : Machine}
    (hscope : m.scope = m.globals) (hglobals : m.globals < m.store.frames.size) :
    Adds (Program.declaredNames [s]) (execute fuel s) m := by
  cases hdeclared : s.declared? with
  | none =>
    rw [Program.declaredNames_of_none hdeclared]
    exact .of_spares ((evaluate_execute_spare m.globals fuel).2 s m fun _ => hs hdeclared)
      ((evaluate_execute_go fuel).2 s m) hglobals
  | some token =>
    rw [Program.declaredNames_of_some hdeclared]
    cases fuel with
    | zero =>
      constructor
      · intro flow after heq
        rw [execute, executeBy] at heq
        cases heq
      · intro stop after heq
        rw [execute, executeBy] at heq
        cases heq
        rfl
    | succ fuel =>
      obtain ⟨hspares, -⟩ := evaluate_execute_spare m.globals fuel
      obtain ⟨hgoes, -⟩ := evaluate_execute_go fuel
      cases s with
      | var name initial =>
        rw [← Option.some.inj hdeclared]
        cases initial with
        | none =>
          have hnil : Adds ∅ (Pure.pure Value.nil : Run Value) m :=
            .of_spares (.pure _) (.pure _) hglobals
          exact hnil.define hscope hglobals name.lexeme
        | some initial =>
          have hinitial : Adds ∅ (evaluate fuel initial) m :=
            .of_spares (hspares initial m) (hgoes initial m) hglobals
          exact hinitial.define hscope hglobals name.lexeme
      | function routine =>
        rw [← Option.some.inj hdeclared]
        have hmade : Adds ∅ (do
            let scope ← currentScope
            let id ← make fun s => s.addFunction ⟨routine, scope⟩
            return Value.function id) m :=
          .of_spares (.framesKept rfl rfl)
            (.here (.change rfl (.makeFunction routine) (.pure _))) hglobals
        exact hmade.define hscope hglobals routine.name.lexeme
      | classDecl name methods =>
        rw [← Option.some.inj hdeclared]
        have hmade : Adds ∅ (do
            let scope ← currentScope
            let id ← make fun s => s.addClass ⟨name.lexeme, methodTable scope methods⟩
            return Value.classRef id) m :=
          .of_spares (.framesKept rfl rfl)
            (.here (.change rfl (.makeClass name.lexeme methods) (.pure _))) hglobals
        exact hmade.define hscope hglobals name.lexeme
      | _ => cases hdeclared

/-- Statements at the top level one after the other add the names that they declare. -/
theorem executeProgramBy_adds (fuel : Nat) {program : Program} (hplain : ∀ s ∈ program, s.Plain)
    {m after : Machine} (hscope : m.scope = m.globals)
    (hglobals : m.globals < m.store.frames.size)
    (h : executeProgramBy .recorded fuel program m = .ok () after) :
    after.globalNames = m.globalNames ∪ Program.declaredNames program ∧
      after.scope = after.globals ∧ after.globals < after.store.frames.size := by
  induction program generalizing m with
  | nil =>
    cases h
    exact ⟨(by rw [Program.declaredNames_nil, Set.union_empty]), hscope, hglobals⟩
  | cons s rest ih =>
    obtain ⟨hs, hrest⟩ := List.forall_mem_cons.mp hplain
    change EStateM.bind (execute fuel s) _ m = _ at h
    unfold EStateM.bind at h
    split at h
    · rename_i flow middle hfirst
      obtain ⟨hnames, hmiddle, houtermost, hsize⟩ :=
        (execute_adds fuel hs hscope hglobals).done flow middle hfirst
      obtain ⟨hnames', hkept⟩ := ih hrest (hmiddle.trans (hscope.trans houtermost.symm))
        (houtermost ▸ Nat.lt_of_lt_of_le hglobals hsize) h
      refine ⟨?_, hkept⟩
      rw [hnames', hnames, Program.declaredNames_cons s rest, Set.union_assoc]
    · cases h

end Machine

end Scriptlet
