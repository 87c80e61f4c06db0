import Scriptlet.Proofs.Lexical.Pairing

/-!
# Standing at a place of a program

A machine and a state stand at a place when they agree, the chain of the current
frame agrees with the names in force as the open scopes of the place say, and
the current frame has no places but those of the innermost scope. Declaring and
initialising names, entering blocks and calls, and coming back from them lead
from one place to the next.
-/

namespace Scriptlet.Lexical

open Binding

/-- The machine and the state stand where these scopes are open; of the innermost
scope one name may be about to be initialised. -/
structure Stands (seen : List Site) (hops : Hops) (initialising : Option String)
    (scopes : List Scope) (p : Pairing) : Prop where
  /-- They agree. -/
  agrees : Agrees seen hops p
  /-- The chain of frames agrees with the names in force. -/
  lies : Lies p.layout p.machine.store p.machine.globals initialising p.machine.scope scopes
    p.state.env
  /-- The current frame has no other places than those of the innermost scope. -/
  exact : ∀ name, (p.machine.scope, name) ∈ p.layout → isDeclared scopes name = true

/-- What is the same, and what has only grown, behind something that a program does. -/
structure Leads (gaining : Option FrameId) (p q : Pairing) : Prop where
  /-- Places, frames, links and names have only grown. -/
  grows : Grows gaining p.layout p.machine.store q.layout q.machine.store
  /-- The globals are the same. -/
  globals : q.machine.globals = p.machine.globals
  /-- The current frame is the same. -/
  scope : q.machine.scope = p.machine.scope

namespace Leads

variable {gaining : Option FrameId} {p q r : Pairing}

/-- Nothing changes. -/
theorem refl (gaining : Option FrameId) (p : Pairing) : Leads gaining p p :=
  ⟨.refl gaining _ _, rfl, rfl⟩

/-- One thing after another. -/
theorem trans (h : Leads gaining p q) (h' : Leads gaining q r) : Leads gaining p r :=
  ⟨h.grows.trans h'.grows, h'.globals.trans h.globals, h'.scope.trans h.scope⟩

/-- Where no frame gains names, one may be claimed to. -/
theorem weaken (h : Leads none p q) (gaining : Option FrameId) : Leads gaining p q :=
  ⟨h.grows.weaken gaining, h.globals, h.scope⟩

/-- Defining a name in some frame. -/
theorem define {frame : FrameId} (h : frame < p.machine.store.frames.size) (name : String)
    (value : Value) (state : State) :
    Leads none p
      ⟨p.layout, { p.machine with store := p.machine.store.define frame name value }, state⟩ :=
  ⟨Grows.define h p.layout name value, rfl, rfl⟩

end Leads

namespace Stands

variable {seen : List Site} {hops : Hops} {initialising : Option String} {scopes : List Scope}
  {p q : Pairing}

/-- The current frame exists. -/
theorem lt_size (h : Stands seen hops initialising scopes p) :
    p.machine.scope < p.machine.store.frames.size :=
  h.lies.lt_size h.agrees.exists_globals

/-- Whatever is done without declaring names here leads back to the same place. -/
theorem keep (h : Stands seen hops initialising scopes p) (hagrees : Agrees seen hops q)
    (hleads : Leads none p q) (henv : q.state.env = p.state.env) :
    Stands seen hops initialising scopes q := by
  refine ⟨hagrees, ?_, ?_⟩
  · rw [hleads.globals, hleads.scope, henv]
    exact h.lies.grows hleads.grows
  · intro name hmem
    rw [hleads.scope] at hmem
    rcases hleads.grows.fresh _ _ hmem with hold | hnew | hgains
    · exact h.exact name hold
    · exact absurd h.lt_size (Nat.not_lt_of_le hnew)
    · cases hgains

/-- Behind something done at another place, back in the frame and with the names of before. -/
theorem back (h : Stands seen hops initialising scopes p) (hagrees : Agrees seen hops q)
    (hgrows : Grows none p.layout p.machine.store q.layout q.machine.store)
    (hglobals : q.machine.globals = p.machine.globals) :
    Stands seen hops initialising scopes
        ⟨q.layout, { q.machine with scope := p.machine.scope },
          { q.state with env := p.state.env }⟩ ∧
      Leads none p
        ⟨q.layout, { q.machine with scope := p.machine.scope },
          { q.state with env := p.state.env }⟩ := by
  have hleads : Leads none p ⟨q.layout, { q.machine with scope := p.machine.scope },
      { q.state with env := p.state.env }⟩ := ⟨hgrows, hglobals, rfl⟩
  exact ⟨h.keep (hagrees.elsewhere _ _) hleads rfl, hleads⟩

/-- Back at the top level, whatever has happened. -/
theorem outside (h : Agrees seen hops p) :
    Stands seen hops none [] ⟨p.layout, { p.machine with scope := p.machine.globals },
      { p.state with env := none }⟩ := by
  refine ⟨h.elsewhere _ _, .top, ?_⟩
  intro name hmem
  exact absurd rfl (h.placed _ _ hmem).2

/-- Entering a new frame around which a captured chain lies. -/
theorem enter (h : Agrees seen hops p) {frame : FrameId} {env : Env}
    (hlies : Lies p.layout p.machine.store p.machine.globals none frame scopes env) :
    Stands seen hops none (.empty :: scopes)
      ⟨p.layout, { p.machine with
          store := (p.machine.store.addFrame { enclosing := some frame }).2
          scope := p.machine.store.frames.size }, { p.state with env := env.inside }⟩ := by
  have link : (p.machine.store.addFrame { enclosing := some frame }).2.enclosing?
      p.machine.store.frames.size = some frame := by
    rw [Store.enclosing?_addFrame, if_pos rfl]
  have around := hlies.grows (Grows.addFrame p.layout p.machine.store { enclosing := some frame })
  refine ⟨(h.addFrame (some frame)).elsewhere _ _, ?_, ?_⟩
  · refine .inner link around (fun x hx => by cases hx) ?_ (fun x hx => by cases hx)
      (fun x hx => by cases hx)
    intro x _
    cases env <;> rfl
  · intro name hmem
    exact absurd (h.placed _ _ hmem).1 (Nat.lt_irrefl _)

/-- Declaring a local name that the innermost scope does not declare yet. -/
theorem declare {scope : Scope} (h : Stands seen hops none (scope :: scopes) p) {name : String}
    (hfresh : scope.contains name = false) :
    ∃ layout, Stands seen hops (some name) (scope.insert name false :: scopes)
        ⟨layout, p.machine, p.state.declare name⟩ ∧
      Leads (some p.machine.scope) p ⟨layout, p.machine, p.state.declare name⟩ := by
  obtain ⟨hagrees, hlies, hexact⟩ := h
  have hgrows := Grows.declare p.layout p.machine.store p.machine.scope name
  have hfree : (p.machine.scope, name) ∉ p.layout := by
    intro hmem
    have hdeclared : scope.contains name = true := hexact name hmem
    rw [hfresh] at hdeclared
    cases hdeclared
  obtain ⟨outer, around, names, henv, link, haround, own, others, bound⟩ := hlies.innermost
  have hinside : p.machine.scope ≠ p.machine.globals := by
    intro heq
    rw [heq, hagrees.outermost] at link
    cases link
  have hdeclare : p.state.declare name = { p.state with
      env := some (names.insert name p.state.cells.size)
      cells := p.state.cells.push none } := by
    unfold State.declare
    rw [henv]
  refine ⟨p.layout ++ [(p.machine.scope, name)], ?_, hgrows, rfl, rfl⟩
  rw [hdeclare]
  refine ⟨(hagrees.declare (Store.lt_size_of_enclosing link) hinside hfree).elsewhere _ _, ?_, ?_⟩
  · refine .inner link (haround.grows hgrows) ?_ ?_ ?_ ?_
    · intro x hx
      rw [Table.get?_insert]
      by_cases heq : name = x
      · subst heq
        refine ⟨p.state.cells.size, if_pos rfl, ?_⟩
        rw [hagrees.cells]
        exact List.getElem?_concat_length
      · rw [if_neg heq]
        rw [Table.contains_insert, decide_eq_false heq, Bool.false_or] at hx
        obtain ⟨location, hlocation, hplace⟩ := own x hx
        exact ⟨location, hlocation, hgrows.place hplace⟩
    · intro x hx
      rw [Table.contains_insert, Bool.or_eq_false_iff, decide_eq_false_iff_not] at hx
      rw [Table.get?_insert, if_neg hx.1]
      exact others x hx.2
    · intro x hx
      rw [Table.contains_insert, Bool.or_eq_true, decide_eq_true_iff] at hx
      rcases hx with rfl | hx
      · exact Or.inl rfl
      · exact Or.inr ((bound x hx).resolve_left fun hnone => by cases hnone)
    · rintro x ⟨⟩
      rw [Table.get?_insert, if_pos rfl]
  · intro x hmem
    rw [isDeclared, Table.contains_insert, Bool.or_eq_true, decide_eq_true_iff]
    rcases List.mem_append.mp hmem with hold | hnew
    · exact Or.inr (hexact x hold)
    · cases List.mem_singleton.mp hnew
      exact Or.inl rfl

/-- Giving a declared local name its first value. -/
theorem fill {scope : Scope} (h : Stands seen hops initialising (scope :: scopes) p)
    {name : String} (hdeclared : scope.contains name = true)
    (hinit : initialising = none ∨ initialising = some name) (value : Value) :
    Stands seen hops none (scope.insert name true :: scopes)
        ⟨p.layout, { p.machine with store := p.machine.store.define p.machine.scope name value },
          p.state.put name value⟩ ∧
      Leads none p
        ⟨p.layout, { p.machine with store := p.machine.store.define p.machine.scope name value },
          p.state.put name value⟩ := by
  have hsize := h.lt_size
  obtain ⟨hagrees, hlies, hexact⟩ := h
  have hgrows := Grows.define hsize p.layout name value
  refine ⟨?_, Leads.define hsize name value _⟩
  obtain ⟨outer, around, names, henv, link, haround, own, others, bound⟩ := hlies.innermost
  obtain ⟨location, hlocation, hplace⟩ := own name hdeclared
  have hput : p.state.put name value =
      { p.state with cells := p.state.cells.setIfInBounds location (some value) } := by
    have hfind : p.state.env.find? name = some location := by
      rw [henv]
      exact hlocation
    unfold State.put
    rw [hfind]
  rw [hput]
  refine ⟨hagrees.assign hplace value, ?_, ?_⟩
  · dsimp only
    rw [henv]
    refine .inner (hgrows.links _ _ link) (haround.grows hgrows) ?_ ?_ ?_ (fun x hx => by cases hx)
    · intro x hx
      rw [Table.contains_insert, Bool.or_eq_true, decide_eq_true_iff] at hx
      rcases hx with rfl | hx
      · exact ⟨location, hlocation, hplace⟩
      · exact own x hx
    · intro x hx
      rw [Table.contains_insert, Bool.or_eq_false_iff] at hx
      exact others x hx.2
    · intro x hx
      right
      rw [Store.binds_define _ _ _ _ _ _ hsize, Bool.or_eq_true, decide_eq_true_iff]
      by_cases heq : name = x
      · exact Or.inl ⟨rfl, heq⟩
      · right
        rw [Table.contains_insert, decide_eq_false heq, Bool.false_or] at hx
        refine (bound x hx).resolve_left fun hx' => ?_
        rcases hinit with hnone | hsome
        · rw [hnone] at hx'
          cases hx'
        · rw [hsome] at hx'
          cases hx'
          exact heq rfl
  · intro x hmem
    rw [isDeclared, Table.contains_insert, Bool.or_eq_true]
    exact Or.inr (hexact x hmem)

/-- Giving a global name a value. -/
theorem fillGlobal (h : Stands seen hops initialising [] p) (name : String) (value : Value) :
    Stands seen hops none []
        ⟨p.layout, { p.machine with store := p.machine.store.define p.machine.scope name value },
          p.state.put name value⟩ ∧
      Leads none p
        ⟨p.layout, { p.machine with store := p.machine.store.define p.machine.scope name value },
          p.state.put name value⟩ := by
  have hsize := h.lt_size
  obtain ⟨hagrees, hlies, hexact⟩ := h
  obtain ⟨hscope, henv⟩ := hlies.outermost
  have hput : p.state.put name value =
      { p.state with globals := p.state.globals.insert name value } := by
    have hfind : p.state.env.find? name = none := by
      rw [henv]
      rfl
    unfold State.put
    rw [hfind]
  refine ⟨?_, Leads.define hsize name value _⟩
  rw [hput]
  refine ⟨?_, ?_, hexact⟩
  · rw [hscope]
    exact hagrees.assignGlobal name value
  · dsimp only
    rw [hscope, henv]
    exact .top

/-- Declaring a name where the innermost scope does not declare it yet. -/
theorem declareIn {name : Token} (h : Stands seen hops none scopes p)
    (hfresh : isDeclared scopes name.lexeme = false) :
    ∃ layout init, (init = none ∨ init = some name.lexeme) ∧
      Stands seen hops init (declareIn name scopes)
        ⟨layout, p.machine, p.state.declare name.lexeme⟩ ∧
      Leads (some p.machine.scope) p ⟨layout, p.machine, p.state.declare name.lexeme⟩ := by
  cases scopes with
  | nil =>
    have hdeclare : p.state.declare name.lexeme = p.state := by
      unfold State.declare
      rw [h.lies.outermost.2]
    rw [hdeclare]
    exact ⟨p.layout, none, Or.inl rfl, h, .refl _ p⟩
  | cons scope outer =>
    have hcontains : scope.contains name.lexeme = false := hfresh
    obtain ⟨layout, hstands, hleads⟩ := h.declare hcontains
    refine ⟨layout, some name.lexeme, Or.inr rfl, ?_, hleads⟩
    rw [Binding.declareIn, if_neg (by simp [hcontains])]
    exact hstands

/-- Giving a declared name its first value. -/
theorem completeIn {name : Token} (h : Stands seen hops initialising (Binding.declareIn name scopes) p)
    (hinit : initialising = none ∨ initialising = some name.lexeme) (value : Value) :
    Stands seen hops none (introduceIn name scopes)
        ⟨p.layout, { p.machine with
            store := p.machine.store.define p.machine.scope name.lexeme value },
          p.state.put name.lexeme value⟩ ∧
      Leads none p
        ⟨p.layout, { p.machine with
            store := p.machine.store.define p.machine.scope name.lexeme value },
          p.state.put name.lexeme value⟩ := by
  unfold introduceIn
  cases scopes with
  | nil => exact h.fillGlobal name.lexeme value
  | cons scope outer =>
    rw [Binding.declareIn] at h ⊢
    split
    · rename_i hcontains
      rw [if_pos hcontains] at h
      exact h.fill hcontains hinit value
    · rename_i hcontains
      rw [if_neg hcontains] at h
      exact h.fill (by simp) hinit value

/-- Declaring a name together with its value. -/
theorem introduceIn {name : Token} (h : Stands seen hops none scopes p)
    (hfresh : isDeclared scopes name.lexeme = false) (value : Value) :
    ∃ layout, Stands seen hops none (introduceIn name scopes)
        ⟨layout, { p.machine with
            store := p.machine.store.define p.machine.scope name.lexeme value },
          p.state.introduce name.lexeme value⟩ ∧
      Leads (some p.machine.scope) p
        ⟨layout, { p.machine with
            store := p.machine.store.define p.machine.scope name.lexeme value },
          p.state.introduce name.lexeme value⟩ := by
  obtain ⟨layout, init, hinit, hstands, hleads⟩ := h.declareIn hfresh
  obtain ⟨hfilled, hleads'⟩ := hstands.completeIn hinit value
  exact ⟨layout, hfilled, hleads.trans (hleads'.weaken _)⟩

end Stands

end Scriptlet.Lexical
