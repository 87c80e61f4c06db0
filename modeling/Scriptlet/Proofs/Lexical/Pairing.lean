import Scriptlet.Proofs.Lexical.Layout

/-!
# A machine and a state side by side

A machine agrees with a state under lexical scoping when every location holds
what its frame binds to its name, no other local name is bound, the globals are
the same, and functions, classes and objects correspond number by number. Each
function was captured at a frame whose chain agrees with the names its body
finds. What a program does to frames, bindings and the rest preserves this, one
lemma for each change.
-/

namespace Scriptlet.Lexical

open Binding

/-- Two arrays with related entries. -/
structure Alike {α β : Type} (related : α → β → Prop) (xs : Array α) (ys : Array β) : Prop where
  /-- There are as many entries. -/
  size : ys.size = xs.size
  /-- Entries at one index are related. -/
  entry : ∀ (i : Nat) a b, xs[i]? = some a → ys[i]? = some b → related a b

namespace Alike

variable {α β : Type} {related weaker : α → β → Prop} {xs : Array α} {ys : Array β} {a : α} {b : β}

/-- Related entries may be added at the end. -/
theorem push (h : Alike related xs ys) (hab : related a b) : Alike related (xs.push a) (ys.push b) where
  size := by rw [Array.size_push, Array.size_push, h.size]
  entry i c d hc hd := by
    rw [Array.getElem?_push] at hc hd
    rw [h.size] at hd
    split at hc
    · rename_i hi
      rw [if_pos hi] at hd
      cases hc
      cases hd
      exact hab
    · rename_i hi
      rw [if_neg hi] at hd
      exact h.entry i c d hc hd

/-- A weaker relation holds as well. -/
theorem mono (h : Alike related xs ys) (himp : ∀ a b, related a b → weaker a b) :
    Alike weaker xs ys :=
  ⟨h.size, fun i a b ha hb => himp a b (h.entry i a b ha hb)⟩

/-- Entries at one index exist on both sides or on neither. -/
theorem lookup (h : Alike related xs ys) (i : Nat) :
    xs[i]? = none ∧ ys[i]? = none ∨ ∃ a b, xs[i]? = some a ∧ ys[i]? = some b ∧ related a b := by
  by_cases hi : i < xs.size
  · have hi' : i < ys.size := h.size ▸ hi
    have ha := Array.getElem?_eq_getElem hi
    have hb := Array.getElem?_eq_getElem hi'
    exact Or.inr ⟨xs[i], ys[i], ha, hb, h.entry i _ _ ha hb⟩
  · have hi' : ¬ i < ys.size := h.size ▸ hi
    exact Or.inl ⟨Array.getElem?_eq_none (Nat.le_of_not_lt hi),
      Array.getElem?_eq_none (Nat.le_of_not_lt hi')⟩

end Alike

/-- A machine, a state, and where the locations of the state lie in the machine. -/
structure Pairing where
  /-- The places of the locations. -/
  layout : Layout
  /-- The machine. -/
  machine : Scriptlet.Machine
  /-- The state. -/
  state : State

variable (seen : List Site)

/-- Two closures of one routine, whose places have been seen in scopes that agree
with the chain of the one and the names of the other. -/
def SameClosure (layout : Layout) (store : Store) (globals : FrameId) (c : Scriptlet.Closure)
    (c' : Closure) : Prop :=
  c'.routine = c.routine ∧ ∃ scopes, Lies layout store globals none c.frame scopes c'.env ∧
    c.routine.sites scopes ⊆ seen

/-- Two classes of one declaration, whose methods have been seen so. -/
def SameClass (layout : Layout) (store : Store) (globals : FrameId) (c : Scriptlet.ClassInfo)
    (c' : ClassInfo) : Prop :=
  c'.name = c.name ∧ ∃ frame scopes env methods,
    c.methods = Machine.methodTable frame methods ∧ c'.methods = methodTable env methods ∧
    Lies layout store globals none frame scopes env ∧
    Routine.sitesOfAll (receiverScope :: scopes) methods ⊆ seen

/-- The machine and the state agree. -/
structure Agrees (hops : Hops) (p : Pairing) : Prop where
  /-- The recorded distances of the machine. -/
  distances : p.machine.hops = hops
  /-- Every location has a place. -/
  cells : p.state.cells.size = p.layout.length
  /-- A location holds what is bound at its place. -/
  values : ∀ (location : Location) frame name, p.layout[location]? = some (frame, name) →
    p.state.cells[location]? = some (p.machine.store.local? frame name)
  /-- No two locations have one place. -/
  distinct : p.layout.Nodup
  /-- Places lie in frames other than the globals. -/
  placed : ∀ frame name, (frame, name) ∈ p.layout →
    frame < p.machine.store.frames.size ∧ frame ≠ p.machine.globals
  /-- What is bound elsewhere than in the globals is the place of a location. -/
  listed : ∀ frame name, frame ≠ p.machine.globals →
    p.machine.store.binds frame name = true → (frame, name) ∈ p.layout
  /-- The globals exist. -/
  exists_globals : p.machine.globals < p.machine.store.frames.size
  /-- The globals are outermost. -/
  outermost : p.machine.store.enclosing? p.machine.globals = none
  /-- The globals are the same. -/
  globals : ∀ name, p.state.globals.get? name = p.machine.store.local? p.machine.globals name
  /-- The functions correspond. -/
  functions : Alike (SameClosure seen p.layout p.machine.store p.machine.globals)
    p.machine.store.functions p.state.functions
  /-- The classes correspond. -/
  classes : Alike (SameClass seen p.layout p.machine.store p.machine.globals)
    p.machine.store.classes p.state.classes
  /-- The objects are the same. -/
  objects : p.state.objects = p.machine.store.objects
  /-- The output is the same. -/
  sink : p.state.sink = p.machine.sink
  /-- The clock is the same. -/
  clock : p.state.clock = p.machine.clock

variable {seen : List Site} {hops : Hops} {p : Pairing} {gaining : Option FrameId}
  {layout layout' : Layout} {store store' : Store} {globals : FrameId}

/-- Closures stay the same whatever a program does. -/
theorem SameClosure.grows {c : Scriptlet.Closure} {c' : Closure}
    (h : SameClosure seen layout store globals c c') (hgrows : Grows gaining layout store layout' store') :
    SameClosure seen layout' store' globals c c' := by
  obtain ⟨hroutine, scopes, hlies, hseen⟩ := h
  exact ⟨hroutine, scopes, hlies.grows hgrows, hseen⟩

/-- Classes stay the same whatever a program does. -/
theorem SameClass.grows {c : Scriptlet.ClassInfo} {c' : ClassInfo}
    (h : SameClass seen layout store globals c c') (hgrows : Grows gaining layout store layout' store') :
    SameClass seen layout' store' globals c c' := by
  obtain ⟨hname, frame, scopes, env, methods, hmethods, hmethods', hlies, hseen⟩ := h
  exact ⟨hname, frame, scopes, env, methods, hmethods, hmethods', hlies.grows hgrows, hseen⟩

namespace Agrees

/-- In which frame and with which names in force does not matter. -/
theorem elsewhere (h : Agrees seen hops p) (scope : FrameId) (env : Env) :
    Agrees seen hops ⟨p.layout, { p.machine with scope }, { p.state with env }⟩ :=
  ⟨h.distances, h.cells, h.values, h.distinct, h.placed, h.listed, h.exists_globals, h.outermost,
    h.globals, h.functions, h.classes, h.objects, h.sink, h.clock⟩

/-- More places have been seen, and the machine knows other distances. -/
theorem learn (h : Agrees seen hops p) {more : List Site} (hmore : seen ⊆ more) (known : Hops) :
    Agrees more known ⟨p.layout, { p.machine with hops := known }, p.state⟩ where
  distances := rfl
  cells := h.cells
  values := h.values
  distinct := h.distinct
  placed := h.placed
  listed := h.listed
  exists_globals := h.exists_globals
  outermost := h.outermost
  globals := h.globals
  functions := h.functions.mono fun _ _ ⟨hroutine, scopes, hlies, hseen⟩ =>
    ⟨hroutine, scopes, hlies, fun _ hsite => hmore (hseen hsite)⟩
  classes := h.classes.mono fun _ _ ⟨hname, frame, scopes, env, methods, heq, heq', hlies, hseen⟩ =>
    ⟨hname, frame, scopes, env, methods, heq, heq', hlies, fun _ hsite => hmore (hseen hsite)⟩
  objects := h.objects
  sink := h.sink
  clock := h.clock

/-- A place and a location are written together: all other places and locations
keep what they hold. -/
theorem values_assign (h : Agrees seen hops p) {location : Location} {frame : FrameId}
    {name : String} (hplace : p.layout[location]? = some (frame, name)) (value : Value)
    (other : Location) (frame' : FrameId) (name' : String)
    (hother : p.layout[other]? = some (frame', name')) :
    (p.state.cells.setIfInBounds location (some value))[other]? =
      some ((p.machine.store.define frame name value).local? frame' name') := by
  obtain ⟨hsize, hne⟩ := h.placed frame name (List.mem_of_getElem? hplace)
  have hlocation : location < p.state.cells.size := by
    rw [h.cells]
    exact (List.getElem?_eq_some_iff.mp hplace).1
  rw [Store.local?_define _ _ _ _ _ _ hsize, Array.getElem?_setIfInBounds]
  by_cases heq : location = other
  · subst heq
    rw [hplace] at hother
    cases hother
    rw [if_pos rfl, if_pos hlocation, if_pos ⟨rfl, rfl⟩]
  · have hapart : ¬ (frame = frame' ∧ name = name') := by
      rintro ⟨rfl, rfl⟩
      have hbound := (List.getElem?_eq_some_iff.mp hplace).1
      exact heq ((List.getElem?_inj hbound h.distinct).mp (hplace.trans hother.symm))
    rw [if_neg heq, if_neg hapart]
    exact h.values other frame' name' hother

/-- Overwriting a local name. -/
theorem assign (h : Agrees seen hops p) {location : Location} {frame : FrameId} {name : String}
    (hplace : p.layout[location]? = some (frame, name)) (value : Value) :
    Agrees seen hops
      ⟨p.layout, { p.machine with store := p.machine.store.define frame name value },
        { p.state with cells := p.state.cells.setIfInBounds location (some value) }⟩ := by
  have hmem := List.mem_of_getElem? hplace
  obtain ⟨hsize, hne⟩ := h.placed frame name hmem
  have hgrows := Grows.define hsize p.layout name value
  exact {
    distances := h.distances
    cells := by rw [Array.size_setIfInBounds]; exact h.cells
    values := h.values_assign hplace value
    distinct := h.distinct
    placed := by simpa using h.placed
    listed := by
      intro frame' name' hne' hbinds
      rw [Store.binds_define _ _ _ _ _ _ hsize, Bool.or_eq_true, decide_eq_true_iff] at hbinds
      rcases hbinds with ⟨rfl, rfl⟩ | hbinds
      · exact hmem
      · exact h.listed frame' name' hne' hbinds
    exists_globals := by simpa using h.exists_globals
    outermost := by rw [Store.enclosing?_define]; exact h.outermost
    globals := by
      intro sought
      rw [Store.local?_define _ _ _ _ _ _ hsize, if_neg fun heq => hne heq.1]
      exact h.globals sought
    functions := h.functions.mono fun _ _ hab => hab.grows hgrows
    classes := h.classes.mono fun _ _ hab => hab.grows hgrows
    objects := h.objects
    sink := h.sink
    clock := h.clock }

/-- Defining a global name. -/
theorem assignGlobal (h : Agrees seen hops p) (name : String) (value : Value) :
    Agrees seen hops
      ⟨p.layout, { p.machine with
          store := p.machine.store.define p.machine.globals name value },
        { p.state with globals := p.state.globals.insert name value }⟩ := by
  have hsize := h.exists_globals
  have hgrows := Grows.define hsize p.layout name value
  exact {
    distances := h.distances
    cells := h.cells
    values := by
      intro location frame' name' hplace
      have hne := (h.placed frame' name' (List.mem_of_getElem? hplace)).2
      rw [Store.local?_define _ _ _ _ _ _ hsize, if_neg fun heq => hne heq.1.symm]
      exact h.values location frame' name' hplace
    distinct := h.distinct
    placed := by simpa using h.placed
    listed := by
      intro frame' name' hne hbinds
      rw [Store.binds_define _ _ _ _ _ _ hsize, Bool.or_eq_true, decide_eq_true_iff] at hbinds
      rcases hbinds with ⟨heq, -⟩ | hbinds
      · exact absurd heq.symm hne
      · exact h.listed frame' name' hne hbinds
    exists_globals := by simpa using hsize
    outermost := by rw [Store.enclosing?_define]; exact h.outermost
    globals := by
      intro sought
      rw [Store.local?_define _ _ _ _ _ _ hsize, Table.get?_insert, h.globals]
      simp
    functions := h.functions.mono fun _ _ hab => hab.grows hgrows
    classes := h.classes.mono fun _ _ hab => hab.grows hgrows
    objects := h.objects
    sink := h.sink
    clock := h.clock }

/-- Declaring a local name that its frame does not bind yet. -/
theorem declare (h : Agrees seen hops p) {frame : FrameId} {name : String}
    (hsize : frame < p.machine.store.frames.size) (hne : frame ≠ p.machine.globals)
    (hfresh : (frame, name) ∉ p.layout) :
    Agrees seen hops
      ⟨p.layout ++ [(frame, name)], p.machine, { p.state with cells := p.state.cells.push none }⟩ := by
  have hgrows := Grows.declare p.layout p.machine.store frame name
  exact {
    distances := h.distances
    cells := by rw [Array.size_push, List.length_append, h.cells]; rfl
    values := by
      intro location frame' name' hplace
      rw [Array.getElem?_push, h.cells]
      split
      · rename_i heq
        subst heq
        rw [List.getElem?_concat_length] at hplace
        cases hplace
        have hunbound : ¬ p.machine.store.binds frame name = true :=
          fun hbinds => hfresh (h.listed frame name hne hbinds)
        rw [Option.not_isSome_iff_eq_none.mp hunbound]
      · rename_i heq
        have hbound := (List.getElem?_eq_some_iff.mp hplace).1
        rw [List.length_append, List.length_singleton] at hbound
        rw [List.getElem?_append_left (by omega)] at hplace
        exact h.values location frame' name' hplace
    distinct := by
      refine List.nodup_append.mpr ⟨h.distinct, List.nodup_cons.mpr ⟨List.not_mem_nil, List.nodup_nil⟩, ?_⟩
      intro place hold place' hnew heq
      cases List.mem_singleton.mp hnew
      exact hfresh (heq ▸ hold)
    placed := by
      intro frame' name' hmem
      rcases List.mem_append.mp hmem with hold | hnew
      · exact h.placed frame' name' hold
      · cases List.mem_singleton.mp hnew
        exact ⟨hsize, hne⟩
    listed := fun frame' name' hne' hbinds =>
      List.mem_append_left _ (h.listed frame' name' hne' hbinds)
    exists_globals := h.exists_globals
    outermost := h.outermost
    globals := h.globals
    functions := h.functions.mono fun _ _ hab => hab.grows hgrows
    classes := h.classes.mono fun _ _ hab => hab.grows hgrows
    objects := h.objects
    sink := h.sink
    clock := h.clock }

/-- Adding a frame that binds nothing. -/
theorem addFrame (h : Agrees seen hops p) (enclosing : Option FrameId) :
    Agrees seen hops
      ⟨p.layout, { p.machine with store := (p.machine.store.addFrame { enclosing }).2 },
        p.state⟩ := by
  have hgrows := Grows.addFrame p.layout p.machine.store { enclosing }
  have hold : ∀ frame name, frame < p.machine.store.frames.size →
      (p.machine.store.addFrame { enclosing }).2.local? frame name =
        p.machine.store.local? frame name := by
    intro frame name hframe
    rw [Store.local?_addFrame, if_neg (Nat.ne_of_lt hframe)]
  exact {
    distances := h.distances
    cells := h.cells
    values := by
      intro location frame name hplace
      rw [hold frame name (h.placed frame name (List.mem_of_getElem? hplace)).1]
      exact h.values location frame name hplace
    distinct := h.distinct
    placed := by
      intro frame name hmem
      obtain ⟨hsize, hne⟩ := h.placed frame name hmem
      exact ⟨Nat.lt_of_lt_of_le hsize hgrows.size, hne⟩
    listed := by
      intro frame name hne hbinds
      unfold Store.binds at hbinds
      rw [Store.local?_addFrame] at hbinds
      split at hbinds
      · cases hbinds
      · exact h.listed frame name hne hbinds
    exists_globals := Nat.lt_of_lt_of_le h.exists_globals hgrows.size
    outermost := by
      rw [Store.enclosing?_addFrame, if_neg (Nat.ne_of_lt h.exists_globals)]
      exact h.outermost
    globals := by
      intro name
      rw [hold p.machine.globals name h.exists_globals]
      exact h.globals name
    functions := h.functions.mono fun _ _ hab => hab.grows hgrows
    classes := h.classes.mono fun _ _ hab => hab.grows hgrows
    objects := h.objects
    sink := h.sink
    clock := h.clock }

/-- Changing anything but the frames: the functions, classes and objects go with
the rest. -/
theorem replace (h : Agrees seen hops p) {m : Scriptlet.Machine} {r : State}
    (hhops : m.hops = p.machine.hops) (hglobals : m.globals = p.machine.globals)
    (hframes : m.store.frames = p.machine.store.frames) (hcells : r.cells = p.state.cells)
    (hnames : r.globals = p.state.globals)
    (functions : Alike (SameClosure seen p.layout p.machine.store p.machine.globals)
      m.store.functions r.functions)
    (classes : Alike (SameClass seen p.layout p.machine.store p.machine.globals)
      m.store.classes r.classes)
    (objects : r.objects = m.store.objects) (sink : r.sink = m.sink) (clock : r.clock = m.clock) :
    Agrees seen hops ⟨p.layout, m, r⟩ := by
  have hgrows : Grows none p.layout p.machine.store p.layout m.store :=
    Grows.of_frames p.layout hframes
  have hlocal : m.store.local? = p.machine.store.local? := by
    unfold Store.local?
    rw [hframes]
  have hbinds : m.store.binds = p.machine.store.binds := by
    unfold Store.binds
    rw [hlocal]
  have henclosing : m.store.enclosing? = p.machine.store.enclosing? := by
    unfold Store.enclosing?
    rw [hframes]
  exact {
    distances := hhops.trans h.distances
    cells := by rw [hcells]; exact h.cells
    values := by rw [hcells, hlocal]; exact h.values
    distinct := h.distinct
    placed := by rw [hframes, hglobals]; exact h.placed
    listed := by rw [hbinds, hglobals]; exact h.listed
    exists_globals := by rw [hframes, hglobals]; exact h.exists_globals
    outermost := by rw [henclosing, hglobals]; exact h.outermost
    globals := by rw [hnames, hlocal, hglobals]; exact h.globals
    functions := by rw [hglobals]; exact functions.mono fun _ _ hab => hab.grows hgrows
    classes := by rw [hglobals]; exact classes.mono fun _ _ hab => hab.grows hgrows
    objects, sink, clock }

/-- Adding a function captured at a frame. -/
theorem addFunction (h : Agrees seen hops p) {c : Scriptlet.Closure} {c' : Closure}
    (hsame : SameClosure seen p.layout p.machine.store p.machine.globals c c') :
    Agrees seen hops
      ⟨p.layout, { p.machine with store := (p.machine.store.addFunction c).2 },
        (p.state.addFunction c').2⟩ :=
  h.replace rfl rfl rfl rfl rfl (h.functions.push hsame) h.classes h.objects h.sink h.clock

/-- Adding a class declared at a frame. -/
theorem addClass (h : Agrees seen hops p) {c : Scriptlet.ClassInfo} {c' : ClassInfo}
    (hsame : SameClass seen p.layout p.machine.store p.machine.globals c c') :
    Agrees seen hops
      ⟨p.layout, { p.machine with store := (p.machine.store.addClass c).2 },
        (p.state.addClass c').2⟩ :=
  h.replace rfl rfl rfl rfl rfl h.functions (h.classes.push hsame) h.objects h.sink h.clock

/-- Adding an object. -/
theorem addObject (h : Agrees seen hops p) (object : Object) :
    Agrees seen hops
      ⟨p.layout, { p.machine with store := (p.machine.store.addObject object).2 },
        (p.state.addObject object).2⟩ :=
  h.replace rfl rfl rfl rfl rfl h.functions h.classes (congrArg (·.push object) h.objects) h.sink h.clock

/-- Setting a field. -/
theorem setField (h : Agrees seen hops p) (object : ObjectId) (name : String) (value : Value) :
    Agrees seen hops
      ⟨p.layout, { p.machine with store := p.machine.store.setField object name value },
        p.state.setField object name value⟩ :=
  h.replace rfl rfl rfl rfl rfl h.functions h.classes
    (congrArg (fun objects : Array Object => objects.modify object fun o =>
      { o with fields := o.fields.insert name value }) h.objects) h.sink h.clock

/-- Writing to the output. -/
theorem output (h : Agrees seen hops p) (sink : Sink) :
    Agrees seen hops ⟨p.layout, { p.machine with sink }, { p.state with sink }⟩ :=
  h.replace rfl rfl rfl rfl rfl h.functions h.classes h.objects rfl h.clock

/-- Reading the clock. -/
theorem tick (h : Agrees seen hops p) (clock : Clock) :
    Agrees seen hops ⟨p.layout, { p.machine with clock }, { p.state with clock }⟩ :=
  h.replace rfl rfl rfl rfl rfl h.functions h.classes h.objects h.sink rfl

end Agrees

end Scriptlet.Lexical
