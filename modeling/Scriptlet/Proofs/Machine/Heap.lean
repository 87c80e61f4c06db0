import Scriptlet.Proofs.Machine.Scope
import Scriptlet.Table.Lemmas

/-!
# What the store of a running program keeps

No frame ever changes its link or loses a name, no object its class or a field, and
functions and classes never change at all. Links lead to older frames, so that the way
outward from every frame in which something was captured ends at the globals. Each
change keeps this, whatever the program is, and hence so do all steps. A field of an
object changes only at the end of an assignment to it.
-/

namespace Scriptlet

/-- What is found behind an addition was there before, or is what was added. -/
theorem found_of_push {α : Type} {xs : Array α} {a b : α} {i : Nat}
    (h : (xs.push a)[i]? = some b) : xs[i]? = some b ∨ i = xs.size ∧ b = a := by
  rw [Array.getElem?_push] at h
  split at h
  · rename_i hi
    exact Or.inr ⟨hi, (Option.some.inj h).symm⟩
  · exact Or.inl h

/-- Entries stay at their numbers, each as it was or as it may become. -/
def Stays {α : Type} (kept : α → α → Prop) (xs ys : Array α) : Prop :=
  ∀ (i : Nat) a, xs[i]? = some a → ∃ b, ys[i]? = some b ∧ kept a b

namespace Stays

variable {α : Type} {kept : α → α → Prop} {xs ys zs : Array α}

/-- Nothing changes. -/
theorem refl (h : ∀ a, kept a a) (xs : Array α) : Stays kept xs xs := fun _ a ha => ⟨a, ha, h a⟩

/-- One change after another. -/
theorem trans (h : ∀ {a b c}, kept a b → kept b c → kept a c) (hxs : Stays kept xs ys)
    (hys : Stays kept ys zs) : Stays kept xs zs := by
  intro i a ha
  obtain ⟨b, hb, hab⟩ := hxs i a ha
  obtain ⟨c, hc, hbc⟩ := hys i b hb
  exact ⟨c, hc, h hab hbc⟩

/-- An entry is added. -/
theorem push (h : ∀ a, kept a a) (xs : Array α) (a : α) : Stays kept xs (xs.push a) := by
  intro i b hb
  obtain ⟨hi, -⟩ := Array.getElem?_eq_some_iff.mp hb
  refine ⟨b, ?_, h b⟩
  rw [Array.getElem?_push, if_neg (Nat.ne_of_lt hi), hb]

/-- An entry is changed as it may be. -/
theorem modify (h : ∀ a, kept a a) {f : α → α} (hf : ∀ a, kept a (f a)) (xs : Array α) (n : Nat) :
    Stays kept xs (xs.modify n f) := by
  intro i a ha
  rw [Array.getElem?_modify, ha]
  split
  · exact ⟨f a, rfl, hf a⟩
  · exact ⟨a, rfl, h a⟩

/-- Entries do not get fewer. -/
theorem size_le (h : Stays kept xs ys) : xs.size ≤ ys.size := by
  refine Nat.le_of_not_lt fun hlt => ?_
  obtain ⟨b, hb, -⟩ := h ys.size xs[ys.size] (Array.getElem?_eq_getElem hlt)
  rw [Array.getElem?_eq_none (Nat.le_refl _)] at hb
  cases hb

end Stays

/-- A frame keeps the frame around it, and its names. -/
structure Frame.Keeps (f g : Frame) : Prop where
  /-- The frame around it is the same. -/
  enclosing : g.enclosing = f.enclosing
  /-- No name is lost. -/
  names : ∀ name, f.bindings.contains name = true → g.bindings.contains name = true

/-- An object keeps its class, and its fields. -/
structure Object.Keeps (o p : Object) : Prop where
  /-- The class is the same. -/
  classId : p.classId = o.classId
  /-- No field is lost. -/
  fields : ∀ name, o.fields.contains name = true → p.fields.contains name = true

namespace Store

/-- What outlasts everything that a program does. -/
structure Keeps (s t : Store) : Prop where
  /-- Frames keep their links and their names. -/
  frames : Stays Frame.Keeps s.frames t.frames
  /-- Functions keep their declarations and the frames that they captured. -/
  functions : Stays Eq s.functions t.functions
  /-- Classes keep their names and their methods. -/
  classes : Stays Eq s.classes t.classes
  /-- Objects keep their classes and their fields. -/
  objects : Stays Object.Keeps s.objects t.objects

end Store

/-- A frame stays as it is. -/
theorem Frame.Keeps.refl (f : Frame) : f.Keeps f := ⟨rfl, fun _ => id⟩

/-- An object stays as it is. -/
theorem Object.Keeps.refl (o : Object) : o.Keeps o := ⟨rfl, fun _ => id⟩

namespace Store.Keeps

variable {s t u : Store}

/-- Nothing changes. -/
theorem refl (s : Store) : s.Keeps s :=
  ⟨.refl .refl _, .refl (fun _ => rfl) _, .refl (fun _ => rfl) _, .refl .refl _⟩

/-- One change after another. -/
theorem trans (h : s.Keeps t) (h' : t.Keeps u) : s.Keeps u where
  frames := h.frames.trans (fun hfg hgk => ⟨hgk.enclosing.trans hfg.enclosing,
    fun name hname => hgk.names name (hfg.names name hname)⟩) h'.frames
  functions := h.functions.trans Eq.trans h'.functions
  classes := h.classes.trans Eq.trans h'.classes
  objects := h.objects.trans (fun hop hpq => ⟨hpq.classId.trans hop.classId,
    fun name hname => hpq.fields name (hop.fields name hname)⟩) h'.objects

/-- A name is defined. -/
theorem define (s : Store) (frame : FrameId) (name : String) (value : Value) :
    s.Keeps (s.define frame name value) :=
  { refl s with
    frames := .modify .refl (fun _ => ⟨rfl, fun other hother => by
      rw [Table.contains_insert, hother, Bool.or_true]⟩) _ _ }

/-- A frame is added. -/
theorem addFrame (s : Store) (frame : Frame) : s.Keeps (s.addFrame frame).2 :=
  { refl s with frames := .push .refl _ _ }

/-- A function is added. -/
theorem addFunction (s : Store) (closure : Closure) : s.Keeps (s.addFunction closure).2 :=
  { refl s with functions := .push (fun _ => rfl) _ _ }

/-- A class is added. -/
theorem addClass (s : Store) (info : ClassInfo) : s.Keeps (s.addClass info).2 :=
  { refl s with classes := .push (fun _ => rfl) _ _ }

/-- An object is added. -/
theorem addObject (s : Store) (object : Object) : s.Keeps (s.addObject object).2 :=
  { refl s with objects := .push .refl _ _ }

/-- A field is set. -/
theorem setField (s : Store) (object : ObjectId) (name : String) (value : Value) :
    s.Keeps (s.setField object name value) :=
  { refl s with
    objects := .modify .refl (fun _ => ⟨rfl, fun other hother => by
      rw [Table.contains_insert, hother, Bool.or_true]⟩) _ _ }

/-- The frame around a frame that exists is the same. -/
theorem enclosing? (h : s.Keeps t) {frame : FrameId} (hframe : frame < s.frames.size) :
    t.enclosing? frame = s.enclosing? frame := by
  have hf := Array.getElem?_eq_getElem hframe
  obtain ⟨g, hg, hkeeps⟩ := h.frames frame s.frames[frame] hf
  unfold Store.enclosing?
  rw [hf, hg]
  exact hkeeps.enclosing

end Store.Keeps

namespace Machine

variable {names : Names} {m after : Machine}

/-- Whatever a change does, it keeps all that. -/
theorem Change.keeps (h : Change names m after) : m.store.Keeps after.store := by
  cases h with
  | define name value => exact .define _ _ _ _
  | overwrite frame name value h => exact .define _ _ _ _
  | openBlock => exact .addFrame _ _
  | openCall id closure arguments h => exact .addFrame _ _
  | bindMethod fuel target before id object info name method htarget hobject hfield hclass hmethod =>
    exact (Store.Keeps.addFrame _ _).trans (.addFunction _ _)
  | makeFunction routine => exact .addFunction _ _
  | makeClass name methods => exact .addClass _ _
  | makeObject id => exact .addObject _ _
  | setField object name h =>
    obtain ⟨-, -, -, -, -, a, -, -, rfl⟩ := h
    exact .setField _ _ _ _
  | print value => exact .refl _
  | readClock => exact .refl _

/-- What a session does: a machine is changed, or distances are recorded for a program that
is to run. -/
inductive Move (names : Names) (m : Machine) : Machine → Prop where
  /-- A change. -/
  | change {after : Machine} (h : Change names m after) : Move names m after
  /-- Distances are recorded. -/
  | learn (hops : Hops) : Move names m { m with hops }

/-- Whatever a session does, it keeps all that. -/
theorem Move.keeps (h : Move names m after) : m.store.Keeps after.store := by
  cases h with
  | change h => exact h.keeps
  | learn hops => exact .refl _

/-- A step of a session stays in its frame. -/
theorem Move.stays (h : Move names m after) :
    after.scope = m.scope ∧ after.globals = m.globals := by
  cases h with
  | change h => exact h.rest.2.imp_right And.left
  | learn hops => exact ⟨rfl, rfl⟩

/-- The frames that something was captured in: the current one, and those of functions and
of methods. -/
inductive Holds (m : Machine) : FrameId → Prop where
  /-- The current frame. -/
  | scope : Holds m m.scope
  /-- The frame of a function. -/
  | function {id : FunctionId} {closure : Closure} (h : m.store.functions[id]? = some closure) :
    Holds m closure.frame
  /-- The frame of the methods of a class. -/
  | method {id : ClassId} {info : ClassInfo} {name : String} {closure : Closure}
    (hclass : m.store.classes[id]? = some info) (h : info.methods.get? name = some closure) :
    Holds m closure.frame

/-- From every frame that something was captured in, the way outward ends at the globals. -/
def Grounded (m : Machine) : Prop :=
  ∀ frame, m.Holds frame → ∃ links, m.store.ancestor? frame links = some m.globals

/-- What was captured by another machine with the same frame, functions and classes. -/
theorem Holds.of_same {frame : FrameId} (h : after.Holds frame) (hscope : after.scope = m.scope)
    (hfunctions : after.store.functions = m.store.functions)
    (hclasses : after.store.classes = m.store.classes) : m.Holds frame := by
  cases h with
  | scope => exact hscope ▸ .scope
  | function h => exact .function (hfunctions ▸ h)
  | method hclass h => exact .method (hclasses ▸ hclass) h

/-- The methods of a class are those of its declaration, captured in its frame. -/
theorem mem_of_methodTable {frame : FrameId} {methods : List Routine} {name : String}
    {closure : Closure} (h : (methodTable frame methods).get? name = some closure) :
    ∃ r ∈ methods, closure = ⟨r, frame⟩ := by
  unfold methodTable at h
  rw [Table.get?_ofList_map (fun r => (⟨r, frame⟩ : Closure)) (fun r : Routine => r.name.lexeme)]
    at h
  obtain ⟨r, hr, rfl⟩ := Option.map_eq_some_iff.mp h
  rcases Table.get?_insertAll_mem hr with hnone | hmem
  · cases hnone
  · exact ⟨r, hmem, rfl⟩

/-- Frames are linked to older frames up to the globals, and what was captured exists. -/
structure Rooted (m : Machine) : Prop where
  /-- The globals exist. -/
  globals : m.globals < m.store.frames.size
  /-- Nothing is around the globals. -/
  outermost : m.store.enclosing? m.globals = none
  /-- Every other frame is inside an older one. -/
  linked : ∀ frame, frame < m.store.frames.size → frame ≠ m.globals →
    ∃ outer, outer < frame ∧ m.store.enclosing? frame = some outer
  /-- Every frame that something was captured in exists. -/
  held : ∀ frame, m.Holds frame → frame < m.store.frames.size

namespace Rooted

/-- Links to older frames come to an end, and only at the globals. -/
theorem reaches (h : m.Rooted) {frame : FrameId} (hframe : frame < m.store.frames.size) :
    ∃ links, m.store.ancestor? frame links = some m.globals := by
  induction frame using Nat.strongRecOn with
  | ind frame ih =>
    by_cases hglobals : frame = m.globals
    · exact ⟨0, congrArg some hglobals⟩
    · obtain ⟨outer, hless, houter⟩ := h.linked frame hframe hglobals
      obtain ⟨links, hlinks⟩ := ih outer hless (Nat.lt_trans hless hframe)
      exact ⟨links + 1, Option.bind_eq_some_iff.mpr ⟨outer, houter, hlinks⟩⟩

/-- The frame around another one exists. -/
theorem outer_lt_size (h : m.Rooted) {frame outer : FrameId}
    (hlink : m.store.enclosing? frame = some outer) :
    outer < m.store.frames.size := by
  have hframe := Store.lt_size_of_enclosing hlink
  by_cases hglobals : frame = m.globals
  · rw [hglobals, h.outermost] at hlink
    cases hlink
  · obtain ⟨outer', hless, hlink'⟩ := h.linked frame hframe hglobals
    rw [hlink'] at hlink
    cases hlink
    exact Nat.lt_trans hless hframe

/-- From where something was captured the way outward ends at the globals. -/
theorem grounded (h : m.Rooted) : m.Grounded := fun frame hframe => h.reaches (h.held frame hframe)

/-- Frames stay rooted when new ones are inside older ones and what is captured exists. -/
theorem grow (h : m.Rooted) (hkeeps : m.store.Keeps after.store)
    (hglobals : after.globals = m.globals)
    (hnew : ∀ frame, m.store.frames.size ≤ frame → frame < after.store.frames.size →
      ∃ outer, outer < frame ∧ after.store.enclosing? frame = some outer)
    (hheld : ∀ frame, after.Holds frame → frame < after.store.frames.size) : after.Rooted where
  globals := hglobals ▸ Nat.lt_of_lt_of_le h.globals hkeeps.frames.size_le
  outermost := by
    rw [hglobals, hkeeps.enclosing? h.globals]
    exact h.outermost
  linked := by
    intro frame hframe hne
    rcases Nat.lt_or_ge frame m.store.frames.size with hold | hfresh
    · obtain ⟨outer, hless, houter⟩ := h.linked frame hold (hglobals ▸ hne)
      exact ⟨outer, hless, (hkeeps.enclosing? hold).trans houter⟩
    · exact hnew frame hfresh hframe
  held := hheld

/-- A change that makes no frame and captures nothing new. -/
theorem same (h : m.Rooted) (hkeeps : m.store.Keeps after.store)
    (hglobals : after.globals = m.globals) (hscope : after.scope = m.scope)
    (hsize : after.store.frames.size = m.store.frames.size)
    (hfunctions : after.store.functions = m.store.functions)
    (hclasses : after.store.classes = m.store.classes) : after.Rooted :=
  h.grow hkeeps hglobals (fun frame hfresh hframe => by omega)
    fun frame hframe => hsize ▸ h.held frame (hframe.of_same hscope hfunctions hclasses)

/-- A frame is made inside one that exists. -/
theorem addFrame (h : m.Rooted) (bindings : Table String Value) {outer : FrameId}
    (houter : outer < m.store.frames.size) :
    Rooted { m with store := (m.store.addFrame ⟨bindings, some outer⟩).2 } := by
  refine h.grow (.addFrame _ _) rfl (fun frame hfresh hframe => ?_) fun frame hframe => ?_
  · rw [Store.size_addFrame] at hframe
    obtain rfl : frame = m.store.frames.size := by omega
    refine ⟨outer, houter, ?_⟩
    rw [Store.enclosing?_addFrame, if_pos rfl]
  · rw [Store.size_addFrame]
    exact Nat.lt_succ_of_lt (h.held frame (hframe.of_same rfl rfl rfl))

/-- A function is captured in a frame that exists. -/
theorem addFunction (h : m.Rooted) (routine : Routine) {frame : FrameId}
    (hframe : frame < m.store.frames.size) :
    Rooted { m with store := (m.store.addFunction ⟨routine, frame⟩).2 } := by
  refine h.grow (.addFunction _ _) rfl (fun _ hfresh hless => absurd hfresh (Nat.not_le.mpr hless))
    fun other hother => ?_
  cases hother with
  | scope => exact h.held _ .scope
  | @function id closure hfound =>
    rcases found_of_push hfound with hold | ⟨-, rfl⟩
    · exact h.held _ (.function hold)
    · exact hframe
  | method hclass hfound => exact h.held _ (.method hclass hfound)

/-- The methods of a class are captured in the current frame. -/
theorem addClass (h : m.Rooted) (name : String) (methods : List Routine) :
    Rooted { m with store := (m.store.addClass ⟨name, methodTable m.scope methods⟩).2 } := by
  refine h.grow (.addClass _ _) rfl (fun _ hfresh hless => absurd hfresh (Nat.not_le.mpr hless))
    fun other hother => ?_
  cases hother with
  | scope => exact h.held _ .scope
  | function hfound => exact h.held _ (.function hfound)
  | @method id info sought closure hclass hfound =>
    rcases found_of_push hclass with hold | ⟨-, rfl⟩
    · exact h.held _ (.method hold hfound)
    · obtain ⟨r, -, rfl⟩ := mem_of_methodTable hfound
      exact h.held _ .scope

end Rooted

/-- Whatever a change does, frames stay rooted. -/
theorem Change.rooted (h : Change names m after) (hm : m.Rooted) : after.Rooted := by
  cases h with
  | define name value => exact hm.same (.define _ _ _ _) rfl rfl (by simp) rfl rfl
  | overwrite frame name value h => exact hm.same (.define _ _ _ _) rfl rfl (by simp) rfl rfl
  | openBlock => exact hm.addFrame .empty (hm.held _ .scope)
  | openCall id closure arguments h => exact hm.addFrame _ (hm.held _ (.function h))
  | bindMethod fuel target before id object info name method htarget hobject hfield hclass hmethod =>
    have hframe := hm.addFrame (Table.empty.insert Binding.receiverName (.object id))
      (hm.held _ (.method hclass hmethod))
    exact hframe.addFunction method.routine (by
      rw [Store.size_addFrame]
      exact Nat.lt_succ_self _)
  | makeFunction routine => exact hm.addFunction routine (hm.held _ .scope)
  | makeClass name methods => exact hm.addClass name methods
  | makeObject id => exact hm.same (.addObject _ _) rfl rfl rfl rfl rfl
  | setField object name h =>
    obtain ⟨-, -, -, -, -, a, -, -, rfl⟩ := h
    exact hm.same (.setField _ _ _ _) rfl rfl rfl rfl rfl
  | print value => exact hm.same (.refl _) rfl rfl rfl rfl rfl
  | readClock => exact hm.same (.refl _) rfl rfl rfl rfl rfl

/-- A field of an object that exists changes only at the end of an assignment to that field
of that object. -/
theorem Change.setsField (h : Change names m after) {id : ObjectId} {object : Object}
    {name : String} (hobject : m.store.objects[id]? = some object)
    (hfield : (after.store.objects[id]?.bind fun o => o.fields.get? name) ≠
      object.fields.get? name) : SetsField names id name m after := by
  -- All changes but two leave the objects alone.
  have hsame : after.store.objects = m.store.objects → SetsField names id name m after :=
    fun heq => absurd (by rw [heq, hobject]; rfl) hfield
  cases h with
  | define name value => exact hsame rfl
  | overwrite frame name value h => exact hsame rfl
  | openBlock => exact hsame rfl
  | openCall id closure arguments h => exact hsame rfl
  | bindMethod fuel target before id object info name method htarget hobject hfield hclass hmethod =>
    exact hsame rfl
  | makeFunction routine => exact hsame rfl
  | makeClass name methods => exact hsame rfl
  | makeObject class_ =>
    obtain ⟨hid, -⟩ := Array.getElem?_eq_some_iff.mp hobject
    refine absurd ?_ hfield
    unfold Store.addObject
    dsimp only
    rw [Array.getElem?_push, if_neg (Nat.ne_of_lt hid), hobject]
    rfl
  | setField other field h =>
    obtain ⟨fuel, target, value, before, middle, a, htarget, hvalue, rfl⟩ := h
    by_cases heq : other = id ∧ field = name
    · obtain ⟨rfl, rfl⟩ := heq
      exact ⟨fuel, target, value, before, middle, a, htarget, hvalue, rfl⟩
    · refine absurd ?_ hfield
      unfold Store.setField
      dsimp only
      rw [Array.getElem?_modify]
      split
      · rename_i hid
        rw [hobject, Option.map_some, Option.bind_some, Table.get?_insert,
          if_neg fun hname => heq ⟨hid, hname⟩]
      · rw [hobject, Option.bind_some]
  | print value => exact hsame rfl
  | readClock => exact hsame rfl

/-- What a single step does to the store. -/
structure HeapStep (names : Names) (m after : Machine) : Prop where
  /-- Before it, the way outward from what was captured ends at the globals. -/
  before : m.Grounded
  /-- So it does behind it. -/
  grounded : after.Grounded
  /-- Nothing is lost, and links, classes and functions are the same. -/
  keeps : m.store.Keeps after.store
  /-- A field of an object changes only at the end of an assignment to it. -/
  fields : ∀ id object name, m.store.objects[id]? = some object →
    (after.store.objects[id]?.bind fun o => o.fields.get? name) ≠ object.fields.get? name →
    SetsField names id name m after

/-- A step of a session. -/
def SoundMove (names : Names) (m after : Machine) : Prop :=
  Move names m after ∧ HeapStep names m after

/-- Whatever a session does next, frames stay rooted. -/
theorem Move.rooted (h : Move names m after) (hm : m.Rooted) : after.Rooted := by
  cases h with
  | change h => exact h.rooted hm
  | learn hops => exact hm.same (.refl _) rfl rfl rfl rfl rfl

/-- Every step does to the store what it may. -/
theorem Move.sound (h : Move names m after) (hm : m.Rooted) : SoundMove names m after := by
  refine ⟨h, hm.grounded, (h.rooted hm).grounded, h.keeps, fun id object name hobject hfield => ?_⟩
  cases h with
  | change h => exact h.setsField hobject hfield
  | learn hops => exact absurd (by rw [hobject]; rfl) hfield

/-- Where a machine is rooted, its frame may be another one that exists. -/
theorem Rooted.moved (h : m.Rooted) {frame : FrameId} (hframe : frame < m.store.frames.size) :
    Rooted { m with scope := frame } where
  globals := h.globals
  outermost := h.outermost
  linked := h.linked
  held := by
    intro other hother
    cases hother with
    | scope => exact hframe
    | function hfound => exact h.held _ (.function hfound)
    | method hclass hfound => exact h.held _ (.method hclass hfound)

/-- All that steps do to the store. -/
structure HeapKept (names : Names) (m after : Machine) : Prop where
  /-- Frames stay rooted. -/
  rooted : after.Rooted
  /-- Nothing is lost, and links, classes and functions are the same. -/
  keeps : m.store.Keeps after.store
  /-- So it is step by step. -/
  steps : Steps (SoundMove names) m after

/-- Steps do to the store what single ones do. -/
theorem Steps.heap (h : Steps (Move names) m after) (hm : m.Rooted) : HeapKept names m after := by
  induction h with
  | refl m => exact ⟨hm, .refl _, .refl m⟩
  | trans first second ih ih' =>
    obtain ⟨hmiddle, hkeeps, hsteps⟩ := ih hm
    obtain ⟨hafter, hkeeps', hsteps'⟩ := ih' hmiddle
    exact ⟨hafter, hkeeps.trans hkeeps', hsteps.trans hsteps'⟩
  | once change => exact ⟨change.rooted hm, change.keeps, .once (change.sound hm)⟩
  | within frame hframe inside ih =>
    obtain ⟨hafter, hkeeps, hsteps⟩ := ih (hm.moved hframe)
    have hscope := Nat.lt_of_lt_of_le (hm.held _ .scope) hkeeps.frames.size_le
    exact ⟨hafter.moved hscope, hkeeps, .within frame hframe hsteps⟩

/-- What goes by steps does to the store what single ones do. -/
theorem Goes.heap {α : Type} {action : Run α} (h : Goes names action m) (hm : m.Rooted) :
    HeapKept names m (reached (action m)) :=
  (Steps.mono h fun _ _ => .change).heap hm

/-- A machine is rooted before its first statement. -/
theorem rooted_start (sink : Sink) (clock : Clock) : (start sink clock).Rooted where
  globals := Nat.one_pos
  outermost := rfl
  linked := fun frame hframe hne => absurd (Nat.lt_one_iff.mp hframe) hne
  held := by
    intro frame hframe
    cases hframe with
    | scope => exact Nat.one_pos
    | function h => cases h
    | method hclass h => cases hclass

end Machine

end Scriptlet
