import Scriptlet.Machine.Run
import Scriptlet.Proofs.Alike.Binding

/-!
# Machines that are alike

Machines are alike when they have the same frames, objects and output, routines that
are alike, and distances that agree at numbers that correspond. Actions on machines
alike are compared by their results: the values are the same, and failures are the
same up to their lines. There is one rule for each action that a run is made of.
-/

namespace Scriptlet

variable {α β κ : Type} {K : Likeness}

/-- Failures alike: of one cause, on lines that correspond. -/
structure RuntimeError.Alike (K : Likeness) (e e' : RuntimeError) : Prop where
  line : K.lines e.line e'.line
  fault : e.fault = e'.fault

/-- Failures to find names alike. -/
theorem Token.Alike.undefined {t t' : Token} (h : t.Alike K t') :
    (RuntimeError.undefined t).Alike K (.undefined t') :=
  ⟨h.line, congrArg RuntimeFault.undefinedVariable h.lexeme⟩

/-- Reasons to stop alike. -/
inductive Stop.Alike (K : Likeness) : Stop → Stop → Prop where
  | fault {e e' : RuntimeError} (h : e.Alike K e') : Stop.Alike K (.fault e) (.fault e')
  | sink (f : SinkFault) : Stop.Alike K (.sink f) (.sink f)
  | exhausted : Stop.Alike K .exhausted .exhausted

/-- Results of an operation alike. -/
inductive Operated (K : Likeness) : Except RuntimeError α → Except RuntimeError α → Prop where
  | ok (a : α) : Operated K (.ok a) (.ok a)
  | error {e e' : RuntimeError} (h : e.Alike K e') : Operated K (.error e) (.error e')

/-- Tables alike: the same keys in the same order, with values in a relation. -/
def Table.Alike (R : α → α → Prop) (t t' : Table κ α) : Prop :=
  List.Forall₂ (fun entry entry' => entry.1 = entry'.1 ∧ R entry.2 entry'.2) t.entries t'.entries

/-- Closures alike. -/
structure Closure.Alike (K : Likeness) (c c' : Closure) : Prop where
  routine : c.routine.Alike K c'.routine
  frame : c.frame = c'.frame

/-- Classes alike. -/
structure ClassInfo.Alike (K : Likeness) (c c' : ClassInfo) : Prop where
  name : c.name = c'.name
  methods : Table.Alike (Closure.Alike K) c.methods c'.methods

/-- Stores alike. -/
structure Store.Alike (K : Likeness) (s s' : Store) : Prop where
  frames : s.frames = s'.frames
  functions : List.Forall₂ (Closure.Alike K) s.functions.toList s'.functions.toList
  classes : List.Forall₂ (ClassInfo.Alike K) s.classes.toList s'.classes.toList
  objects : s.objects = s'.objects

/-- Machines alike. -/
structure Machine.Alike (K : Likeness) (m m' : Machine) : Prop where
  store : m.store.Alike K m'.store
  globals : m.globals = m'.globals
  scope : m.scope = m'.scope
  hops : Hops.Alike K m.hops m'.hops
  sink : m.sink = m'.sink
  clock : m.clock = m'.clock

/-- Closures stay alike when more corresponds. -/
theorem Closure.Alike.mono {K' : Likeness} {c c' : Closure} (h : c.Alike K c')
    (hK : K.Within K') : c.Alike K' c' :=
  ⟨h.routine.imp hK.lines fun _ _ i hi => hK.numbers _ i hi, h.frame⟩

/-- Classes stay alike when more corresponds. -/
theorem ClassInfo.Alike.mono {K' : Likeness} {c c' : ClassInfo} (h : c.Alike K c')
    (hK : K.Within K') : c.Alike K' c' :=
  ⟨h.name, h.methods.imp fun _ _ hentry => ⟨hentry.1, hentry.2.mono hK⟩⟩

/-- Stores stay alike when more corresponds. -/
theorem Store.Alike.mono {K' : Likeness} {s s' : Store} (h : s.Alike K s') (hK : K.Within K') :
    s.Alike K' s' :=
  ⟨h.frames, h.functions.imp fun _ _ hc => hc.mono hK, h.classes.imp fun _ _ hc => hc.mono hK,
    h.objects⟩

/-- Machines stay alike when more corresponds and the distances learned with it agree. -/
theorem Machine.Alike.learn {K' : Likeness} {m m' : Machine} (h : m.Alike K m')
    (hK : K.Within K') {hops hops' : Hops} (hhops : Hops.Alike K' hops hops') :
    Machine.Alike K' { m with hops } { m' with hops := hops' } :=
  ⟨h.store.mono hK, h.globals, h.scope, hhops, h.sink, h.clock⟩

/-- Lists in a relation have members in the relation at every place. -/
theorem forall₂_getElem? {R : α → β → Prop} {xs : List α} {ys : List β}
    (h : List.Forall₂ R xs ys) (i : Nat) : Option.Rel R xs[i]? ys[i]? := by
  induction h generalizing i with
  | nil => exact .none
  | cons first _ ih =>
    cases i with
    | zero => exact .some first
    | succ i => exact ih i

namespace Table.Alike

variable [DecidableEq κ] {R : α → α → Prop} {t t' : Table κ α}

/-- Tables alike have values in the relation under every key. -/
theorem get? (h : t.Alike R t') (key : κ) : Option.Rel R (t.get? key) (t'.get? key) := by
  have hfind : ∀ {entries entries' : List (κ × α)}, List.Forall₂
      (fun entry entry' => entry.1 = entry'.1 ∧ R entry.2 entry'.2) entries entries' →
      Option.Rel R (find key entries) (find key entries') := by
    intro entries entries' hentries
    induction hentries with
    | nil => exact .none
    | cons first _ ih =>
      unfold find
      rw [first.1]
      split
      · exact .some first.2
      · exact ih
  exact hfind h

/-- Storing values in the relation under one key. -/
theorem insert (h : t.Alike R t') (key : κ) {a a' : α} (ha : R a a') :
    (t.insert key a).Alike R (t'.insert key a') := by
  have hput : ∀ {entries entries' : List (κ × α)}, List.Forall₂
      (fun entry entry' => entry.1 = entry'.1 ∧ R entry.2 entry'.2) entries entries' →
      List.Forall₂ (fun entry entry' => entry.1 = entry'.1 ∧ R entry.2 entry'.2)
        (put key a entries) (put key a' entries') := by
    intro entries entries' hentries
    induction hentries with
    | nil => exact .cons ⟨rfl, ha⟩ .nil
    | cons first others ih =>
      unfold put
      rw [first.1]
      split
      · exact .cons ⟨rfl, ha⟩ others
      · exact .cons ⟨rfl, first.2⟩ ih
  exact hput h

/-- Storing several values in the relation. -/
theorem insertAll (h : t.Alike R t') {entries entries' : List (κ × α)} (hentries : List.Forall₂
    (fun entry entry' => entry.1 = entry'.1 ∧ R entry.2 entry'.2) entries entries') :
    (t.insertAll entries).Alike R (t'.insertAll entries') := by
  refine List.rel_foldl (P := Table.Alike R) ?_ h hentries
  rintro u u' hu ⟨k, a⟩ ⟨_, a'⟩ ⟨rfl, ha⟩
  exact hu.insert k ha

end Table.Alike

namespace Store.Alike

variable {s s' : Store}

/-- Functions with one number. -/
theorem function? (h : s.Alike K s') (id : FunctionId) :
    Option.Rel (Closure.Alike K) s.functions[id]? s'.functions[id]? := by
  rw [← Array.getElem?_toList, ← Array.getElem?_toList]
  exact forall₂_getElem? h.functions id

/-- Classes with one number. -/
theorem class? (h : s.Alike K s') (id : ClassId) :
    Option.Rel (ClassInfo.Alike K) s.classes[id]? s'.classes[id]? := by
  rw [← Array.getElem?_toList, ← Array.getElem?_toList]
  exact forall₂_getElem? h.classes id

/-- Adding a frame. -/
theorem addFrame (h : s.Alike K s') (frame : Frame) :
    (s.addFrame frame).1 = (s'.addFrame frame).1 ∧
      (s.addFrame frame).2.Alike K (s'.addFrame frame).2 :=
  ⟨congrArg Array.size h.frames,
    congrArg (Array.push · frame) h.frames, h.functions, h.classes, h.objects⟩

/-- Adding an object. -/
theorem addObject (h : s.Alike K s') (object : Object) :
    (s.addObject object).1 = (s'.addObject object).1 ∧
      (s.addObject object).2.Alike K (s'.addObject object).2 :=
  ⟨congrArg Array.size h.objects,
    h.frames, h.functions, h.classes, congrArg (Array.push · object) h.objects⟩

/-- Adding functions alike. -/
theorem addFunction (h : s.Alike K s') {c c' : Closure} (hc : c.Alike K c') :
    (s.addFunction c).1 = (s'.addFunction c').1 ∧
      (s.addFunction c).2.Alike K (s'.addFunction c').2 := by
  refine ⟨h.functions.length_eq, h.frames, ?_, h.classes, h.objects⟩
  unfold Store.addFunction
  rw [Array.toList_push, Array.toList_push]
  exact List.rel_append h.functions (.cons hc .nil)

/-- Adding classes alike. -/
theorem addClass (h : s.Alike K s') {c c' : ClassInfo} (hc : c.Alike K c') :
    (s.addClass c).1 = (s'.addClass c').1 ∧ (s.addClass c).2.Alike K (s'.addClass c').2 := by
  refine ⟨h.classes.length_eq, h.frames, h.functions, ?_, h.objects⟩
  unfold Store.addClass
  rw [Array.toList_push, Array.toList_push]
  exact List.rel_append h.classes (.cons hc .nil)

/-- Defining a name. -/
theorem define (h : s.Alike K s') (frame : FrameId) (name : String) (value : Value) :
    (s.define frame name value).Alike K (s'.define frame name value) := by
  refine ⟨?_, h.functions, h.classes, h.objects⟩
  unfold Store.define
  rw [h.frames]

/-- Setting a field. -/
theorem setField (h : s.Alike K s') (object : ObjectId) (name : String) (value : Value) :
    (s.setField object name value).Alike K (s'.setField object name value) := by
  refine ⟨h.frames, h.functions, h.classes, ?_⟩
  unfold Store.setField
  rw [h.objects]

/-- What a frame binds. -/
theorem local? (h : s.Alike K s') (frame : FrameId) (name : String) :
    s.local? frame name = s'.local? frame name := by
  unfold Store.local?
  rw [h.frames]

/-- Whether a frame binds a name. -/
theorem binds (h : s.Alike K s') (frame : FrameId) (name : String) :
    s.binds frame name = s'.binds frame name :=
  congrArg Option.isSome (h.local? frame name)

/-- The frame around a frame. -/
theorem enclosing? (h : s.Alike K s') (frame : FrameId) :
    s.enclosing? frame = s'.enclosing? frame := by
  unfold Store.enclosing?
  rw [h.frames]

/-- The frame so many links out. -/
theorem ancestor? (h : s.Alike K s') (frame : FrameId) (links : Nat) :
    s.ancestor? frame links = s'.ancestor? frame links := by
  induction links generalizing frame with
  | zero => rfl
  | succ links ih =>
    unfold Store.ancestor?
    rw [h.enclosing?]
    exact congrArg _ (funext ih)

/-- The nearest frame that binds a name. -/
theorem nearest? (h : s.Alike K s') (frame : FrameId) (name : String) :
    s.nearest? frame name = s'.nearest? frame name := by
  have hwithin : ∀ steps frame,
      s.nearestWithin name steps frame = s'.nearestWithin name steps frame := by
    intro steps
    induction steps with
    | zero => exact fun _ => rfl
    | succ steps ih =>
      intro frame
      unfold nearestWithin
      rw [h.binds, h.enclosing?, funext ih]
  unfold Store.nearest?
  rw [h.frames]
  exact hwithin _ _

/-- How many arguments a value takes. -/
theorem arity? (h : s.Alike K s') (value : Value) : s.arity? value = s'.arity? value := by
  cases value with
  | function id =>
    have hfunction := h.function? id
    unfold Store.arity?
    dsimp only
    generalize s.functions[id]? = found at hfunction ⊢
    generalize s'.functions[id]? = found' at hfunction ⊢
    cases hfunction with
    | none => rfl
    | some hc => exact congrArg Option.some hc.routine.parameters.length_eq
  | _ => rfl

/-- Values are printed the same way. -/
theorem render (h : s.Alike K s') (value : Value) : s.render value = s'.render value := by
  have hclass : ∀ id, s.className id = s'.className id := by
    intro id
    have hfound := h.class? id
    unfold className
    generalize s.classes[id]? = found at hfound ⊢
    generalize s'.classes[id]? = found' at hfound ⊢
    cases hfound with
    | none => rfl
    | some hc => exact hc.name
  cases value with
  | function id =>
    have hfunction := h.function? id
    unfold Store.render functionName
    dsimp only
    generalize s.functions[id]? = found at hfunction ⊢
    generalize s'.functions[id]? = found' at hfunction ⊢
    cases hfunction with
    | none => rfl
    | some hc => exact congrArg (fun name => "<fn " ++ name ++ ">") hc.routine.name.lexeme
  | classRef id => exact hclass id
  | object id =>
    unfold Store.render objectClassName
    rw [h.objects, funext hclass]
  | _ => rfl

end Store.Alike

end Scriptlet
