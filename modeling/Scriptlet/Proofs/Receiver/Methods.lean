import Scriptlet.Proofs.Binding.Settled
import Scriptlet.Proofs.Machine.Heap

/-!
# Bound methods and the frames inside them

A method of a class is bound to an object in a frame of its own, which binds the receiver
and lies inside the frame of the class. Where frames lie around each other as the scopes at
a place do, every place inside a class lies inside the frame of a method of that class, the
innermost one, and as many links in as scopes are open in between. Names other than the
receiver may be declared on the way without a difference.
-/

namespace Scriptlet.Receiver

open Binding Machine

/-- A class declaration at a place, executed in a frame. -/
structure Declaration where
  /-- The name of the class. -/
  name : Token
  /-- Its methods. -/
  methods : List Routine
  /-- The scopes that are open at the place. -/
  scopes : List Scope
  /-- The frame. -/
  frame : FrameId

namespace Declaration

/-- The class that the declaration makes. -/
def info (d : Declaration) : ClassInfo := ⟨d.name.lexeme, methodTable d.frame d.methods⟩

/-- The scopes around the class, which declare its name. -/
def around (d : Declaration) : List Scope := introduceIn d.name d.scopes

/-- The places in the declaration. -/
def places (d : Declaration) : List Site := (Stmt.classDecl d.name d.methods).sites d.scopes

end Declaration

/-- A method of a class with an object as its receiver. -/
structure Method where
  /-- The number of the function that the method is when it is bound. -/
  function : FunctionId
  /-- The declaration of the method. -/
  routine : Routine
  /-- The frame that binds the receiver. -/
  frame : FrameId
  /-- The receiver. -/
  object : ObjectId
  /-- The class declaration in which the method is declared. -/
  owner : Declaration

namespace Method

/-- The scopes around the method. -/
def scopes (k : Method) : List Scope := receiverScope :: k.owner.around

/-- The places in the method. -/
def places (k : Method) : List Site := k.routine.sites k.scopes

/-- The places in a method are among those in the declaration of its class. -/
theorem places_subset {k : Method} (h : k.routine ∈ k.owner.methods) :
    k.places ⊆ k.owner.places := fun _ hsite =>
  List.mem_cons_of_mem _ (Routine.mem_sitesOfAll h hsite)

/-- The method is bound to its receiver in a store. The class of the receiver is the one that
the declaration around the method made. -/
structure BoundIn (k : Method) (s : Store) : Prop where
  /-- The method is declared in the class. -/
  member : k.routine ∈ k.owner.methods
  /-- The function runs the method inside the frame of the receiver. -/
  function : s.functions[k.function]? = some ⟨k.routine, k.frame⟩
  /-- The frame binds the receiver. -/
  receiver : s.local? k.frame receiverName = some (.object k.object)
  /-- It is inside the frame of the class. -/
  link : s.enclosing? k.frame = some k.owner.frame
  /-- The class of the receiver is that of the method. -/
  owner : ∃ object, s.objects[k.object]? = some object ∧
    s.classes[object.classId]? = some k.owner.info

end Method

/-- No frame that exists changes what it binds to the name of the receiver. -/
def KeepsReceivers (s t : Store) : Prop :=
  ∀ frame, frame < s.frames.size → t.local? frame receiverName = s.local? frame receiverName

variable {seen others : List Site} {s t : Store} {globals frame : FrameId} {scopes : List Scope}
  {k : Method} {k? : Option Method} {name : Token}

/-- A method stays bound to its receiver. -/
theorem Method.BoundIn.mono (h : k.BoundIn s) (hkeeps : s.Keeps t)
    (hreceivers : KeepsReceivers s t) : k.BoundIn t where
  member := h.member
  function := by
    obtain ⟨closure, hfound, rfl⟩ := hkeeps.functions _ _ h.function
    exact hfound
  receiver := (hreceivers _ (Store.lt_size_of_enclosing h.link)).trans h.receiver
  link := (hkeeps.enclosing? (Store.lt_size_of_enclosing h.link)).trans h.link
  owner := by
    obtain ⟨object, hobject, hclass⟩ := h.owner
    obtain ⟨object', hobject', hsame⟩ := hkeeps.objects _ _ hobject
    obtain ⟨info, hinfo, rfl⟩ := hkeeps.classes _ _ hclass
    exact ⟨object', hobject', hsame.classId ▸ hinfo⟩

/-- The frame of a bound method binds the receiver. -/
theorem Method.BoundIn.binds (h : k.BoundIn s) : s.binds k.frame receiverName = true := by
  unfold Store.binds
  rw [h.receiver]
  rfl

/-- The places among which code inside a method, or outside every method, stands. -/
def placesIn (seen : List Site) : Option Method → List Site
  | none => seen
  | some k => k.places

/-- The more places are known, the more may code outside every method stand among. -/
theorem placesIn_mono (h : seen ⊆ others) (k? : Option Method) :
    placesIn seen k? ⊆ placesIn others k? := by
  cases k? with
  | none => exact h
  | some k => exact List.Subset.refl _

/-- A frame lies inside others as the scopes at a place lie inside each other, up to the
globals; the innermost bound method on the way is the given one. -/
inductive Encloses (seen : List Site) (s : Store) (globals : FrameId) :
    FrameId → List Scope → Option Method → Prop where
  /-- No scope is open at the top level. -/
  | outermost : Encloses seen s globals globals [] none
  /-- The frame of a block or of a call. -/
  | inside {frame outer : FrameId} {scope : Scope} {scopes : List Scope} {k? : Option Method}
    (link : s.enclosing? frame = some outer) (plain : scope.contains receiverName = false)
    (around : Encloses seen s globals outer scopes k?) :
    Encloses seen s globals frame (scope :: scopes) k?
  /-- The frame of a bound method. -/
  | method {k : Method} {k? : Option Method} (bound : k.BoundIn s)
    (known : k.owner.places ⊆ seen)
    (around : Encloses seen s globals k.owner.frame k.owner.around k?) :
    Encloses seen s globals k.frame k.scopes (some k)

namespace Encloses

/-- Places inside a method are known places. -/
theorem placesIn_subset (h : Encloses seen s globals frame scopes k?) :
    placesIn seen k? ⊆ seen := by
  induction h with
  | outermost => exact List.Subset.refl seen
  | inside link plain around ih => exact ih
  | method bound known around ih =>
    exact List.Subset.trans (Method.places_subset bound.member) known

/-- Frames that lie inside the globals exist. -/
theorem lt_size (h : Encloses seen s globals frame scopes k?)
    (hglobals : globals < s.frames.size) : frame < s.frames.size := by
  cases h with
  | outermost => exact hglobals
  | inside link plain around => exact Store.lt_size_of_enclosing link
  | method bound known around => exact Store.lt_size_of_enclosing bound.link

/-- Frames lie inside each other as before when links and receivers are kept. -/
theorem mono (h : Encloses seen s globals frame scopes k?) (hkeeps : s.Keeps t)
    (hreceivers : KeepsReceivers s t) : Encloses seen t globals frame scopes k? := by
  induction h with
  | outermost => exact .outermost
  | inside link plain around ih =>
    exact .inside ((hkeeps.enclosing? (Store.lt_size_of_enclosing link)).trans link) plain ih
  | method bound known around ih => exact .method (bound.mono hkeeps hreceivers) known ih

/-- More places may be known. -/
theorem more (h : Encloses seen s globals frame scopes k?) (hmore : seen ⊆ others) :
    Encloses others s globals frame scopes k? := by
  induction h with
  | outermost => exact .outermost
  | inside link plain around ih => exact .inside link plain ih
  | method bound known around ih => exact .method bound (List.Subset.trans known hmore) ih

/-- The innermost scope may be another one that declares the receiver no more than it. -/
theorem head {scope other : Scope} (h : Encloses seen s globals frame (scope :: scopes) k?)
    (hplain : s.binds frame receiverName = false)
    (hother : other.contains receiverName = scope.contains receiverName) :
    Encloses seen s globals frame (other :: scopes) k? := by
  cases h with
  | inside link plain around => exact .inside link (hother.trans plain) around
  | method bound known around =>
    rw [bound.binds] at hplain
    cases hplain

/-- A name other than the receiver may be declared. -/
theorem declareIn (h : Encloses seen s globals frame scopes k?)
    (hplain : s.binds frame receiverName = false) (hname : name.lexeme ≠ receiverName) :
    Encloses seen s globals frame (Binding.declareIn name scopes) k? := by
  cases scopes with
  | nil => exact h
  | cons scope outer =>
    unfold Binding.declareIn
    dsimp only
    split
    · exact h
    · exact h.head hplain (by rw [Table.contains_insert, decide_eq_false hname, Bool.false_or])

/-- A name other than the receiver may be introduced. -/
theorem introduceIn (h : Encloses seen s globals frame scopes k?)
    (hplain : s.binds frame receiverName = false) (hname : name.lexeme ≠ receiverName) :
    Encloses seen s globals frame (Binding.introduceIn name scopes) k? := by
  have hdeclared := h.declareIn hplain hname
  unfold Binding.introduceIn
  revert hdeclared
  cases Binding.declareIn name scopes with
  | nil => exact id
  | cons scope outer =>
    exact fun h =>
      h.head hplain (by rw [Table.contains_insert, decide_eq_false hname, Bool.false_or])

/-- Parameters other than the receiver may be introduced. -/
theorem parameters (h : Encloses seen s globals frame scopes k?)
    (hplain : s.binds frame receiverName = false) {parameters : List Token}
    (hnames : ∀ name ∈ parameters, name.lexeme ≠ receiverName) :
    Encloses seen s globals frame
      (parameters.foldl (fun scopes name => Binding.introduceIn name scopes) scopes) k? := by
  induction parameters generalizing scopes with
  | nil => exact h
  | cons name rest ih =>
    obtain ⟨hname, hrest⟩ := List.forall_mem_cons.mp hnames
    exact ih (h.introduceIn hplain hname) hrest

/-- Behind a statement frames lie as before it. -/
theorem behind (h : Encloses seen s globals frame scopes k?)
    (hplain : s.binds frame receiverName = false) (stmt : Stmt)
    (hshaped : ∀ site ∈ stmt.sites scopes, site.Shaped) :
    Encloses seen s globals frame (stmt.scopesAfter scopes) k? := by
  cases stmt with
  | expr value => exact h
  | print value => exact h
  | block body => exact h
  | ret keyword value => exact h
  | var name initial => exact h.introduceIn hplain (hshaped _ List.mem_cons_self)
  | function routine => exact h.introduceIn hplain (hshaped _ List.mem_cons_self)
  | classDecl name methods => exact h.introduceIn hplain (hshaped _ List.mem_cons_self)
  | ifThen condition yes =>
    have hyes : yes.declares = false :=
      hshaped ⟨scopes, .branch yes⟩ (List.mem_append_right _ List.mem_cons_self)
    rw [Stmt.scopesAfter, yes.scopesAfter_of_not_declares scopes hyes]
    exact h
  | ifElse condition yes no =>
    have hyes : yes.declares = false :=
      hshaped ⟨scopes, .branch yes⟩ (List.mem_append_right _ List.mem_cons_self)
    have hno : no.declares = false :=
      hshaped ⟨yes.scopesAfter scopes, .branch no⟩ (List.mem_append_right _
        (List.mem_cons_of_mem _ (List.mem_append_right _ List.mem_cons_self)))
    rw [Stmt.scopesAfter, yes.scopesAfter_of_not_declares scopes hyes,
      no.scopesAfter_of_not_declares scopes hno]
    exact h
  | loop condition body =>
    have hbody : body.declares = false :=
      hshaped ⟨scopes, .branch body⟩ (List.mem_append_right _ List.mem_cons_self)
    rw [Stmt.scopesAfter, body.scopesAfter_of_not_declares scopes hbody]
    exact h

/-- A place where some scope declares the receiver lies inside a bound method. The frame of
the method is as many links out as scopes are open inside the method. -/
theorem reach (h : Encloses seen s globals frame scopes k?)
    (hname : ∃ scope ∈ scopes, scope.contains receiverName = true) :
    ∃ k inner, k? = some k ∧ scopes = inner ++ k.scopes ∧
      (∀ scope ∈ inner, scope.contains receiverName = false) ∧
      s.ancestor? frame inner.length = some k.frame ∧ k.BoundIn s ∧ k.owner.places ⊆ seen := by
  induction h with
  | outermost =>
    obtain ⟨scope, hmem, -⟩ := hname
    cases hmem
  | @inside frame outer scope scopes k? link plain around ih =>
    obtain ⟨holder, hmem, hholder⟩ := hname
    rcases List.mem_cons.mp hmem with rfl | hmem
    · rw [plain] at hholder
      cases hholder
    · obtain ⟨k, inner, hk, rfl, hinner, hlinks, hbound, hknown⟩ := ih ⟨holder, hmem, hholder⟩
      exact ⟨k, scope :: inner, hk, rfl, List.forall_mem_cons.mpr ⟨plain, hinner⟩,
        Option.bind_eq_some_iff.mpr ⟨outer, link, hlinks⟩, hbound, hknown⟩
  | @method k k? bound known around ih =>
    exact ⟨k, [], rfl, rfl, fun _ hmem => absurd hmem List.not_mem_nil, rfl, bound, known⟩

end Encloses

/-- The receiver is declared just outside the scopes that are open inside a method. -/
theorem distance?_receiver {inner : List Scope}
    (hinner : ∀ scope ∈ inner, scope.contains receiverName = false) (k : Method) :
    distance? (inner ++ k.scopes) receiverName = some inner.length := by
  induction inner with
  | nil => rfl
  | cons scope rest ih =>
    obtain ⟨hscope, hrest⟩ := List.forall_mem_cons.mp hinner
    unfold distance? at ih ⊢
    rw [List.cons_append, List.findIdx?_cons, hscope, ih hrest]
    rfl

/-- On the way to a frame some links out lies the frame just inside it. -/
theorem ancestor?_succ {outer : FrameId} {links : Nat}
    (h : s.ancestor? frame (links + 1) = some outer) :
    ∃ inner, s.ancestor? frame links = some inner ∧ s.enclosing? inner = some outer := by
  induction links generalizing frame with
  | zero =>
    obtain ⟨next, hnext, houter⟩ := Option.bind_eq_some_iff.mp h
    cases houter
    exact ⟨frame, rfl, hnext⟩
  | succ links ih =>
    obtain ⟨next, hnext, houter⟩ := Option.bind_eq_some_iff.mp h
    obtain ⟨inner, hinner, hlink⟩ := ih houter
    exact ⟨inner, Option.bind_eq_some_iff.mpr ⟨next, hnext, hinner⟩, hlink⟩

/-- The parameters of a routine that the grammar shaped are not called like the receiver. -/
theorem parameters_shaped {parameters : List Token}
    (h : ∀ site ∈ declarations scopes parameters, site.Shaped) :
    ∀ name ∈ parameters, name.lexeme ≠ receiverName := by
  induction parameters generalizing scopes with
  | nil => exact fun _ hmem => absurd hmem List.not_mem_nil
  | cons name rest ih =>
    obtain ⟨hname, hrest⟩ := List.forall_mem_cons.mp h
    exact List.forall_mem_cons.mpr ⟨hname, ih hrest⟩

end Scriptlet.Receiver
