import Scriptlet.Machine.Run
import Scriptlet.Proofs.Binding.Settled
import Scriptlet.Proofs.Lexical.Run
import Scriptlet.Store.Lemmas

/-!
# Locations laid out in frames

A machine and a state under lexical scoping side by side. The layout says for
each location the frame and the name in that frame that hold its value in the
machine. Names in force agree with a chain of frames when, scope by scope, the
names of the scope stand for locations in the frame of the scope, and what the
scope does not list is what the names further out say. A chain may hold more
than its scopes list: frames gain names behind the places that captured them.
-/

namespace Scriptlet.Lexical

open Binding

/-- For each location the frame and the name that hold its value. -/
abbrev Layout := List (FrameId × String)

/-- The scopes, from a frame outward, and the names in force there agree, with
the globals as the last frame. Every name of a scope is bound in its frame; only
the one that is being initialised may still be unbound. -/
inductive Lies (layout : Layout) (store : Store) (globals : FrameId) :
    Option String → FrameId → List Scope → Env → Prop where
  | top : Lies layout store globals none globals [] none
  | inner {initialising : Option String} {frame outer : FrameId} {scope : Scope}
    {scopes : List Scope} {env : Env} {names : Table String Location}
    (link : store.enclosing? frame = some outer)
    (around : Lies layout store globals none outer scopes env)
    (own : ∀ x, scope.contains x = true →
      ∃ location, names.get? x = some location ∧ layout[location]? = some (frame, x))
    (others : ∀ x, scope.contains x = false → names.get? x = env.find? x)
    (bound : ∀ x, scope.contains x = true → initialising = some x ∨ store.binds frame x = true)
    (pending : ∀ x, initialising = some x → scope.get? x = some false) :
    Lies layout store globals initialising frame (scope :: scopes) (some names)

/-- What never changes back while a program runs: locations keep their places,
frames their links and names. New places lie in new frames, or in one frame
that gains names. -/
structure Grows (gaining : Option FrameId) (layout : Layout) (store : Store) (layout' : Layout)
    (store' : Store) : Prop where
  /-- Locations keep their places. -/
  places : layout <+: layout'
  /-- Frames stay. -/
  size : store.frames.size ≤ store'.frames.size
  /-- Links stay. -/
  links : ∀ frame outer, store.enclosing? frame = some outer → store'.enclosing? frame = some outer
  /-- Bound names stay bound. -/
  binds : ∀ frame name, store.binds frame name = true → store'.binds frame name = true
  /-- New places lie in new frames. -/
  fresh : ∀ frame name, (frame, name) ∈ layout' →
    (frame, name) ∈ layout ∨ store.frames.size ≤ frame ∨ gaining = some frame

namespace Grows

variable {gaining : Option FrameId} {a b c : Layout} {s t u : Store}

/-- Nothing changes. -/
theorem refl (gaining : Option FrameId) (a : Layout) (s : Store) : Grows gaining a s a s :=
  ⟨List.prefix_refl a, Nat.le_refl _, fun _ _ h => h, fun _ _ h => h, fun _ _ h => Or.inl h⟩

/-- One change after another. -/
theorem trans (h : Grows gaining a s b t) (h' : Grows gaining b t c u) : Grows gaining a s c u where
  places := h.places.trans h'.places
  size := Nat.le_trans h.size h'.size
  links frame outer hlink := h'.links frame outer (h.links frame outer hlink)
  binds frame name hbinds := h'.binds frame name (h.binds frame name hbinds)
  fresh frame name hmem := by
    rcases h'.fresh frame name hmem with hold | hnew | hgains
    · exact h.fresh frame name hold
    · exact Or.inr (Or.inl (Nat.le_trans h.size hnew))
    · exact Or.inr (Or.inr hgains)

/-- Where no frame gains names, one may be claimed to. -/
theorem weaken (h : Grows none a s b t) (gaining : Option FrameId) : Grows gaining a s b t :=
  ⟨h.places, h.size, h.links, h.binds, fun frame name hmem =>
    (h.fresh frame name hmem).imp_right fun hnew => hnew.imp_right fun hgains => by cases hgains⟩

/-- A frame that is new does not count as one that gains names. -/
theorem strengthen {frame : FrameId} (h : Grows (some frame) a s b t)
    (hnew : s.frames.size ≤ frame) : Grows none a s b t := by
  refine ⟨h.places, h.size, h.links, h.binds, fun other name hmem => ?_⟩
  rcases h.fresh other name hmem with hold | hold | hgains
  · exact Or.inl hold
  · exact Or.inr (Or.inl hold)
  · cases hgains
    exact Or.inr (Or.inl hnew)

/-- Defining a name. -/
theorem define {frame : FrameId} (hframe : frame < s.frames.size) (a : Layout) (name : String)
    (value : Value) : Grows none a s a (s.define frame name value) := by
  refine ⟨List.prefix_refl a, by simp, ?_, ?_, fun _ _ hmem => Or.inl hmem⟩
  · intro other outer hlink
    rwa [Store.enclosing?_define]
  · intro other sought hbinds
    rw [Store.binds_define s frame other name sought value hframe, hbinds, Bool.or_true]

/-- Adding a frame. -/
theorem addFrame (a : Layout) (s : Store) (frame : Frame) :
    Grows none a s a (s.addFrame frame).2 := by
  refine ⟨List.prefix_refl a, by simp, ?_, ?_, fun _ _ hmem => Or.inl hmem⟩
  · intro other outer hlink
    have hother := Store.lt_size_of_enclosing hlink
    rwa [Store.enclosing?_addFrame, if_neg (Nat.ne_of_lt hother)]
  · intro other sought hbinds
    have hother := Store.lt_size_of_binds hbinds
    unfold Store.binds at hbinds ⊢
    rwa [Store.local?_addFrame, if_neg (Nat.ne_of_lt hother)]

/-- A new place for a name of a frame. -/
theorem declare (a : Layout) (s : Store) (frame : FrameId) (name : String) :
    Grows (some frame) a s (a ++ [(frame, name)]) s := by
  refine ⟨List.prefix_append _ _, Nat.le_refl _, fun _ _ h => h, fun _ _ h => h, ?_⟩
  intro other sought hmem
  rcases List.mem_append.mp hmem with hold | hnew
  · exact Or.inl hold
  · cases List.mem_singleton.mp hnew
    exact Or.inr (Or.inr rfl)

/-- What is not about frames. -/
theorem of_frames (a : Layout) (h : t.frames = s.frames) : Grows none a s a t := by
  have hsize : s.frames.size ≤ t.frames.size := Nat.le_of_eq (congrArg Array.size h).symm
  refine ⟨List.prefix_refl a, hsize, ?_, ?_, fun _ _ hmem => Or.inl hmem⟩
  · intro frame outer hlink
    unfold Store.enclosing? at hlink ⊢
    rwa [h]
  · intro frame name hbinds
    unfold Store.binds Store.local? at hbinds ⊢
    rwa [h]

/-- Locations keep their places. -/
theorem place (h : Grows gaining a s b t) {location : Location} {place : FrameId × String}
    (hplace : a[location]? = some place) : b[location]? = some place := by
  obtain ⟨more, rfl⟩ := h.places
  rw [List.getElem?_append_left (List.getElem?_eq_some_iff.mp hplace).1]
  exact hplace

end Grows

/-- A name is as far out as in the scopes around, unless the innermost scope declares it. -/
theorem distance?_cons (scope : Scope) (scopes : List Scope) (name : String) :
    distance? (scope :: scopes) name =
      if scope.contains name = true then some 0 else (distance? scopes name).map (· + 1) := by
  unfold distance?
  rw [List.findIdx?_cons]

namespace Lies

variable {layout layout' : Layout} {store store' : Store} {globals frame : FrameId}
  {initialising : Option String} {gaining : Option FrameId} {scopes : List Scope} {env : Env}

/-- Agreement outlasts everything that a program does. -/
theorem grows (h : Lies layout store globals initialising frame scopes env)
    (hgrows : Grows gaining layout store layout' store') :
    Lies layout' store' globals initialising frame scopes env := by
  induction h with
  | top => exact .top
  | inner link _ own others bound pending ih =>
    refine .inner (hgrows.links _ _ link) ih ?_ others ?_ pending
    · intro x hx
      obtain ⟨location, hname, hplace⟩ := own x hx
      exact ⟨location, hname, hgrows.place hplace⟩
    · exact fun x hx => (bound x hx).imp_right (hgrows.binds _ x)

/-- What agreement says at the top level. -/
theorem outermost (h : Lies layout store globals initialising frame [] env) :
    frame = globals ∧ env = none := by
  cases h with
  | top => exact ⟨rfl, rfl⟩

/-- What agreement says of the innermost scope. -/
theorem innermost {scope : Scope}
    (h : Lies layout store globals initialising frame (scope :: scopes) env) :
    ∃ outer around names, env = some names ∧ store.enclosing? frame = some outer ∧
      Lies layout store globals none outer scopes around ∧
      (∀ x, scope.contains x = true →
        ∃ location, names.get? x = some location ∧ layout[location]? = some (frame, x)) ∧
      (∀ x, scope.contains x = false → names.get? x = around.find? x) ∧
      ∀ x, scope.contains x = true → initialising = some x ∨ store.binds frame x = true := by
  cases h with
  | inner link around own others bound _ =>
    exact ⟨_, _, _, rfl, link, around, own, others, bound⟩

/-- The frame exists. -/
theorem lt_size (h : Lies layout store globals initialising frame scopes env)
    (hglobals : globals < store.frames.size) : frame < store.frames.size := by
  cases h with
  | top => exact hglobals
  | inner link _ _ _ _ _ => exact Store.lt_size_of_enclosing link

/-- The chain has one frame for each scope and ends at the globals. -/
theorem chain (h : Lies layout store globals initialising frame scopes env) :
    store.ancestor? frame scopes.length = some globals := by
  induction h with
  | top => rfl
  | inner link _ _ _ _ _ ih => exact Option.bind_eq_some_iff.mpr ⟨_, link, ih⟩

/-- A name that no scope declares is not in force. -/
theorem find?_eq_none (h : Lies layout store globals initialising frame scopes env) {name : String}
    (hname : distance? scopes name = none) : env.find? name = none := by
  induction h with
  | top => rfl
  | @inner _ _ _ scope _ _ _ _ _ _ others _ _ ih =>
    rw [distance?_cons] at hname
    split at hname
    · cases hname
    · rename_i hscope
      have haround := ih (Option.map_eq_none_iff.mp hname)
      exact (others name ((Bool.not_eq_true _).mp hscope)).trans haround

/-- A name that a scope declares stands for a location in the frame so many links
out, and that frame binds it unless it is just being initialised. -/
theorem reach (h : Lies layout store globals initialising frame scopes env) {name : String}
    {d : Nat} (hname : distance? scopes name = some d) :
    ∃ outer location, store.ancestor? frame d = some outer ∧ env.find? name = some location ∧
      layout[location]? = some (outer, name) ∧
      (initialising = some name ∧ isPending scopes name = true ∨ store.binds outer name = true) := by
  induction h generalizing d with
  | top => cases hname
  | @inner _ frame _ scope _ _ _ link _ own others bound pending ih =>
    rw [distance?_cons] at hname
    split at hname
    · rename_i hscope
      cases hname
      obtain ⟨location, hlocation, hplace⟩ := own name hscope
      refine ⟨frame, location, rfl, hlocation, hplace, (bound name hscope).imp_left fun hinit => ?_⟩
      exact ⟨hinit, beq_iff_eq.mpr (pending name hinit)⟩
    · rename_i hscope
      obtain ⟨before, hbefore, rfl⟩ := Option.map_eq_some_iff.mp hname
      obtain ⟨outer, location, houter, hlocation, hplace, hbound⟩ := ih hbefore
      refine ⟨outer, location, Option.bind_eq_some_iff.mpr ⟨_, link, houter⟩, ?_, hplace, Or.inr ?_⟩
      · exact (others name ((Bool.not_eq_true _).mp hscope)).trans hlocation
      · exact hbound.resolve_left fun hinit => by cases hinit.1

end Lies

end Scriptlet.Lexical
