import Mathlib.Data.Nat.Find
import Mathlib.Order.Bounds.Basic
import Scriptlet.Machine
import Scriptlet.Store.Lemmas

/-!
# Chains of frames and exact distances

A frame is made inside an older one, so that every chain of links comes to an end before
the frames do and the search along it misses nothing. The search for the nearest binding
therefore stops exactly at the least distance at which a frame binds the name, and what is
read or overwritten there is what is read or overwritten at that distance. A write changes
one binding that exists, whatever chain it came along. Programs read and overwrite names
in these ways only.
-/

namespace Scriptlet

namespace Store

variable {s t : Store} {frame outer : FrameId} {links : Nat} {name : String}

/-- The frame so many links out of another one. -/
inductive Outward (s : Store) : FrameId → Nat → FrameId → Prop where
  /-- No link. -/
  | here (frame : FrameId) : Outward s frame 0 frame
  /-- One link, and then the others. -/
  | link {frame outer last : FrameId} {links : Nat} (hlink : s.enclosing? frame = some outer)
    (h : Outward s outer links last) : Outward s frame (links + 1) last

/-- So many links out there is a frame, and it binds a name. -/
def BindsAt (s : Store) (frame : FrameId) (name : String) (links : Nat) : Prop :=
  ∃ outer, s.Outward frame links outer ∧ s.binds outer name = true

/-- What a write leaves: the store that it made, or the old one if it failed. -/
def behind (s : Store) : Except RuntimeError Store → Store
  | .ok t => t
  | .error _ => s

/-- One step of making frames and of binding names in them. -/
inductive Building (s : Store) : Store → Prop where
  /-- A frame with nothing around it. -/
  | root : Building s (s.addFrame {}).2
  /-- A frame inside one that exists. -/
  | child {outer : FrameId} (h : outer < s.frames.size) :
    Building s (s.addFrame { enclosing := some outer }).2
  /-- A name is bound in a frame that exists. -/
  | define {frame : FrameId} (h : frame < s.frames.size) (name : String) (value : Value) :
    Building s (s.define frame name value)
  /-- The nearest binding of a name is overwritten, or there is none. -/
  | assign (frame : FrameId) (name : Token) (value : Value) :
    Building s (s.behind (s.assign frame name value))
  /-- The binding of a name so many links out is overwritten, or there is none. -/
  | assignAt (frame : FrameId) (links : Nat) (name : Token) (value : Value) :
    Building s (s.behind (s.assignAt frame links name value))

/-- The stores that such steps build. -/
inductive Built : Store → Prop where
  /-- The store before the first step. -/
  | empty : Built {}
  /-- One step more. -/
  | step {s t : Store} (h : Built s) (hstep : Building s t) : Built t

/-- Behind a write one binding has a new value: it was there before, and everything else is
as it was. -/
structure Overwrites (s : Store) (frame : FrameId) (name : String) (value : Value)
    (t : Store) : Prop where
  /-- The binding was there. -/
  bound : s.binds frame name = true
  /-- It has the new value. -/
  written : t.local? frame name = some value
  /-- All other bindings have their old values, and those that were not there are not. -/
  others : ∀ other sought, ¬ (other = frame ∧ sought = name) →
    t.local? other sought = s.local? other sought
  /-- There are as many frames. -/
  size : t.frames.size = s.frames.size
  /-- The frames are linked as they were. -/
  enclosing : ∀ other, t.enclosing? other = s.enclosing? other
  /-- Nothing but frames is touched. -/
  rest : t.functions = s.functions ∧ t.classes = s.classes ∧ t.objects = s.objects

/-- What overwriting a name does, along the chain or at a distance: where it succeeds, it
overwrites one binding, and otherwise it leaves everything as it is. -/
def WritesOnce (s : Store) (name : Token) (value : Value) (result : Except RuntimeError Store)
    (reached : FrameId → Prop) : Prop :=
  (∀ t, result = .ok t → ∃ outer, reached outer ∧ s.Overwrites outer name.lexeme value t) ∧
    ∀ e, result = .error e → s.behind result = s

/-- The chain of a frame and exact distances from it agree on a name. -/
structure Agrees (s : Store) (frame : FrameId) (name : Token) (value : Value) : Prop where
  /-- Along the chain the name is read where some frame binds it, -/
  get : (∃ found, s.get frame name = .ok found) ↔ ∃ links, s.BindsAt frame name.lexeme links
  /-- and is overwritten where it is read. -/
  assign : (∃ t, s.assign frame name value = .ok t) ↔ ∃ found, s.get frame name = .ok found
  /-- Both are done at the least distance at which a frame binds the name. -/
  nearest : ∀ links, IsLeast {n | s.BindsAt frame name.lexeme n} links →
    s.get frame name = s.getAt frame links name ∧
      s.assign frame name value = s.assignAt frame links name value
  /-- At a distance the name is read where there are so many links and the frame behind them
  binds it, with the value that it has there, -/
  getAt : ∀ links found, s.getAt frame links name = .ok found ↔
    ∃ outer, s.Outward frame links outer ∧ s.local? outer name.lexeme = some found
  /-- and is overwritten where it is read. -/
  assignAt : ∀ links, (∃ t, s.assignAt frame links name value = .ok t) ↔
    s.BindsAt frame name.lexeme links
  /-- Along the chain at most one binding is overwritten, -/
  assigned : s.WritesOnce name value (s.assign frame name value) fun outer =>
    ∃ links, s.Outward frame links outer
  /-- and so it is at a distance. -/
  assignedAt : ∀ links, s.WritesOnce name value (s.assignAt frame links name value) fun outer =>
    s.Outward frame links outer
  /-- Whatever fails reports the name with its line. -/
  failed : ∀ e, s.get frame name = .error e ∨ (∃ links, s.getAt frame links name = .error e) ∨
    s.assign frame name value = .error e ∨
      (∃ links, s.assignAt frame links name value = .error e) →
    e.diagnostic = .runtime name.line ("Undefined variable '" ++ name.lexeme ++ "'.")

/-- Frames are linked to older ones only. -/
def Older (s : Store) : Prop := ∀ frame outer, s.enclosing? frame = some outer → outer < frame

/-- Following links counts them. -/
theorem ancestor?_eq_some_iff :
    s.ancestor? frame links = some outer ↔ s.Outward frame links outer := by
  constructor
  · intro h
    induction links generalizing frame with
    | zero =>
      cases h
      exact .here outer
    | succ links ih =>
      obtain ⟨next, hlink, hrest⟩ := Option.bind_eq_some_iff.mp h
      exact .link hlink (ih hrest)
  · intro h
    induction h with
    | here frame => rfl
    | link hlink _ ih => exact Option.bind_eq_some_iff.mpr ⟨_, hlink, ih⟩

/-- No link out there is the frame itself. -/
theorem bindsAt_zero : s.BindsAt frame name 0 ↔ s.binds frame name = true := by
  constructor
  · rintro ⟨outer, hout, hbinds⟩
    cases hout
    exact hbinds
  · exact fun hbinds => ⟨frame, .here frame, hbinds⟩

/-- One link more is as many from the frame around. -/
theorem bindsAt_succ :
    s.BindsAt frame name (links + 1) ↔
      ∃ outer, s.enclosing? frame = some outer ∧ s.BindsAt outer name links := by
  constructor
  · rintro ⟨last, hout, hbinds⟩
    cases hout with
    | link hlink hrest => exact ⟨_, hlink, last, hrest, hbinds⟩
  · rintro ⟨outer, hlink, last, hrest, hbinds⟩
    exact ⟨last, .link hlink hrest, hbinds⟩

/-- Steps enough to reach the nearest binding find it, at its distance. -/
theorem nearestWithin_of_isLeast {steps : Nat} (h : IsLeast {n | s.BindsAt frame name n} links)
    (hsteps : links < steps) : s.nearestWithin name steps frame = s.ancestor? frame links := by
  induction steps generalizing frame links with
  | zero => exact absurd hsteps (Nat.not_lt_zero links)
  | succ steps ih =>
    obtain ⟨hbound, hleast⟩ := h
    unfold nearestWithin
    cases links with
    | zero =>
      have hbinds : s.binds frame name = true := bindsAt_zero.mp hbound
      rw [if_pos hbinds]
      rfl
    | succ links =>
      obtain ⟨outer, hlink, hrest⟩ := bindsAt_succ.mp hbound
      have hpassed : ¬ s.binds frame name = true := fun hbinds =>
        absurd (hleast (bindsAt_zero.mpr hbinds)) (Nat.not_succ_le_zero links)
      have hnearest : IsLeast {n | s.BindsAt outer name n} links :=
        ⟨hrest, fun n hn => Nat.le_of_succ_le_succ (hleast (bindsAt_succ.mpr ⟨outer, hlink, hn⟩))⟩
      rw [if_neg hpassed, ancestor?, hlink]
      exact ih hnearest (Nat.lt_of_succ_lt_succ hsteps)

/-- Where no frame on the way binds a name, none is found. -/
theorem nearestWithin_eq_none (h : ∀ n, ¬ s.BindsAt frame name n) (steps : Nat) :
    s.nearestWithin name steps frame = none := by
  induction steps generalizing frame with
  | zero => rfl
  | succ steps ih =>
    unfold nearestWithin
    rw [if_neg fun hbinds => h 0 (bindsAt_zero.mpr hbinds)]
    refine Option.bind_eq_none_iff.mpr fun outer hlink => ih fun n hn => ?_
    exact h (n + 1) (bindsAt_succ.mpr ⟨outer, hlink, hn⟩)

/-- Every link leads to an older frame. -/
theorem Outward.add_le (h : s.Outward frame links outer) (holder : s.Older) :
    outer + links ≤ frame := by
  induction h with
  | here frame => exact Nat.le_refl frame
  | link hlink _ ih => exact Nat.succ_le_of_lt (Nat.lt_of_le_of_lt ih (holder _ _ hlink))

/-- A binding is fewer links out than there are frames. -/
theorem BindsAt.lt_size (h : s.BindsAt frame name links) (holder : s.Older) :
    links < s.frames.size := by
  obtain ⟨outer, hout, hbinds⟩ := h
  have hle : links ≤ frame := Nat.le_trans (Nat.le_add_left links outer) (hout.add_le holder)
  cases hout with
  | here => exact Nat.zero_lt_of_lt (lt_size_of_binds hbinds)
  | link hlink _ => exact Nat.lt_of_le_of_lt hle (lt_size_of_enclosing hlink)

/-- The search for a name goes exactly as far as the nearest frame that binds it. -/
theorem nearest?_of_isLeast (h : IsLeast {n | s.BindsAt frame name n} links) (holder : s.Older) :
    s.nearest? frame name = s.ancestor? frame links :=
  nearestWithin_of_isLeast h (h.1.lt_size holder)

/-- Of the distances at which a name is bound one is the least, if there are any. -/
theorem exists_isLeast (h : ∃ n, s.BindsAt frame name n) :
    ∃ links, IsLeast {n | s.BindsAt frame name n} links := by
  classical
  exact ⟨Nat.find h, Nat.find_spec h, fun _ hn => Nat.find_min' h hn⟩

/-- The search finds the frame at the least distance, or nothing where no frame on the way binds
the name. -/
theorem nearest?_cases (holder : s.Older) (frame : FrameId) (name : String) :
    (∃ links, IsLeast {n | s.BindsAt frame name n} links ∧
        s.nearest? frame name = s.ancestor? frame links) ∨
      (∀ n, ¬ s.BindsAt frame name n) ∧ s.nearest? frame name = none := by
  by_cases h : ∃ n, s.BindsAt frame name n
  · obtain ⟨links, hleast⟩ := exists_isLeast h
    exact Or.inl ⟨links, hleast, nearest?_of_isLeast hleast holder⟩
  · have hnone := not_exists.mp h
    exact Or.inr ⟨hnone, nearestWithin_eq_none hnone _⟩

/-- A frame so many links out that binds a name is what is found there. -/
theorem exists_ancestor?_iff :
    (∃ outer, s.ancestor? frame links = some outer ∧ s.binds outer name = true) ↔
      s.BindsAt frame name links := by
  simp only [ancestor?_eq_some_iff, BindsAt]

/-- The search finds a frame that binds the name where there is one on the chain. -/
theorem exists_nearest?_iff (holder : s.Older) :
    (∃ outer, s.nearest? frame name = some outer ∧ s.binds outer name = true) ↔
      ∃ links, s.BindsAt frame name links := by
  rcases nearest?_cases holder frame name with ⟨links, hleast, hfound⟩ | ⟨hnone, hfound⟩
  · rw [hfound, exists_ancestor?_iff]
    exact iff_of_true hleast.1 ⟨links, hleast.1⟩
  · rw [hfound]
    exact iff_of_false (fun ⟨_, hsome, _⟩ => Option.some_ne_none _ hsome.symm)
      fun ⟨n, hn⟩ => hnone n hn

/-- What the search finds is on the chain. -/
theorem exists_outward_of_nearest? (holder : s.Older)
    (h : s.nearest? frame name = some outer) : ∃ links, s.Outward frame links outer := by
  rcases nearest?_cases holder frame name with ⟨links, -, hfound⟩ | ⟨-, hfound⟩
  · exact ⟨links, ancestor?_eq_some_iff.mp (hfound.symm.trans h)⟩
  · rw [hfound] at h
    cases h

section Access

variable {frame? : Option FrameId} {token : Token} {value found : Value}

/-- A name is read where a frame was found that binds it. -/
theorem readIn_eq_ok_iff :
    s.readIn frame? token = .ok found ↔
      ∃ outer, frame? = some outer ∧ s.local? outer token.lexeme = some found := by
  rw [← Option.bind_eq_some_iff]
  unfold readIn
  cases frame?.bind fun outer => s.local? outer token.lexeme with
  | none => exact iff_of_false nofun nofun
  | some value => simp

/-- A name is overwritten where a frame was found that binds it. -/
theorem writeIn_eq_ok_iff :
    s.writeIn frame? token value = .ok t ↔
      ∃ outer, frame? = some outer ∧ s.binds outer token.lexeme = true ∧
        t = s.define outer token.lexeme value := by
  unfold writeIn
  cases hfound : frame?.filter fun outer => s.binds outer token.lexeme with
  | none =>
    rw [Option.filter_eq_none_iff] at hfound
    refine iff_of_false nofun ?_
    rintro ⟨outer, rfl, hbinds, -⟩
    exact hfound outer rfl hbinds
  | some outer =>
    obtain ⟨rfl, hbinds⟩ := Option.filter_eq_some_iff.mp hfound
    constructor
    · intro h
      exact ⟨outer, rfl, hbinds, (Except.ok.inj h).symm⟩
    · rintro ⟨other, hother, -, rfl⟩
      cases hother
      rfl

/-- Whether a name is read depends only on whether the frame that was found binds it, -/
theorem exists_readIn_iff :
    (∃ found, s.readIn frame? token = .ok found) ↔
      ∃ outer, frame? = some outer ∧ s.binds outer token.lexeme = true := by
  simp only [readIn_eq_ok_iff, binds, Option.isSome_iff_exists]
  exact ⟨fun ⟨found, outer, houter, hfound⟩ => ⟨outer, houter, found, hfound⟩,
    fun ⟨outer, houter, found, hfound⟩ => ⟨found, outer, houter, hfound⟩⟩

/-- and so does whether it is overwritten. -/
theorem exists_writeIn_iff :
    (∃ t, s.writeIn frame? token value = .ok t) ↔
      ∃ outer, frame? = some outer ∧ s.binds outer token.lexeme = true := by
  simp only [writeIn_eq_ok_iff]
  exact ⟨fun ⟨_, outer, houter, hbinds, _⟩ => ⟨outer, houter, hbinds⟩,
    fun ⟨outer, houter, hbinds⟩ => ⟨_, outer, houter, hbinds, rfl⟩⟩

/-- A name that is not read is reported with its line. -/
theorem eq_undefined_of_readIn {e : RuntimeError} (h : s.readIn frame? token = .error e) :
    e = .undefined token := by
  unfold readIn at h
  split at h <;> cases h
  rfl

/-- A name that is not overwritten is reported with its line. -/
theorem eq_undefined_of_writeIn {e : RuntimeError} (h : s.writeIn frame? token value = .error e) :
    e = .undefined token := by
  unfold writeIn at h
  split at h <;> cases h
  rfl

/-- Overwriting a binding that is there changes nothing else. -/
theorem overwrites_define (h : s.binds frame name = true) (value : Value) :
    s.Overwrites frame name value (s.define frame name value) where
  bound := h
  written := by
    rw [local?_define s frame frame name name value (lt_size_of_binds h), if_pos ⟨rfl, rfl⟩]
  others := by
    intro other sought hother
    rw [local?_define s frame other name sought value (lt_size_of_binds h)]
    exact if_neg fun heq => hother ⟨heq.1.symm, heq.2.symm⟩
  size := size_define s frame name value
  enclosing := fun other => enclosing?_define s frame other name value
  rest := ⟨rfl, rfl, rfl⟩

/-- A write to a frame that was found overwrites one binding there, or does nothing. -/
theorem writesOnce_writeIn {reached : FrameId → Prop}
    (h : ∀ outer, frame? = some outer → reached outer) :
    s.WritesOnce token value (s.writeIn frame? token value) reached := by
  constructor
  · intro t ht
    obtain ⟨outer, houter, hbinds, rfl⟩ := writeIn_eq_ok_iff.mp ht
    exact ⟨outer, h outer houter, overwrites_define hbinds value⟩
  · intro e he
    rw [he]
    rfl

end Access

/-- Binding a name keeps the links. -/
theorem Older.define (h : s.Older) (frame : FrameId) (name : String) (value : Value) :
    (s.define frame name value).Older := by
  intro inner outer hlink
  rw [enclosing?_define] at hlink
  exact h inner outer hlink

/-- A new frame is linked to an older one, if to any. -/
theorem Older.addFrame (h : s.Older) {new : Frame}
    (hnew : ∀ outer, new.enclosing = some outer → outer < s.frames.size) :
    (s.addFrame new).2.Older := by
  intro inner outer hlink
  rw [enclosing?_addFrame] at hlink
  split at hlink
  · rename_i hinner
    exact hinner ▸ hnew outer hlink
  · exact h inner outer hlink

/-- A write keeps the links, whether it succeeds or not. -/
theorem Older.writeIn (h : s.Older) (frame? : Option FrameId) (token : Token) (value : Value) :
    (s.behind (s.writeIn frame? token value)).Older := by
  cases hresult : s.writeIn frame? token value with
  | error e => exact h
  | ok t =>
    obtain ⟨outer, -, -, rfl⟩ := writeIn_eq_ok_iff.mp hresult
    exact h.define outer token.lexeme value

/-- Whatever a step builds, frames stay linked to older ones. -/
theorem Building.older (hstep : Building s t) (h : s.Older) : t.Older := by
  cases hstep with
  | root => exact h.addFrame nofun
  | child houter => exact h.addFrame fun outer heq => Option.some.inj heq ▸ houter
  | define _ name value => exact h.define _ name value
  | assign frame name value => exact h.writeIn _ name value
  | assignAt frame links name value => exact h.writeIn _ name value

/-- Whatever steps build, frames are linked to older ones. -/
theorem Built.older (h : Built s) : s.Older := by
  induction h with
  | empty =>
    exact fun frame outer hlink => absurd (lt_size_of_enclosing hlink) (Nat.not_lt_zero frame)
  | step _ hstep ih => exact hstep.older ih

/-- Chains and exact distances agree. In every store that is built by making frames, alone or
inside one that exists, by binding names and by overwriting them along chains and at distances,
and from every frame: reading a name along the chain succeeds exactly where overwriting it does,
and where some frame on the chain binds it; both do there what they do at the least distance of
such a frame. At a distance they succeed exactly where there are so many links and that very frame
binds the name. A write that succeeds changes one binding, which was there; one that fails changes
nothing, and every failure reports the name with its line. -/
theorem nearest_is_exact (h : Built s) (frame : FrameId) (name : Token) (value : Value) :
    s.Agrees frame name value where
  get := exists_readIn_iff.trans (exists_nearest?_iff h.older)
  assign := exists_writeIn_iff.trans exists_readIn_iff.symm
  nearest := by
    intro links hleast
    have hfound := nearest?_of_isLeast hleast h.older
    exact ⟨congrArg (s.readIn · name) hfound, congrArg (s.writeIn · name value) hfound⟩
  getAt := by
    intro links found
    simp only [← ancestor?_eq_some_iff]
    exact readIn_eq_ok_iff
  assignAt := fun _ => exists_writeIn_iff.trans exists_ancestor?_iff
  assigned := writesOnce_writeIn fun _ => exists_outward_of_nearest? h.older
  assignedAt := fun _ => writesOnce_writeIn fun _ => ancestor?_eq_some_iff.mp
  failed := by
    rintro e (hget | ⟨links, hgetAt⟩ | hassign | ⟨links, hassignAt⟩)
    · rw [eq_undefined_of_readIn hget]
      rfl
    · rw [eq_undefined_of_readIn hgetAt]
      rfl
    · rw [eq_undefined_of_writeIn hassign]
      rfl
    · rw [eq_undefined_of_writeIn hassignAt]
      rfl

/-- Two frames inside one that binds a name over another binding of it farther out. -/
def shadowed : Store :=
  let outermost := (({} : Store).addFrame {}).2.define 0 "v" (.bool true)
  let middle := (outermost.addFrame { enclosing := some 0 }).2.define 1 "v" .nil
  ((middle.addFrame { enclosing := some 1 }).2.addFrame { enclosing := some 1 }).2

/-- From the inner frames the name is overwritten in the middle one. -/
theorem nearest_is_exact_shadowed :
    let v : Token := ⟨.identifier, "v", none, 1⟩
    Built shadowed ∧ IsLeast {n | shadowed.BindsAt 3 "v" n} 1 ∧
      shadowed.get 3 v = shadowed.getAt 3 1 v ∧
      shadowed.assign 3 v (.bool false) = shadowed.assignAt 3 1 v (.bool false) ∧
      shadowed.Agrees 3 v (.bool false) := by
  intro v
  have hbuilt : Built shadowed :=
    ((((((Built.empty.step .root).step (.define (by decide) "v" (.bool true))).step
      (.child (by decide))).step (.define (by decide) "v" .nil)).step (.child (by decide))).step
      (.child (by decide)))
  have hagrees := nearest_is_exact hbuilt 3 v (.bool false)
  have hleast : IsLeast {n | shadowed.BindsAt 3 "v" n} 1 := by
    refine ⟨⟨1, .link rfl (.here 1), rfl⟩, fun n hn => Nat.pos_of_ne_zero ?_⟩
    rintro rfl
    have hbinds := bindsAt_zero.mp hn
    cases hbinds
  exact ⟨hbuilt, hleast, (hagrees.nearest 1 hleast).1, (hagrees.nearest 1 hleast).2, hagrees⟩

end Store

namespace Machine

/-- A program reads a name at its recorded distance, or else along the chain of the globals. -/
theorem readName_eq (m : Machine) (id : Nat) (name : Token) :
    readName id name m = ofExcept (match m.hops.get? id with
      | some links => m.store.getAt m.scope links name
      | none => m.store.get m.globals name) m := by
  have hframe : m.store.readIn (m.frameOf? id name) name = match m.hops.get? id with
      | some links => m.store.getAt m.scope links name
      | none => m.store.get m.globals name := by
    unfold frameOf?
    cases m.hops.get? id <;> rfl
  rw [← hframe]
  unfold readName
  cases m.store.readIn (m.frameOf? id name) name <;> rfl

/-- A program overwrites a name at its recorded distance, or else along the chain of the globals,
and where that fails the machine is as it was. -/
theorem writeName_eq (m : Machine) (id : Nat) (name : Token) (value : Value) :
    writeName id name value m = match (match m.hops.get? id with
        | some links => m.store.assignAt m.scope links name value
        | none => m.store.assign m.globals name value) with
      | .ok store => .ok () { m with store }
      | .error e => .error (.fault e) m := by
  have hframe : m.store.writeIn (m.frameOf? id name) name value = match m.hops.get? id with
      | some links => m.store.assignAt m.scope links name value
      | none => m.store.assign m.globals name value := by
    unfold frameOf?
    cases m.hops.get? id <;> rfl
  rw [← hframe]
  unfold writeName Store.writeIn
  cases (m.frameOf? id name).filter fun frame => m.store.binds frame name.lexeme <;> rfl

end Machine

end Scriptlet
