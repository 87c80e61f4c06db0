import Scriptlet.Store

/-!
# What the operations of a store do to its frames

Defining a name changes one binding of one frame and no link. Adding a frame
changes no older frame.
-/

namespace Scriptlet.Store

/-- Defining a name sets it in its frame and leaves every other binding alone. -/
theorem local?_define (s : Store) (frame other : FrameId) (name sought : String) (value : Value)
    (h : frame < s.frames.size) :
    (s.define frame name value).local? other sought =
      if frame = other ∧ name = sought then some value else s.local? other sought := by
  unfold define local?
  dsimp only
  rw [Array.getElem?_modify]
  by_cases hf : frame = other
  · subst hf
    rw [Array.getElem?_eq_getElem h]
    by_cases hn : name = sought <;> simp [hn]
  · simp [hf]

/-- Defining a name keeps every link. -/
theorem enclosing?_define (s : Store) (frame other : FrameId) (name : String) (value : Value) :
    (s.define frame name value).enclosing? other = s.enclosing? other := by
  unfold define enclosing?
  dsimp only
  rw [Array.getElem?_modify]
  by_cases hf : frame = other
  · subst hf
    cases s.frames[frame]? <;> simp
  · simp [hf]

/-- A new frame is the only change that adding it makes. -/
theorem getElem?_addFrame (s : Store) (frame : Frame) (id : FrameId) :
    (s.addFrame frame).2.frames[id]? =
      if id = (s.addFrame frame).1 then some frame else s.frames[id]? := by
  unfold addFrame
  dsimp only
  rw [Array.getElem?_push]

/-- Defining a name makes no frame. -/
@[simp] theorem size_define (s : Store) (frame : FrameId) (name : String) (value : Value) :
    (s.define frame name value).frames.size = s.frames.size := Array.size_modify

/-- Defining a name binds it in its frame and unbinds none. -/
theorem binds_define (s : Store) (frame other : FrameId) (name sought : String) (value : Value)
    (h : frame < s.frames.size) :
    (s.define frame name value).binds other sought =
      (decide (frame = other ∧ name = sought) || s.binds other sought) := by
  unfold binds
  rw [local?_define s frame other name sought value h]
  by_cases heq : frame = other ∧ name = sought <;> simp [heq]

/-- The bindings of frames behind the addition of one. -/
theorem local?_addFrame (s : Store) (frame : Frame) (id : FrameId) (name : String) :
    (s.addFrame frame).2.local? id name =
      if id = s.frames.size then frame.bindings.get? name else s.local? id name := by
  unfold local?
  rw [getElem?_addFrame]
  split
  · rename_i h
    rw [if_pos (show id = s.frames.size from h)]
    rfl
  · rename_i h
    rw [if_neg (show ¬ id = s.frames.size from h)]

/-- The links of frames behind the addition of one. -/
theorem enclosing?_addFrame (s : Store) (frame : Frame) (id : FrameId) :
    (s.addFrame frame).2.enclosing? id =
      if id = s.frames.size then frame.enclosing else s.enclosing? id := by
  unfold enclosing?
  rw [getElem?_addFrame]
  split
  · rename_i h
    rw [if_pos (show id = s.frames.size from h)]
    rfl
  · rename_i h
    rw [if_neg (show ¬ id = s.frames.size from h)]

/-- Adding a frame makes one more. -/
@[simp] theorem size_addFrame (s : Store) (frame : Frame) :
    (s.addFrame frame).2.frames.size = s.frames.size + 1 := Array.size_push frame

/-- A frame that is linked outward exists. -/
theorem lt_size_of_enclosing {s : Store} {frame outer : FrameId}
    (h : s.enclosing? frame = some outer) : frame < s.frames.size := by
  refine Nat.lt_of_not_le fun hsize => ?_
  unfold enclosing? at h
  rw [Array.getElem?_eq_none hsize] at h
  cases h

/-- A frame that binds a name exists. -/
theorem lt_size_of_binds {s : Store} {frame : FrameId} {name : String}
    (h : s.binds frame name = true) : frame < s.frames.size := by
  refine Nat.lt_of_not_le fun hsize => ?_
  unfold binds local? at h
  rw [Array.getElem?_eq_none hsize] at h
  cases h

/-- The outermost frame has no links to follow: a name is found there or nowhere. -/
theorem nearest?_of_alone {s : Store} {frame : FrameId} (h : s.enclosing? frame = none)
    (hsize : frame < s.frames.size) (name : String) :
    s.nearest? frame name = if s.binds frame name = true then some frame else none := by
  unfold nearest?
  obtain ⟨steps, hsteps⟩ := Nat.exists_eq_succ_of_ne_zero (Nat.ne_of_gt (Nat.zero_lt_of_lt hsize))
  rw [hsteps, nearestWithin, h]
  rfl

/-- Defining a name in the newest frame is as good as adding the frame with it. -/
theorem define_addFrame (s : Store) (bindings : Table String Value) (enclosing : Option FrameId)
    (name : String) (value : Value) :
    (s.addFrame ⟨bindings, enclosing⟩).2.define s.frames.size name value =
      (s.addFrame ⟨bindings.insert name value, enclosing⟩).2 := by
  unfold addFrame define
  congr 1
  apply Array.ext_getElem?
  intro i
  rw [Array.getElem?_modify, Array.getElem?_push, Array.getElem?_push]
  by_cases hi : i = s.frames.size
  · rw [if_pos hi, if_pos hi, if_pos hi.symm]
    rfl
  · rw [if_neg hi, if_neg hi, if_neg (Ne.symm hi)]

/-- Adding a frame with some names is adding it without them and defining them. -/
theorem addFrame_insertAll (s : Store) (bindings : Table String Value)
    (enclosing : Option FrameId) (entries : List (String × Value)) :
    (s.addFrame ⟨bindings.insertAll entries, enclosing⟩).2 =
      entries.foldl (fun t entry => t.define s.frames.size entry.1 entry.2)
        (s.addFrame ⟨bindings, enclosing⟩).2 := by
  induction entries generalizing bindings with
  | nil => rfl
  | cons entry rest ih =>
    rw [List.foldl_cons, define_addFrame]
    exact ih (bindings.insert entry.1 entry.2)

end Scriptlet.Store
