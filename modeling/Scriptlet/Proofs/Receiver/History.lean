import Scriptlet.Proofs.Receiver.Methods

/-!
# Where bound methods and their activations come from

A history leads from a first machine to a later one by steps, none of which unbinds a
method from its receiver. It tells for a bound method which property access produced it,
and for the frame of a call which function was called. What it tells once, every longer
history tells as well.
-/

namespace Scriptlet.Receiver

open Binding Machine

variable {root m after : Machine} {object : ObjectId} {function : FunctionId} {frame : FrameId}

/-- A step of a session that keeps receivers: whatever a frame binds to the name of the
receiver it goes on to bind, and every bound method stays bound to its receiver. -/
structure ReceiverStep (m after : Machine) : Prop where
  /-- It is a step of a session. -/
  move : Move .recorded m after
  /-- Frames keep their receivers. -/
  frames : KeepsReceivers m.store after.store
  /-- Methods keep their receivers. -/
  methods : ∀ k : Method, k.BoundIn m.store → k.BoundIn after.store

/-- Where frames keep their receivers, methods do. -/
theorem ReceiverStep.of_frames (h : Move .recorded m after)
    (hframes : KeepsReceivers m.store after.store) : ReceiverStep m after :=
  ⟨h, hframes, fun _ hk => hk.mono h.keeps hframes⟩

/-- What steps that keep receivers keep together. -/
theorem receivers_of_steps (h : Steps ReceiverStep m after) :
    m.store.Keeps after.store ∧ KeepsReceivers m.store after.store ∧
      after.scope = m.scope ∧ after.globals = m.globals := by
  induction h with
  | refl m => exact ⟨.refl _, fun _ _ => rfl, rfl, rfl⟩
  | trans first second ih ih' =>
    obtain ⟨hkeeps, hframes, hscope, hglobals⟩ := ih
    obtain ⟨hkeeps', hframes', hscope', hglobals'⟩ := ih'
    refine ⟨hkeeps.trans hkeeps', fun frame hframe => ?_, hscope'.trans hscope,
      hglobals'.trans hglobals⟩
    have hmiddle := Nat.lt_of_lt_of_le hframe hkeeps.frames.size_le
    exact (hframes' frame hmiddle).trans (hframes frame hframe)
  | once change => exact ⟨change.move.keeps, change.frames, change.move.stays⟩
  | within frame hframe inside ih =>
    obtain ⟨hkeeps, hframes, -, hglobals⟩ := ih
    exact ⟨hkeeps, hframes, rfl, hglobals⟩

/-- A machine that a session comes through: by steps that keep receivers, acting now in
one frame and then in another. -/
inductive History (root : Machine) : Machine → Prop where
  | start : History root root
  | step {m after : Machine} (h : History root m) (hstep : ReceiverStep m after) :
    History root after
  | elsewhere {m : Machine} (h : History root m) (frame : FrameId)
    (hframe : frame < m.store.frames.size) : History root { m with scope := frame }

namespace History

/-- One history after another. -/
theorem trans (h : History root m) (h' : History m after) : History root after := by
  induction h' with
  | start => exact h
  | step _ hstep ih => exact ih.step hstep
  | elsewhere _ frame hframe ih => exact ih.elsewhere frame hframe

/-- Steps go on with a history. -/
theorem steps (h : History root m) (hm : m.scope < m.store.frames.size)
    (hsteps : Steps ReceiverStep m after) : History root after := by
  induction hsteps with
  | refl m => exact h
  | @trans a b c first second ih ih' =>
    obtain ⟨hkeeps, -, hscope, -⟩ := receivers_of_steps first
    exact ih' (ih h hm) (hscope ▸ Nat.lt_of_lt_of_le hm hkeeps.frames.size_le)
  | once change => exact h.step change
  | within frame hframe inside ih =>
    have hsize := Nat.lt_of_lt_of_le hm (receivers_of_steps inside).1.frames.size_le
    exact (ih (h.elsewhere frame hframe) hframe).elsewhere _ hsize

end History

/-- A property access has produced a function: its target was evaluated to the object, and
the property of the object was a function that had not been there before. -/
def Produced (root : Machine) (object : ObjectId) (function : FunctionId) (m : Machine) : Prop :=
  ∃ fuel target before name a b, History root before ∧
    evaluate fuel target before = .ok (.object object) a ∧
    a.store.functions.size = function ∧
    property object name a = .ok (.function function) b ∧ History b m

/-- A frame is that of a call of a function. -/
def Activated (root : Machine) (function : FunctionId) (frame : FrameId) (m : Machine) : Prop :=
  ∃ before closure arguments, History root before ∧
    before.store.functions[function]? = some closure ∧ before.store.frames.size = frame ∧
    History { before with store := (before.store.addFrame (callFrame closure arguments)).2 } m

/-- What was produced once was produced once. -/
theorem Produced.later (h : Produced root object function m) (hlater : History m after) :
    Produced root object function after := by
  obtain ⟨fuel, target, before, name, a, b, hroot, htarget, hnew, hfunction, hm⟩ := h
  exact ⟨fuel, target, before, name, a, b, hroot, htarget, hnew, hfunction, hm.trans hlater⟩

/-- What was called once was called once. -/
theorem Activated.later (h : Activated root function frame m) (hlater : History m after) :
    Activated root function frame after := by
  obtain ⟨before, closure, arguments, hroot, hfunction, hframe, hm⟩ := h
  exact ⟨before, closure, arguments, hroot, hfunction, hframe, hm.trans hlater⟩

end Scriptlet.Receiver
