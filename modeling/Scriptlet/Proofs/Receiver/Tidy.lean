import Scriptlet.Proofs.Receiver.History

/-!
# Machines that know where everything comes from

In a tidy machine every function and every class was made at a known place, in a frame that
lies as the scopes at the place do. A function in the frame of a receiver was produced by a
property access on it, is alone in that frame, and what lies directly inside the frame are
activations of the function. Every change that a program makes at a place leaves a tidy
machine tidy and keeps receivers.
-/

namespace Scriptlet.Receiver

open Binding Machine

variable {root m after : Machine} {seen others : List Site} {scopes : List Scope}
  {k? : Option Method} {frame outer : FrameId} {id : FunctionId} {closure : Closure}
  {name : Token}

/-- A function fits where it lies. -/
structure FunctionFits (root : Machine) (seen : List Site) (m : Machine) (id : FunctionId)
    (closure : Closure) : Prop where
  /-- Its declaration is at a known place, as which its frame lies. -/
  placed : ∃ scopes k?, Encloses seen m.store m.globals closure.frame scopes k? ∧
    closure.routine.sites scopes ⊆ placesIn seen k?
  /-- In the frame of a receiver it was produced by a property access on the receiver. -/
  produced : ∀ object, m.store.local? closure.frame receiverName = some (.object object) →
    Produced root object id m
  /-- In the frame of a receiver it is alone. -/
  alone : ∀ other closure', m.store.functions[other]? = some closure' →
    closure'.frame = closure.frame → m.store.binds closure.frame receiverName = true → other = id

/-- A class was made by a declaration at a known place, as which the frame of its methods
lies. That frame binds no receiver. -/
def ClassFits (seen : List Site) (m : Machine) (info : ClassInfo) : Prop :=
  ∃ (d : Declaration) (k? : Option Method), info = d.info ∧ d.places ⊆ seen ∧
    m.store.binds d.frame receiverName = false ∧
    Encloses seen m.store m.globals d.frame d.around k?

/-- A frame was made by a call of a function that was captured in another frame. -/
def CallFits (root m : Machine) (frame outer : FrameId) : Prop :=
  ∃ id closure, m.store.functions[id]? = some closure ∧ closure.frame = outer ∧
    Activated root id frame m

/-- A machine in which everything fits. -/
structure Tidy (root : Machine) (seen : List Site) (m : Machine) : Prop where
  /-- A history leads to it. -/
  history : History root m
  /-- Its frames are rooted. -/
  rooted : m.Rooted
  /-- The places are settled. -/
  settled : ∀ site ∈ seen, site.Settled m.hops
  /-- The globals bind no receiver. -/
  free : m.store.binds m.globals receiverName = false
  /-- Every function fits. -/
  functions : ∀ id closure, m.store.functions[id]? = some closure →
    FunctionFits root seen m id closure
  /-- Every class fits. -/
  classes : ∀ (id : ClassId) info, m.store.classes[id]? = some info → ClassFits seen m info
  /-- Every frame directly inside that of a receiver is that of a call. -/
  calls : ∀ frame outer, m.store.enclosing? frame = some outer →
    m.store.binds outer receiverName = true → CallFits root m frame outer

/-- What an action does to a tidy machine: by steps that keep receivers it leads to another. -/
structure Kept (root : Machine) (seen : List Site) (m after : Machine) : Prop where
  /-- The steps. -/
  steps : Steps ReceiverStep m after
  /-- The machine that they lead to. -/
  tidy : Tidy root seen after

/-- Where frames keep their receivers, they bind them or not as before. -/
theorem KeepsReceivers.binds {s t : Store} (h : KeepsReceivers s t)
    (hframe : frame < s.frames.size) : t.binds frame receiverName = s.binds frame receiverName := by
  unfold Store.binds
  rw [h frame hframe]

namespace Tidy

/-- A step leaves a machine tidy when the functions and classes that it makes fit, and the
frames that it makes inside those of receivers. -/
theorem grow (h : Tidy root seen m) (hstep : ReceiverStep m after)
    (hsettled : ∀ site ∈ seen, site.Settled after.hops)
    (hfunctions : ∀ id closure, after.store.functions[id]? = some closure →
      m.store.functions[id]? = some closure ∨ FunctionFits root seen after id closure)
    (hclasses : ∀ (id : ClassId) info, after.store.classes[id]? = some info →
      m.store.classes[id]? = some info ∨ ClassFits seen after info)
    (hcalls : ∀ frame outer, m.store.frames.size ≤ frame →
      after.store.enclosing? frame = some outer →
      after.store.binds outer receiverName = true → CallFits root after frame outer) :
    Tidy root seen after := by
  have hmove := hstep.move
  have hframes := hstep.frames
  have hkeeps := hmove.keeps
  have hglobals := hmove.stays.2
  have hlater : History m after := .step .start hstep
  refine ⟨h.history.step hstep, hmove.rooted h.rooted, hsettled, ?_, ?_, ?_, ?_⟩
  · rw [hglobals, hframes.binds h.rooted.globals]
    exact h.free
  · intro id closure hfound
    refine (hfunctions id closure hfound).elim (fun hold => ?_) fun hnew => hnew
    have hframe := h.rooted.held _ (.function hold)
    obtain ⟨⟨scopes, k?, hlies, hsites⟩, hproduced, halone⟩ := h.functions id closure hold
    refine ⟨⟨scopes, k?, hglobals ▸ hlies.mono hkeeps hframes, hsites⟩, ?_, ?_⟩
    · intro object hlocal
      rw [hframes _ hframe] at hlocal
      exact (hproduced object hlocal).later hlater
    · intro other closure' hother hsame hbinds
      rcases hfunctions other closure' hother with hold' | hnew'
      · exact halone other closure' hold' hsame (hframes.binds hframe ▸ hbinds)
      · exact (hnew'.alone id closure hfound hsame.symm (hsame ▸ hbinds)).symm
  · intro id info hfound
    refine (hclasses id info hfound).elim (fun hold => ?_) fun hnew => hnew
    obtain ⟨d, k?, rfl, hknown, hplain, hlies⟩ := h.classes id info hold
    refine ⟨d, k?, rfl, hknown, ?_, hglobals ▸ hlies.mono hkeeps hframes⟩
    rw [hframes.binds (hlies.lt_size h.rooted.globals)]
    exact hplain
  · intro frame outer hlink hbinds
    rcases Nat.lt_or_ge frame m.store.frames.size with hold | hnew
    · rw [hkeeps.enclosing? hold] at hlink
      rw [hframes.binds (h.rooted.outer_lt_size hlink)] at hbinds
      obtain ⟨id, closure, hfound, hframe, hcall⟩ := h.calls frame outer hlink hbinds
      obtain ⟨closure', hfound', rfl⟩ := hkeeps.functions id closure hfound
      exact ⟨id, closure, hfound', hframe, hcall.later hlater⟩
    · exact hcalls frame outer hnew hlink hbinds

/-- A change leaves a machine tidy when the functions and classes that it makes fit, and the
frames that it makes inside those of receivers. -/
theorem change (h : Tidy root seen m) (hchange : Change .recorded m after)
    (hframes : KeepsReceivers m.store after.store)
    (hfunctions : ∀ id closure, after.store.functions[id]? = some closure →
      m.store.functions[id]? = some closure ∨ FunctionFits root seen after id closure)
    (hclasses : ∀ (id : ClassId) info, after.store.classes[id]? = some info →
      m.store.classes[id]? = some info ∨ ClassFits seen after info)
    (hcalls : ∀ frame outer, m.store.frames.size ≤ frame →
      after.store.enclosing? frame = some outer →
      after.store.binds outer receiverName = true → CallFits root after frame outer) :
    Kept root seen m after := by
  have hstep : ReceiverStep m after := .of_frames (.change hchange) hframes
  have hsettled : ∀ site ∈ seen, site.Settled after.hops := by
    rw [hchange.rest.1]
    exact h.settled
  exact ⟨.once hstep, h.grow hstep hsettled hfunctions hclasses hcalls⟩

/-- A change that makes no frame, function or class. -/
theorem same (h : Tidy root seen m) (hchange : Change .recorded m after)
    (hframes : KeepsReceivers m.store after.store)
    (hsize : after.store.frames.size = m.store.frames.size)
    (hfunctions : after.store.functions = m.store.functions)
    (hclasses : after.store.classes = m.store.classes) : Kept root seen m after := by
  refine h.change hchange hframes (fun id closure hfound => Or.inl (hfunctions ▸ hfound))
    (fun id info hfound => Or.inl (hclasses ▸ hfound)) fun frame outer hnew hlink _ => ?_
  have hframe := Store.lt_size_of_enclosing hlink
  rw [hsize] at hframe
  exact absurd hframe (Nat.not_lt.mpr hnew)

/-- A name other than the receiver is defined in some frame. -/
theorem define (h : Tidy root seen m) (hframe : frame < m.store.frames.size)
    (hname : name.lexeme ≠ receiverName) (value : Value)
    (hchange : Change .recorded m { m with store := m.store.define frame name.lexeme value }) :
    Kept root seen m { m with store := m.store.define frame name.lexeme value } := by
  refine h.same hchange (fun other _ => ?_) (Store.size_define _ _ _ _) rfl rfl
  rw [Store.local?_define _ _ _ _ _ _ hframe, if_neg fun heq => hname heq.2]

/-- A frame is made inside another one that binds no receiver, or for a call of a function
captured in the other one. -/
theorem addFrame (h : Tidy root seen m) (bindings : Table String Value) {outer : FrameId}
    (hchange : Change .recorded m { m with store := (m.store.addFrame ⟨bindings, some outer⟩).2 })
    (houter : outer < m.store.frames.size)
    (hfits : m.store.binds outer receiverName = true → CallFits root
      { m with store := (m.store.addFrame ⟨bindings, some outer⟩).2 } m.store.frames.size outer) :
    Kept root seen m { m with store := (m.store.addFrame ⟨bindings, some outer⟩).2 } := by
  have hframes : KeepsReceivers m.store (m.store.addFrame ⟨bindings, some outer⟩).2 := by
    intro frame hframe
    rw [Store.local?_addFrame, if_neg (Nat.ne_of_lt hframe)]
  refine h.change hchange hframes (fun _ _ => Or.inl) (fun _ _ => Or.inl) ?_
  intro frame around hnew hlink hbinds
  have hsize := Store.lt_size_of_enclosing hlink
  rw [Store.size_addFrame] at hsize
  obtain rfl : frame = m.store.frames.size := Nat.le_antisymm (Nat.le_of_lt_succ hsize) hnew
  rw [Store.enclosing?_addFrame, if_pos rfl] at hlink
  cases hlink
  rw [hframes.binds houter] at hbinds
  exact hfits hbinds

/-- The distances of a program are recorded, whose places are known from then on. -/
theorem learn (h : Tidy root seen m) (hops : Hops) (hmore : seen ⊆ others)
    (hsettled : ∀ site ∈ others, site.Settled hops) :
    ReceiverStep m { m with hops } ∧ Tidy root others { m with hops } := by
  have hstep : ReceiverStep m { m with hops } := .of_frames (.learn hops) fun _ _ => rfl
  have hlearned : Tidy root seen { m with hops } := by
    refine h.grow hstep (fun site hsite => hsettled site (hmore hsite)) (fun _ _ => Or.inl)
      (fun _ _ => Or.inl) fun frame outer hnew hlink _ => ?_
    exact absurd (Store.lt_size_of_enclosing hlink) (Nat.not_lt.mpr hnew)
  refine ⟨hstep, hlearned.history, hlearned.rooted, hsettled, hlearned.free, ?_, ?_,
    hlearned.calls⟩
  · intro id closure hfound
    obtain ⟨⟨scopes, k?, hlies, hsites⟩, hproduced, halone⟩ := hlearned.functions id closure hfound
    exact ⟨⟨scopes, k?, hlies.more hmore, List.Subset.trans hsites (placesIn_mono hmore k?)⟩,
      hproduced, halone⟩
  · intro id info hfound
    obtain ⟨d, k?, hinfo, hknown, hplain, hlies⟩ := hlearned.classes id info hfound
    exact ⟨d, k?, hinfo, List.Subset.trans hknown hmore, hplain, hlies.more hmore⟩

/-- Acting in another frame leaves a machine tidy. -/
theorem elsewhere (h : Tidy root seen m) (hframe : frame < m.store.frames.size) :
    Tidy root seen { m with scope := frame } := by
  have hlater : History m { m with scope := frame } := .elsewhere .start frame hframe
  refine ⟨h.history.trans hlater, h.rooted.moved hframe, h.settled, h.free, ?_, h.classes, ?_⟩
  · intro id closure hfound
    obtain ⟨hplaced, hproduced, halone⟩ := h.functions id closure hfound
    exact ⟨hplaced, fun object hlocal => (hproduced object hlocal).later hlater, halone⟩
  · intro frame outer hlink hbinds
    obtain ⟨id, closure, hfound, hcaptured, hcall⟩ := h.calls frame outer hlink hbinds
    exact ⟨id, closure, hfound, hcaptured, hcall.later hlater⟩

end Tidy

/-- A tidy machine whose frame lies as the scopes at a place do, inside the given bound
method, and is not that of a receiver itself. -/
structure Stands (root : Machine) (seen : List Site) (scopes : List Scope) (k? : Option Method)
    (m : Machine) : Prop where
  /-- Everything fits. -/
  tidy : Tidy root seen m
  /-- The frame binds no receiver. -/
  plain : m.store.binds m.scope receiverName = false
  /-- The frame lies as the scopes do. -/
  lies : Encloses seen m.store m.globals m.scope scopes k?

namespace Stands

/-- The frame exists. -/
theorem lt_size (h : Stands root seen scopes k? m) : m.scope < m.store.frames.size :=
  h.tidy.rooted.held _ .scope

/-- Places inside the method are settled. -/
theorem settled (h : Stands root seen scopes k? m) {site : Site} (hsite : site ∈ placesIn seen k?) :
    site.Settled m.hops := h.tidy.settled site (h.lies.placesIn_subset hsite)

/-- A machine stands where it stood behind whatever keeps it tidy. -/
theorem keep (h : Stands root seen scopes k? m) (hkept : Kept root seen m after) :
    Stands root seen scopes k? after := by
  obtain ⟨hkeeps, hframes, hscope, hglobals⟩ := receivers_of_steps hkept.steps
  refine ⟨hkept.tidy, ?_, ?_⟩
  · rw [hscope, hframes.binds h.lt_size]
    exact h.plain
  · rw [hscope, hglobals]
    exact h.lies.mono hkeeps hframes

/-- A machine stands inside a new frame that binds no receiver. -/
theorem opened {bindings : Table String Value}
    (hlies : Encloses seen m.store m.globals outer scopes k?)
    (hplain : bindings.get? receiverName = none)
    (hkept : Kept root seen m { m with store := (m.store.addFrame ⟨bindings, some outer⟩).2 }) :
    Stands root seen (.empty :: scopes) k? { m with
      store := (m.store.addFrame ⟨bindings, some outer⟩).2
      scope := m.store.frames.size } := by
  obtain ⟨hkeeps, hframes, -, -⟩ := receivers_of_steps hkept.steps
  have hsize : m.store.frames.size < (m.store.addFrame ⟨bindings, some outer⟩).2.frames.size := by
    rw [Store.size_addFrame]
    omega
  refine ⟨hkept.tidy.elsewhere hsize, ?_, .inside ?_ rfl (hlies.mono hkeeps hframes)⟩
  · unfold Store.binds
    rw [Store.local?_addFrame, if_pos rfl, hplain]
    rfl
  · rw [Store.enclosing?_addFrame, if_pos rfl]

/-- A machine stands inside the new frame of a block. -/
theorem openBlock (h : Stands root seen scopes k? m) :
    Kept root seen m { m with store := (m.store.addFrame { enclosing := some m.scope }).2 } ∧
      Stands root seen (.empty :: scopes) k? { m with
        store := (m.store.addFrame { enclosing := some m.scope }).2
        scope := m.store.frames.size } := by
  have hkept : Kept root seen m { m with
      store := (m.store.addFrame { enclosing := some m.scope }).2 } := by
    refine h.tidy.addFrame {} .openBlock h.lt_size fun hbinds => ?_
    rw [h.plain] at hbinds
    cases hbinds
  exact ⟨hkept, opened h.lies rfl hkept⟩

/-- A function is made. -/
theorem makeFunction (h : Stands root seen scopes k? m) {routine : Routine}
    (hsites : routine.sites scopes ⊆ placesIn seen k?) :
    Kept root seen m { m with store := (m.store.addFunction ⟨routine, m.scope⟩).2 } := by
  refine h.tidy.change (.makeFunction routine) (fun _ _ => rfl) ?_ (fun _ _ => Or.inl) ?_
  · intro id closure hfound
    rcases found_of_push hfound with hold | ⟨-, rfl⟩
    · exact Or.inl hold
    -- The current frame binds no receiver, so that the rest is about nothing.
    have hplain : ¬ m.store.binds m.scope receiverName = true := by
      rw [h.plain]
      exact Bool.false_ne_true
    refine Or.inr ⟨⟨scopes, k?, h.lies.mono (.addFunction _ _) fun _ _ => rfl, hsites⟩, ?_, ?_⟩
    · exact fun object hlocal => absurd (Option.isSome_iff_exists.mpr ⟨_, hlocal⟩) hplain
    · exact fun other closure' _ _ hbinds => absurd hbinds hplain
  · exact fun frame outer hnew hlink _ =>
      absurd (Store.lt_size_of_enclosing hlink) (Nat.not_lt.mpr hnew)

/-- A class is made. -/
theorem makeClass (h : Stands root seen scopes k? m) {methods : List Routine}
    (hname : name.lexeme ≠ receiverName)
    (hsites : (Stmt.classDecl name methods).sites scopes ⊆ placesIn seen k?) :
    Kept root seen m { m with
      store := (m.store.addClass ⟨name.lexeme, methodTable m.scope methods⟩).2 } := by
  refine h.tidy.change (.makeClass name.lexeme methods) (fun _ _ => rfl) (fun _ _ => Or.inl) ?_ ?_
  · intro id info hfound
    rcases found_of_push hfound with hold | ⟨-, rfl⟩
    · exact Or.inl hold
    refine Or.inr ⟨⟨name, methods, scopes, m.scope⟩, k?, rfl,
      List.Subset.trans hsites h.lies.placesIn_subset, h.plain, ?_⟩
    exact (h.lies.introduceIn h.plain hname).mono (.addClass _ _) fun _ _ => rfl
  · exact fun frame outer hnew hlink _ =>
      absurd (Store.lt_size_of_enclosing hlink) (Nat.not_lt.mpr hnew)

end Stands

/-- In the frame of a call of a routine that the grammar shaped there is no receiver. -/
theorem callFrame_plain {parameters : List Token}
    (h : ∀ name ∈ parameters, name.lexeme ≠ receiverName) (arguments : List Value) :
    (Table.empty.insertAll ((parameters.map Token.lexeme).zip arguments)).get? receiverName =
      none := by
  have hentries : ∀ entry ∈ (parameters.map Token.lexeme).zip arguments,
      entry.1 ≠ receiverName := by
    intro entry hmem
    obtain ⟨name, hname, heq⟩ := List.mem_map.mp (List.of_mem_zip hmem).1
    exact heq ▸ h name hname
  exact Table.get?_insertAll_of_ne .empty hentries

/-- A method of the class of an object, bound in a new frame. -/
theorem bound_of_receiverFrame {s : Store} {d : Declaration} {r : Routine} {object : ObjectId}
    {o : Object} (hr : r ∈ d.methods) (hobject : s.objects[object]? = some o)
    (hclass : s.classes[o.classId]? = some d.info) :
    Method.BoundIn ⟨s.functions.size, r, s.frames.size, object, d⟩
      ((s.addFrame (receiverFrame object ⟨r, d.frame⟩)).2.addFunction ⟨r, s.frames.size⟩).2 where
  member := hr
  function := Array.getElem?_push_size
  receiver := (Store.local?_addFrame _ _ _ _).trans (if_pos rfl)
  link := (Store.enclosing?_addFrame _ _ _).trans (if_pos rfl)
  owner := ⟨o, hobject, hclass⟩

/-- A property that no field has and a method of the class has is the method, bound. -/
theorem property_of_method {object : ObjectId} {o : Object} {info : ClassInfo}
    (hobject : m.store.objects[object]? = some o) (hfield : o.fields.get? name.lexeme = none)
    (hclass : m.store.classes[o.classId]? = some info)
    (hmethod : info.methods.get? name.lexeme = some closure) :
    property object name m = .ok (.function m.store.functions.size) { m with
      store := ((m.store.addFrame (receiverFrame object closure)).2.addFunction
        ⟨closure.routine, m.store.frames.size⟩).2 } := by
  simp only [property, bind, EStateM.bind, ask, hobject, Option.bind_some, hfield, hclass, hmethod]
  rfl

namespace Tidy

/-- A function is called: the machine stands inside the frame of the call. -/
theorem openCall (h : Tidy root seen m) (hfound : m.store.functions[id]? = some closure)
    (arguments : List Value) :
    Kept root seen m { m with store := (m.store.addFrame (callFrame closure arguments)).2 } ∧
      ∃ scopes k?, Stmt.sitesOfAll scopes closure.routine.body ⊆ placesIn seen k? ∧
        Stands root seen scopes k? { m with
          store := (m.store.addFrame (callFrame closure arguments)).2
          scope := m.store.frames.size } := by
  have hchange : Change .recorded m { m with
      store := (m.store.addFrame (callFrame closure arguments)).2 } :=
    .openCall id closure arguments hfound
  have hkept : Kept root seen m { m with
      store := (m.store.addFrame (callFrame closure arguments)).2 } := by
    refine h.addFrame _ hchange (h.rooted.held _ (.function hfound)) fun _ => ?_
    exact ⟨id, closure, hfound, rfl, m, closure, arguments, h.history, hfound, rfl, .start⟩
  obtain ⟨scopes, k?, hlies, hsites⟩ := (h.functions id closure hfound).placed
  obtain ⟨⟨own, parameters, body⟩, frame⟩ := closure
  obtain ⟨hparameters, hbody⟩ := List.append_subset.mp hsites
  have hnames := parameters_shaped fun site hsite =>
    (h.settled site (hlies.placesIn_subset (hparameters hsite))).shaped
  have hstands := Stands.opened hlies (callFrame_plain hnames arguments) hkept
  exact ⟨hkept, bodyScopes parameters scopes, k?, hbody, hstands.tidy, hstands.plain,
    hstands.lies.parameters hstands.plain hnames⟩

/-- A method is bound by a property access on an object. -/
theorem bindMethod (h : Tidy root seen m) {before : Machine} (hbefore : History root before)
    {fuel : Nat} {target : Expr} {object : ObjectId} {o : Object} {info : ClassInfo}
    (htarget : evaluate fuel target before = .ok (.object object) m)
    (hobject : m.store.objects[object]? = some o) (hfield : o.fields.get? name.lexeme = none)
    (hclass : m.store.classes[o.classId]? = some info)
    (hmethod : info.methods.get? name.lexeme = some closure) :
    Kept root seen m { m with
      store := ((m.store.addFrame (receiverFrame object closure)).2.addFunction
        ⟨closure.routine, m.store.frames.size⟩).2 } := by
  have hchange := Change.bindMethod fuel target before object o info name closure htarget hobject
    hfield hclass hmethod
  have hproperty := property_of_method hobject hfield hclass hmethod
  obtain ⟨d, k?, rfl, hknown, hplain, hlies⟩ := h.classes _ _ hclass
  obtain ⟨r, hr, rfl⟩ := mem_of_methodTable hmethod
  have hsize := hlies.lt_size h.rooted.globals
  have hkeeps := hchange.keeps
  have hframes : KeepsReceivers m.store ((m.store.addFrame (receiverFrame object
      ⟨r, d.frame⟩)).2.addFunction ⟨r, m.store.frames.size⟩).2 := fun frame hframe =>
    (Store.local?_addFrame _ _ _ _).trans (if_neg (Nat.ne_of_lt hframe))
  have hbound := bound_of_receiverFrame hr hobject hclass
  refine h.change hchange hframes (fun id found hfound => ?_) (fun _ _ => Or.inl) ?_
  · rcases found_of_push hfound with hold | ⟨rfl, rfl⟩
    · exact Or.inl hold
    refine Or.inr ⟨⟨_, _, .method hbound hknown (hlies.mono hkeeps hframes), List.Subset.refl _⟩,
      fun other hother => ?_, fun other found hother hsame _ => ?_⟩
    · have hreceiver := hbound.receiver.symm.trans hother
      cases hreceiver
      exact ⟨fuel, target, before, name, m, _, hbefore, htarget, rfl, hproperty, .start⟩
    · rcases found_of_push hother with hold | ⟨rfl, -⟩
      · exact absurd hsame (Nat.ne_of_lt (h.rooted.held _ (.function hold)))
      · rfl
  · intro frame outer hnew hlink hbinds
    have hless : frame < (m.store.addFrame (receiverFrame object ⟨r, d.frame⟩)).2.frames.size :=
      Store.lt_size_of_enclosing hlink
    rw [Store.size_addFrame] at hless
    obtain rfl : frame = m.store.frames.size := Nat.le_antisymm (Nat.le_of_lt_succ hless) hnew
    rw [hbound.link] at hlink
    cases hlink
    rw [hframes.binds hsize, hplain] at hbinds
    cases hbinds

end Tidy

end Scriptlet.Receiver
