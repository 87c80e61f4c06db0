import Scriptlet.Proofs.Written.Back

/-!
# What is known from its written form

There is one lemma for each form of expression and statement: when its parts are known
from what is written of them, and its names and operators are those of words and signs,
so is the whole.
-/

namespace Scriptlet

open Form

variable {n : Nat} {t : Token} {ts : List Token} {e a b : Expr} {es : List Expr}

/-- A word before proper forms. -/
theorem Form.Proper.headed {w : String} {parts : List Form}
    (hw : (w.toList.isEmpty || w.toList.any isMark) = false) (h : ∀ f ∈ parts, f.Proper) :
    (Form.list (.word w :: parts)).Proper :=
  .list (List.forall_mem_cons.mpr ⟨proper_word hw, h⟩)

/-- No forms. -/
theorem Form.Proper.none : ∀ f ∈ ([] : List Form), f.Proper := fun _ h => absurd h List.not_mem_nil

/-- A form before others. -/
theorem Form.Proper.cons {f : Form} {parts : List Form} (hf : f.Proper)
    (h : ∀ f ∈ parts, f.Proper) : ∀ g ∈ f :: parts, g.Proper :=
  List.forall_mem_cons.mpr ⟨hf, h⟩

namespace Token.Recovered

/-- The kind of the token of its word. -/
theorem kind (h : t.Recovered) : (Form.token t.lexeme).kind = t.kind := by
  rw [h.back]
  rfl

/-- Names in a parenthesis of their own. -/
theorem names (h : ∀ t ∈ ts, t.Recovered) :
    (Form.list (ts.map Token.form)).Proper ∧ Form.names (ts.map Token.form) = ts.map unplaced := by
  induction ts with
  | nil => exact ⟨.list Proper.none, rfl⟩
  | cons t rest ih =>
    obtain ⟨ht, hrest⟩ := List.forall_mem_cons.mp h
    obtain ⟨hproper, hback⟩ := ih hrest
    refine ⟨.list ?_, congrArg₂ List.cons ht.back hback⟩
    cases hproper with
    | list hparts => exact Proper.cons ht.proper hparts

end Token.Recovered

namespace Expr.Recovered

/-- Expressions in the parenthesis of what has them. -/
theorem all (h : ∀ e ∈ es, e.Recovered) :
    (∀ f ∈ Expr.forms es, f.Proper) ∧ Form.exprs (Expr.forms es) = Expr.bareAll es := by
  induction es with
  | nil => exact ⟨Proper.none, rfl⟩
  | cons e rest ih =>
    obtain ⟨he, hrest⟩ := List.forall_mem_cons.mp h
    obtain ⟨hproper, hback⟩ := ih hrest
    exact ⟨Proper.cons he.proper hproper, congrArg₂ List.cons he.back hback⟩

/-- A constant that is a word. -/
theorem bool (value : Bool) : Recovered (.literal n (.bool value)) := by
  cases value with
  | true => exact ⟨proper_word (by decide), rfl⟩
  | false => exact ⟨proper_word (by decide), rfl⟩

/-- The constant for nothing. -/
theorem nil : Recovered (.literal n .nil) := ⟨proper_word (by decide), rfl⟩

/-- The instance. -/
theorem receiver (h : t.Recovered) (hlexeme : t.lexeme = "this") : Recovered (.receiver n t) := by
  refine ⟨proper_word (by decide), ?_⟩
  show Expr.receiver 0 (Form.token "this") = .receiver 0 t.unplaced
  rw [← h.back, hlexeme]

/-- A finite number. -/
theorem number {x : Float} (h : Decimal.IsFinite x) : Recovered (.literal n (.number x)) := by
  have hnumeric := Decimal.tree_numeric h
  constructor
  · exact .word hnumeric.ne_nil hnumeric.plain
  · have hnumber : Form.number (Decimal.tree x) = x := Decimal.tree_injOn.leftInvOn_invFunOn h
    show Form.atom (Decimal.tree x) = _
    unfold Form.atom
    rw [hnumeric.isNumber, if_pos rfl, hnumber]
    rfl

/-- A name. -/
theorem var (h : t.Recovered) (hkind : t.kind = .identifier)
    (hword : Segment.IsWord t.lexeme.toList) : Recovered (.var n t) := by
  refine ⟨h.proper, ?_⟩
  have hidentifier : Kind.ofWord t.lexeme = .identifier := by
    have hback := h.kind
    unfold Form.token at hback
    rwa [lookup_fixedTexts_of_isWord hword, hkind] at hback
  show Form.atom t.lexeme = _
  unfold Form.atom
  rw [isNumber_of_isWord hword, hidentifier, h.back]
  rfl

/-- An expression in parentheses. -/
theorem group (h : e.Recovered) : Recovered (.group n e) :=
  ⟨.headed (by decide) (.cons h.proper .none), congrArg (Expr.group 0) h.back⟩

/-- A sign before an operand. -/
theorem unary (ht : t.Recovered) (hkind : t.kind ∈ unaryOperators) (h : e.Recovered) :
    Recovered (.unary n t e) := by
  refine ⟨.list (.cons ht.proper (.cons h.proper .none)), ?_⟩
  show Form.expr (.list [.word t.lexeme, e.form]) = .unary 0 t.unplaced e.bare
  rw [expr_unary (ht.kind ▸ hkind), ht.back, h.back]

/-- An operator between operands. -/
theorem binary (ht : t.Recovered) (hkind : t.kind ∈ binaryOperators) (ha : a.Recovered)
    (hb : b.Recovered) : Recovered (.binary n a t b) := by
  refine ⟨.list (.cons ht.proper (.cons ha.proper (.cons hb.proper .none))), ?_⟩
  have hnot : ∀ kind ∈ binaryOperators, kind ∉ [Kind.kwAnd, .kwOr] := by decide
  show Form.expr (.list [.word t.lexeme, a.form, b.form]) = .binary 0 a.bare t.unplaced b.bare
  rw [expr_operator (Or.inl (ht.kind ▸ hkind)), ht.kind, if_neg (hnot _ hkind), ht.back, ha.back,
    hb.back]

/-- An operator that decides by its left operand. -/
theorem logical (ht : t.Recovered) (hkind : t.kind ∈ [Kind.kwAnd, .kwOr]) (ha : a.Recovered)
    (hb : b.Recovered) : Recovered (.logical n a t b) := by
  refine ⟨.list (.cons ht.proper (.cons ha.proper (.cons hb.proper .none))), ?_⟩
  show Form.expr (.list [.word t.lexeme, a.form, b.form]) = .logical 0 a.bare t.unplaced b.bare
  rw [expr_operator (Or.inr (ht.kind ▸ hkind)), ht.kind, if_pos hkind, ht.back, ha.back, hb.back]

/-- An assignment to a name. -/
theorem assign (ht : t.Recovered) (h : e.Recovered) : Recovered (.assign n t e) := by
  refine ⟨.headed (by decide) (.cons ht.proper (.cons h.proper .none)), ?_⟩
  show Expr.assign 0 (Form.token t.lexeme) e.form.expr = .assign 0 t.unplaced e.bare
  rw [ht.back, h.back]

/-- A call. -/
theorem call (h : e.Recovered) (hes : ∀ e ∈ es, e.Recovered) : Recovered (.call n e t es) := by
  obtain ⟨hproper, hback⟩ := all hes
  refine ⟨.headed (by decide) (.cons h.proper hproper), ?_⟩
  show Expr.call 0 e.form.expr Token.closing (Form.exprs (Expr.forms es)) = _
  rw [h.back, hback]
  rfl

/-- A property. -/
theorem get (h : e.Recovered) (ht : t.Recovered) : Recovered (.get n e t) := by
  refine ⟨.headed (by decide) (.cons h.proper (.cons ht.proper .none)), ?_⟩
  show Expr.get 0 e.form.expr (Form.token t.lexeme) = .get 0 e.bare t.unplaced
  rw [h.back, ht.back]

/-- An assignment to a property. -/
theorem set (ha : a.Recovered) (ht : t.Recovered) (hb : b.Recovered) :
    Recovered (.set n a t b) := by
  have hobject : (Form.list [.word ".", a.form, t.form]).Proper :=
    .headed (by decide) (.cons ha.proper (.cons ht.proper .none))
  refine ⟨.headed (by decide) (.cons hobject (.cons hb.proper .none)), ?_⟩
  show Expr.set 0 a.form.expr (Form.token t.lexeme) b.form.expr = .set 0 a.bare t.unplaced b.bare
  rw [ha.back, ht.back, hb.back]

end Expr.Recovered

namespace Stmt.Recovered

variable {s yes no : Stmt} {ss : List Stmt} {r : Routine}

/-- Statements in the parenthesis of what has them. -/
theorem all (h : ∀ s ∈ ss, s.Recovered) :
    (∀ f ∈ Stmt.forms ss, f.Proper) ∧ Form.stmts (Stmt.forms ss) = Stmt.bareAll ss := by
  induction ss with
  | nil => exact ⟨Proper.none, rfl⟩
  | cons s rest ih =>
    obtain ⟨hs, hrest⟩ := List.forall_mem_cons.mp h
    obtain ⟨hproper, hback⟩ := ih hrest
    exact ⟨Proper.cons hs.proper hproper, congrArg₂ List.cons hs.back hback⟩

/-- An expression as a statement. -/
theorem expr (h : e.Recovered) : Recovered (.expr e) :=
  ⟨.headed (by decide) (.cons h.proper .none), congrArg Stmt.expr h.back⟩

/-- A printed expression. -/
theorem print (h : e.Recovered) : Recovered (.print e) :=
  ⟨.headed (by decide) (.cons h.proper .none), congrArg Stmt.print h.back⟩

/-- A variable without a first value. -/
theorem varBare (ht : t.Recovered) : Recovered (.var t none) :=
  ⟨.headed (by decide) (.cons ht.proper .none), congrArg (Stmt.var · none) ht.back⟩

/-- A variable with its first value. -/
theorem varWith (ht : t.Recovered) (h : e.Recovered) : Recovered (.var t (some e)) := by
  refine ⟨.headed (by decide) (.cons ht.proper (.cons h.proper .none)), ?_⟩
  show Stmt.var (Form.token t.lexeme) (some e.form.expr) = .var t.unplaced (some e.bare)
  rw [ht.back, h.back]

/-- A block. -/
theorem block (h : ∀ s ∈ ss, s.Recovered) : Recovered (.block ss) := by
  obtain ⟨hproper, hback⟩ := all h
  exact ⟨.headed (by decide) hproper, congrArg Stmt.block hback⟩

/-- A conditional with one branch. -/
theorem ifThen (h : e.Recovered) (hyes : yes.Recovered) : Recovered (.ifThen e yes) :=
  ⟨.headed (by decide) (.cons h.proper (.cons hyes.proper .none)),
    congrArg₂ Stmt.ifThen h.back hyes.back⟩

/-- A conditional with two branches. -/
theorem ifElse (h : e.Recovered) (hyes : yes.Recovered) (hno : no.Recovered) :
    Recovered (.ifElse e yes no) := by
  refine ⟨.headed (by decide) (.cons h.proper (.cons hyes.proper (.cons hno.proper .none))), ?_⟩
  show Stmt.ifElse e.form.expr yes.form.stmt no.form.stmt = .ifElse e.bare yes.bare no.bare
  rw [h.back, hyes.back, hno.back]

/-- A loop. -/
theorem loop (h : e.Recovered) (hs : s.Recovered) : Recovered (.loop e s) :=
  ⟨.headed (by decide) (.cons h.proper (.cons hs.proper .none)), congrArg₂ Stmt.loop h.back hs.back⟩

/-- A return without a value. -/
theorem retBare (ht : t.Recovered) (hlexeme : t.lexeme = "return") : Recovered (.ret t none) := by
  refine ⟨.headed (by decide) .none, ?_⟩
  show Stmt.ret (Form.token "return") none = .ret t.unplaced none
  rw [← ht.back, hlexeme]

/-- A return with its value. -/
theorem retWith (ht : t.Recovered) (hlexeme : t.lexeme = "return") (h : e.Recovered) :
    Recovered (.ret t (some e)) := by
  refine ⟨.headed (by decide) (.cons h.proper .none), ?_⟩
  show Stmt.ret (Form.token "return") (some e.form.expr) = .ret t.unplaced (some e.bare)
  rw [← ht.back, hlexeme, h.back]

/-- A function. -/
theorem function (h : r.Recovered) : Recovered (.function r) := ⟨h.proper, h.back⟩

end Stmt.Recovered

namespace Routine.Recovered

variable {ss : List Stmt} {rs : List Routine}

/-- A routine with its parameters and its body. -/
theorem declared (ht : t.Recovered) (hts : ∀ t ∈ ts, t.Recovered) (h : ∀ s ∈ ss, s.Recovered) :
    (Routine.mk t ts ss).Recovered := by
  obtain ⟨hnames, hparameters⟩ := Token.Recovered.names hts
  obtain ⟨hproper, hback⟩ := Stmt.Recovered.all h
  refine ⟨.headed (by decide) (.cons ht.proper (.cons hnames hproper)), ?_⟩
  show Stmt.function (.mk (Form.token t.lexeme) (Form.names (ts.map Token.form))
    (Form.stmts (Stmt.forms ss))) = _
  rw [ht.back, hparameters, hback]
  rfl

/-- Methods in the parenthesis of their class. -/
theorem all (h : ∀ r ∈ rs, r.Recovered) :
    (∀ f ∈ Routine.forms rs, f.Proper) ∧
      (Form.stmts (Routine.forms rs)).map Stmt.declared = Routine.bareAll rs := by
  induction rs with
  | nil => exact ⟨Proper.none, rfl⟩
  | cons r rest ih =>
    obtain ⟨hr, hrest⟩ := List.forall_mem_cons.mp h
    obtain ⟨hproper, hback⟩ := ih hrest
    refine ⟨Proper.cons hr.proper hproper, ?_⟩
    show r.form.stmt.declared :: (Form.stmts (Routine.forms rest)).map Stmt.declared = _
    rw [hr.back, hback]
    rfl

end Routine.Recovered

/-- A class. -/
theorem Stmt.Recovered.classDecl {rs : List Routine} (ht : t.Recovered)
    (h : ∀ r ∈ rs, r.Recovered) : (Stmt.classDecl t rs).Recovered := by
  obtain ⟨hproper, hback⟩ := Routine.Recovered.all h
  refine ⟨.headed (by decide) (.cons ht.proper hproper), ?_⟩
  show Stmt.classDecl (Form.token t.lexeme)
    ((Form.stmts (Routine.forms rs)).map Stmt.declared) = .classDecl t.unplaced (Routine.bareAll rs)
  rw [ht.back, hback]

end Scriptlet
