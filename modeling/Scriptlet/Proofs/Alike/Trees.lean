import Mathlib.Data.List.Forall2
import Scriptlet.Syntax.Walk

/-!
# Trees that are alike

Two programs may say the same and still differ in what is not part of their text:
the numbers of their expressions and the lines of their tokens. A likeness says
which numbers and which lines may stand for each other. Trees are alike when they
have the same form and the same words, and their numbers and lines correspond.
-/

namespace Scriptlet

/-- Which numbers and which lines correspond. -/
structure Likeness where
  /-- Numbers of expressions on both sides. -/
  numbers : Nat → Nat → Prop
  /-- Lines on both sides. -/
  lines : Nat → Nat → Prop

/-- Nothing on one side corresponds to two things on the other. -/
def Likeness.Faithful (K : Likeness) : Prop :=
  ∀ i i' j j', K.numbers i i' → K.numbers j j' → (i = j ↔ i' = j')

/-- What corresponds in one likeness corresponds in another. -/
structure Likeness.Within (K K' : Likeness) : Prop where
  numbers : ∀ i i', K.numbers i i' → K'.numbers i i'
  lines : ∀ a b, K.lines a b → K'.lines a b

/-- Tokens alike: of one kind, with one text and one literal. -/
structure Token.Alike (K : Likeness) (t t' : Token) : Prop where
  kind : t.kind = t'.kind
  lexeme : t.lexeme = t'.lexeme
  literal : t.literal = t'.literal
  line : K.lines t.line t'.line

/-- Lists of tokens alike. -/
abbrev Token.AllAlike (K : Likeness) : List Token → List Token → Prop :=
  List.Forall₂ (Token.Alike K)

/-- Expressions alike. -/
inductive Expr.Alike (K : Likeness) : Expr → Expr → Prop where
  | literal {i i' : Nat} (value : Constant) (number : K.numbers i i') :
    Expr.Alike K (.literal i value) (.literal i' value)
  | unary {i i' : Nat} {t t' : Token} {e e' : Expr} (number : K.numbers i i')
    (operator : t.Alike K t') (operand : Expr.Alike K e e') :
    Expr.Alike K (.unary i t e) (.unary i' t' e')
  | binary {i i' : Nat} {t t' : Token} {a a' b b' : Expr} (number : K.numbers i i')
    (left : Expr.Alike K a a') (operator : t.Alike K t') (right : Expr.Alike K b b') :
    Expr.Alike K (.binary i a t b) (.binary i' a' t' b')
  | logical {i i' : Nat} {t t' : Token} {a a' b b' : Expr} (number : K.numbers i i')
    (left : Expr.Alike K a a') (operator : t.Alike K t') (right : Expr.Alike K b b') :
    Expr.Alike K (.logical i a t b) (.logical i' a' t' b')
  | group {i i' : Nat} {e e' : Expr} (number : K.numbers i i') (inner : Expr.Alike K e e') :
    Expr.Alike K (.group i e) (.group i' e')
  | var {i i' : Nat} {t t' : Token} (number : K.numbers i i') (name : t.Alike K t') :
    Expr.Alike K (.var i t) (.var i' t')
  | receiver {i i' : Nat} {t t' : Token} (number : K.numbers i i') (keyword : t.Alike K t') :
    Expr.Alike K (.receiver i t) (.receiver i' t')
  | assign {i i' : Nat} {t t' : Token} {e e' : Expr} (number : K.numbers i i')
    (name : t.Alike K t') (value : Expr.Alike K e e') :
    Expr.Alike K (.assign i t e) (.assign i' t' e')
  | call {i i' : Nat} {t t' : Token} {e e' : Expr} {es es' : List Expr} (number : K.numbers i i')
    (callee : Expr.Alike K e e') (paren : t.Alike K t')
    (arguments : List.Forall₂ (Expr.Alike K) es es') :
    Expr.Alike K (.call i e t es) (.call i' e' t' es')
  | get {i i' : Nat} {t t' : Token} {e e' : Expr} (number : K.numbers i i')
    (object : Expr.Alike K e e') (name : t.Alike K t') :
    Expr.Alike K (.get i e t) (.get i' e' t')
  | set {i i' : Nat} {t t' : Token} {a a' b b' : Expr} (number : K.numbers i i')
    (object : Expr.Alike K a a') (name : t.Alike K t') (value : Expr.Alike K b b') :
    Expr.Alike K (.set i a t b) (.set i' a' t' b')

/-- Lists of expressions alike. -/
abbrev Expr.AllAlike (K : Likeness) : List Expr → List Expr → Prop :=
  List.Forall₂ (Expr.Alike K)

mutual

/-- Statements alike. -/
inductive Stmt.Alike (K : Likeness) : Stmt → Stmt → Prop where
  | expr {e e' : Expr} (value : e.Alike K e') : Stmt.Alike K (.expr e) (.expr e')
  | print {e e' : Expr} (value : e.Alike K e') : Stmt.Alike K (.print e) (.print e')
  | var {t t' : Token} {e e' : Option Expr} (name : t.Alike K t')
    (initial : Option.Rel (Expr.Alike K) e e') : Stmt.Alike K (.var t e) (.var t' e')
  | block {ss ss' : List Stmt} (body : List.Forall₂ (Stmt.Alike K) ss ss') :
    Stmt.Alike K (.block ss) (.block ss')
  | ifThen {e e' : Expr} {s s' : Stmt} (condition : e.Alike K e') (yes : Stmt.Alike K s s') :
    Stmt.Alike K (.ifThen e s) (.ifThen e' s')
  | ifElse {e e' : Expr} {a a' b b' : Stmt} (condition : e.Alike K e')
    (yes : Stmt.Alike K a a') (no : Stmt.Alike K b b') :
    Stmt.Alike K (.ifElse e a b) (.ifElse e' a' b')
  | loop {e e' : Expr} {s s' : Stmt} (condition : e.Alike K e') (body : Stmt.Alike K s s') :
    Stmt.Alike K (.loop e s) (.loop e' s')
  | function {r r' : Routine} (routine : Routine.Alike K r r') :
    Stmt.Alike K (.function r) (.function r')
  | ret {t t' : Token} {e e' : Option Expr} (keyword : t.Alike K t')
    (value : Option.Rel (Expr.Alike K) e e') : Stmt.Alike K (.ret t e) (.ret t' e')
  | classDecl {t t' : Token} {rs rs' : List Routine} (name : t.Alike K t')
    (methods : List.Forall₂ (Routine.Alike K) rs rs') :
    Stmt.Alike K (.classDecl t rs) (.classDecl t' rs')

/-- Routines alike. -/
inductive Routine.Alike (K : Likeness) : Routine → Routine → Prop where
  | mk {t t' : Token} {ts ts' : List Token} {ss ss' : List Stmt} (name : t.Alike K t')
    (parameters : Token.AllAlike K ts ts') (body : List.Forall₂ (Stmt.Alike K) ss ss') :
    Routine.Alike K (.mk t ts ss) (.mk t' ts' ss')

end

/-- Lists of statements alike. -/
abbrev Stmt.AllAlike (K : Likeness) : List Stmt → List Stmt → Prop :=
  List.Forall₂ (Stmt.Alike K)

/-- Lists of routines alike. -/
abbrev Routine.AllAlike (K : Likeness) : List Routine → List Routine → Prop :=
  List.Forall₂ (Routine.Alike K)

namespace Token

variable {K : Likeness} {t t' : Token} {ts ts' : List Token}

/-- Tokens alike end their sources both or neither. -/
theorem Alike.isEnd (h : t.Alike K t') : t.isEnd = t'.isEnd := by
  unfold Token.isEnd
  rw [h.kind]

/-- Lists of tokens alike have the same words. -/
theorem AllAlike.lexemes (h : AllAlike K ts ts') : ts.map lexeme = ts'.map lexeme := by
  have hmap := List.rel_map (R := Alike K) (P := Eq) (fun _ _ ht => ht.lexeme) h
  rwa [List.forall₂_eq_eq_eq] at hmap

end Token

namespace Routine.Alike

variable {K : Likeness} {r r' : Routine}

/-- The names of routines alike. -/
theorem name (h : r.Alike K r') : r.name.Alike K r'.name := by
  cases h with
  | mk name _ _ => exact name

/-- The parameters of routines alike. -/
theorem parameters (h : r.Alike K r') : Token.AllAlike K r.parameters r'.parameters := by
  cases h with
  | mk _ parameters _ => exact parameters

/-- The bodies of routines alike. -/
theorem body (h : r.Alike K r') : Stmt.AllAlike K r.body r'.body := by
  cases h with
  | mk _ _ body => exact body

end Routine.Alike

/-- What is claimed of the numbers that correspond, for the expressions of a list. -/
def Likeness.Carries (K K' : Likeness) (exprs : List Expr) : Prop :=
  ∀ e ∈ exprs, ∀ i, K.numbers e.id i → K'.numbers e.id i

namespace Likeness.Carries

variable {K K' : Likeness} {exprs others : List Expr} {e : Expr}

/-- The first expression and the rest. -/
theorem cons (h : K.Carries K' (e :: exprs)) :
    (∀ i, K.numbers e.id i → K'.numbers e.id i) ∧ K.Carries K' exprs :=
  ⟨h e List.mem_cons_self, fun x hx => h x (List.mem_cons_of_mem e hx)⟩

/-- Two lists of expressions. -/
theorem append (h : K.Carries K' (exprs ++ others)) :
    K.Carries K' exprs ∧ K.Carries K' others :=
  ⟨fun x hx => h x (List.mem_append_left others hx),
    fun x hx => h x (List.mem_append_right exprs hx)⟩

end Likeness.Carries

variable {K K' : Likeness}

/-- Tokens stay alike when more lines correspond. -/
theorem Token.Alike.imp {t t' : Token} (h : t.Alike K t')
    (hlines : ∀ a b, K.lines a b → K'.lines a b) : t.Alike K' t' :=
  ⟨h.kind, h.lexeme, h.literal, hlines _ _ h.line⟩

mutual

/-- Expressions stay alike where the numbers in them still correspond. -/
theorem Expr.Alike.imp {e e' : Expr} (h : e.Alike K e')
    (hlines : ∀ a b, K.lines a b → K'.lines a b) (hnumbers : K.Carries K' e.nodes) :
    e.Alike K' e' := by
  obtain ⟨hid, hrest⟩ : (∀ i, K.numbers e.id i → K'.numbers e.id i) ∧
      K.Carries K' e.nodes.tail := by
    cases e <;> exact hnumbers.cons
  cases e with
  | literal =>
    cases h with
    | literal _ number => exact .literal _ (hid _ number)
  | unary =>
    cases h with
    | unary number operator operand =>
      exact .unary (hid _ number) (operator.imp hlines) (operand.imp hlines hrest)
  | binary =>
    cases h with
    | binary number left operator right =>
      exact .binary (hid _ number) (left.imp hlines hrest.append.1) (operator.imp hlines)
        (right.imp hlines hrest.append.2)
  | logical =>
    cases h with
    | logical number left operator right =>
      exact .logical (hid _ number) (left.imp hlines hrest.append.1) (operator.imp hlines)
        (right.imp hlines hrest.append.2)
  | group =>
    cases h with
    | group number inner => exact .group (hid _ number) (inner.imp hlines hrest)
  | var =>
    cases h with
    | var number name => exact .var (hid _ number) (name.imp hlines)
  | receiver =>
    cases h with
    | receiver number keyword => exact .receiver (hid _ number) (keyword.imp hlines)
  | assign =>
    cases h with
    | assign number name value =>
      exact .assign (hid _ number) (name.imp hlines) (value.imp hlines hrest)
  | call =>
    cases h with
    | call number callee paren arguments =>
      exact .call (hid _ number) (callee.imp hlines hrest.append.1) (paren.imp hlines)
        (Expr.AllAlike.imp arguments hlines hrest.append.2)
  | get =>
    cases h with
    | get number object name =>
      exact .get (hid _ number) (object.imp hlines hrest) (name.imp hlines)
  | set =>
    cases h with
    | set number object name value =>
      exact .set (hid _ number) (object.imp hlines hrest.append.1) (name.imp hlines)
        (value.imp hlines hrest.append.2)

/-- Lists of expressions stay alike where the numbers in them still correspond. -/
theorem Expr.AllAlike.imp {es es' : List Expr} (h : Expr.AllAlike K es es')
    (hlines : ∀ a b, K.lines a b → K'.lines a b) (hnumbers : K.Carries K' (Expr.nodesOfAll es)) :
    Expr.AllAlike K' es es' := by
  cases es with
  | nil =>
    cases h with
    | nil => exact .nil
  | cons e rest =>
    cases h with
    | cons first others =>
      exact .cons (Expr.Alike.imp first hlines hnumbers.append.1)
        (Expr.AllAlike.imp others hlines hnumbers.append.2)

end

/-- Expressions that may be absent stay alike. -/
theorem Expr.Alike.impOption {e e' : Option Expr} (h : Option.Rel (Expr.Alike K) e e')
    (hlines : ∀ a b, K.lines a b → K'.lines a b)
    (hnumbers : K.Carries K' (Expr.nodesOfOption e)) : Option.Rel (Expr.Alike K') e e' := by
  cases h with
  | none => exact .none
  | some h => exact .some (h.imp hlines hnumbers)

/-- Lists of tokens stay alike. -/
theorem Token.AllAlike.imp {ts ts' : List Token} (h : Token.AllAlike K ts ts')
    (hlines : ∀ a b, K.lines a b → K'.lines a b) : Token.AllAlike K' ts ts' :=
  List.Forall₂.imp (fun _ _ ht => ht.imp hlines) h

mutual

/-- Statements stay alike where the numbers in them still correspond. -/
theorem Stmt.Alike.imp {s s' : Stmt} (h : s.Alike K s')
    (hlines : ∀ a b, K.lines a b → K'.lines a b) (hnumbers : K.Carries K' s.exprs) :
    s.Alike K' s' := by
  cases s with
  | expr =>
    cases h with
    | expr value => exact .expr (value.imp hlines hnumbers)
  | print =>
    cases h with
    | print value => exact .print (value.imp hlines hnumbers)
  | var =>
    cases h with
    | var name initial =>
      exact .var (name.imp hlines) (Expr.Alike.impOption initial hlines hnumbers)
  | block =>
    cases h with
    | block body => exact .block (Stmt.AllAlike.imp body hlines hnumbers)
  | ifThen =>
    cases h with
    | ifThen condition yes =>
      exact .ifThen (condition.imp hlines hnumbers.append.1)
        (Stmt.Alike.imp yes hlines hnumbers.append.2)
  | ifElse =>
    cases h with
    | ifElse condition yes no =>
      exact .ifElse (condition.imp hlines hnumbers.append.1.append.1)
        (Stmt.Alike.imp yes hlines hnumbers.append.1.append.2)
        (Stmt.Alike.imp no hlines hnumbers.append.2)
  | loop =>
    cases h with
    | loop condition body =>
      exact .loop (condition.imp hlines hnumbers.append.1)
        (Stmt.Alike.imp body hlines hnumbers.append.2)
  | function =>
    cases h with
    | function routine => exact .function (Routine.Alike.imp routine hlines hnumbers)
  | ret =>
    cases h with
    | ret keyword value =>
      exact .ret (keyword.imp hlines) (Expr.Alike.impOption value hlines hnumbers)
  | classDecl =>
    cases h with
    | classDecl name methods =>
      exact .classDecl (name.imp hlines) (Routine.AllAlike.imp methods hlines hnumbers)

/-- Lists of statements stay alike where the numbers in them still correspond. -/
theorem Stmt.AllAlike.imp {ss ss' : List Stmt} (h : Stmt.AllAlike K ss ss')
    (hlines : ∀ a b, K.lines a b → K'.lines a b)
    (hnumbers : K.Carries K' (Stmt.exprsOfAll ss)) : Stmt.AllAlike K' ss ss' := by
  cases ss with
  | nil =>
    cases h with
    | nil => exact .nil
  | cons s rest =>
    cases h with
    | cons first others =>
      exact .cons (Stmt.Alike.imp first hlines hnumbers.append.1)
        (Stmt.AllAlike.imp others hlines hnumbers.append.2)

/-- Routines stay alike where the numbers in them still correspond. -/
theorem Routine.Alike.imp {r r' : Routine} (h : r.Alike K r')
    (hlines : ∀ a b, K.lines a b → K'.lines a b) (hnumbers : K.Carries K' r.exprs) :
    r.Alike K' r' := by
  cases r with
  | mk =>
    cases h with
    | mk name parameters body =>
      exact .mk (name.imp hlines) (Token.AllAlike.imp parameters hlines)
        (Stmt.AllAlike.imp body hlines hnumbers)

/-- Lists of routines stay alike where the numbers in them still correspond. -/
theorem Routine.AllAlike.imp {rs rs' : List Routine} (h : Routine.AllAlike K rs rs')
    (hlines : ∀ a b, K.lines a b → K'.lines a b)
    (hnumbers : K.Carries K' (Routine.exprsOfAll rs)) : Routine.AllAlike K' rs rs' := by
  cases rs with
  | nil =>
    cases h with
    | nil => exact .nil
  | cons r rest =>
    cases h with
    | cons first others =>
      exact .cons (Routine.Alike.imp first hlines hnumbers.append.1)
        (Routine.AllAlike.imp others hlines hnumbers.append.2)

end

end Scriptlet
