import Mathlib.Data.List.Nodup
import Scriptlet.Proofs.Alike.Trees

/-!
# Pairing the numbers of trees that are alike

Trees alike have an expression at the same places, so the numbers of their expressions
go together in pairs, place by place, and nothing but these pairs needs to correspond.
Where no number occurs twice on either side, no number is in two pairs: trees that are
alike with any numbers are then alike with numbers that correspond faithfully.
-/

namespace Scriptlet

variable {K : Likeness}

/-- The numbers of two lists of expressions in pairs, place by place: on the same lines
`alike` holds wherever these pairs correspond. -/
def Pairable (K : Likeness) (es es' : List Expr) (alike : Likeness → Prop) : Prop :=
  ∃ pairs : List (Nat × Nat), pairs.map Prod.fst = es.map Expr.id ∧
    pairs.map Prod.snd = es'.map Expr.id ∧
    ∀ K' : Likeness, (∀ a b, K.lines a b → K'.lines a b) →
      (∀ pair ∈ pairs, K'.numbers pair.1 pair.2) → alike K'

namespace Pairable

variable {es es' others others' : List Expr} {e e' : Expr} {P Q R : Likeness → Prop}

/-- What depends on lines only needs no pairs. -/
theorem leaf (h : ∀ K' : Likeness, (∀ a b, K.lines a b → K'.lines a b) → P K') :
    Pairable K [] [] P :=
  ⟨[], rfl, rfl, fun K' hlines _ => h K' hlines⟩

/-- An expression in front of others. -/
theorem node (h : Pairable K es es' P)
    (hnode : ∀ K' : Likeness, (∀ a b, K.lines a b → K'.lines a b) → K'.numbers e.id e'.id →
      P K' → Q K') : Pairable K (e :: es) (e' :: es') Q := by
  obtain ⟨pairs, hleft, hright, hpairs⟩ := h
  refine ⟨(e.id, e'.id) :: pairs, congrArg (List.cons e.id) hleft,
    congrArg (List.cons e'.id) hright, fun K' hlines hnumbers => ?_⟩
  obtain ⟨hown, hrest⟩ := List.forall_mem_cons.mp hnumbers
  exact hnode K' hlines hown (hpairs K' hlines hrest)

/-- An expression without parts. -/
theorem single (h : ∀ K' : Likeness, (∀ a b, K.lines a b → K'.lines a b) →
    K'.numbers e.id e'.id → Q K') : Pairable K [e] [e'] Q :=
  node (P := fun _ => True) (leaf fun _ _ => trivial) fun K' hlines hi _ => h K' hlines hi

/-- What follows on the same lines. -/
theorem mono (h : Pairable K es es' P)
    (himp : ∀ K' : Likeness, (∀ a b, K.lines a b → K'.lines a b) → P K' → Q K') :
    Pairable K es es' Q := by
  obtain ⟨pairs, hleft, hright, hpairs⟩ := h
  exact ⟨pairs, hleft, hright, fun K' hlines hnumbers =>
    himp K' hlines (hpairs K' hlines hnumbers)⟩

/-- Expressions behind others. -/
theorem append (h : Pairable K es es' P) (hothers : Pairable K others others' Q)
    (himp : ∀ K' : Likeness, (∀ a b, K.lines a b → K'.lines a b) → P K' → Q K' → R K') :
    Pairable K (es ++ others) (es' ++ others') R := by
  obtain ⟨pairs, hleft, hright, hpairs⟩ := h
  obtain ⟨pairs', hleft', hright', hpairs'⟩ := hothers
  refine ⟨pairs ++ pairs', ?_, ?_, fun K' hlines hnumbers => ?_⟩
  · rw [List.map_append, List.map_append, hleft, hleft']
  · rw [List.map_append, List.map_append, hright, hright']
  · obtain ⟨hfirst, hrest⟩ := List.forall_mem_append.mp hnumbers
    exact himp K' hlines (hpairs K' hlines hfirst) (hpairs' K' hlines hrest)

end Pairable

mutual

/-- Expressions alike have their numbers in pairs. -/
theorem Expr.Alike.pairable {e e' : Expr} (h : e.Alike K e') :
    Pairable K e.nodes e'.nodes (e.Alike · e') := by
  cases e with
  | literal =>
    cases h with
    | literal _ _ => exact .single fun _ _ hi => .literal _ hi
  | unary =>
    cases h with
    | unary _ operator operand =>
      exact operand.pairable.node fun _ hlines hi hoperand =>
        .unary hi (operator.imp hlines) hoperand
  | binary =>
    cases h with
    | binary _ left operator right =>
      exact (left.pairable.append right.pairable fun _ _ => And.intro).node
        fun _ hlines hi hparts => .binary hi hparts.1 (operator.imp hlines) hparts.2
  | logical =>
    cases h with
    | logical _ left operator right =>
      exact (left.pairable.append right.pairable fun _ _ => And.intro).node
        fun _ hlines hi hparts => .logical hi hparts.1 (operator.imp hlines) hparts.2
  | group =>
    cases h with
    | group _ inner => exact inner.pairable.node fun _ _ hi hinner => .group hi hinner
  | var =>
    cases h with
    | var _ name => exact .single fun _ hlines hi => .var hi (name.imp hlines)
  | receiver =>
    cases h with
    | receiver _ keyword => exact .single fun _ hlines hi => .receiver hi (keyword.imp hlines)
  | assign =>
    cases h with
    | assign _ name value =>
      exact value.pairable.node fun _ hlines hi hvalue =>
        .assign hi (name.imp hlines) hvalue
  | call =>
    cases h with
    | call _ callee paren arguments =>
      exact (callee.pairable.append (Expr.AllAlike.pairable arguments) fun _ _ => And.intro).node
        fun _ hlines hi hparts => .call hi hparts.1 (paren.imp hlines) hparts.2
  | get =>
    cases h with
    | get _ object name =>
      exact object.pairable.node fun _ hlines hi hobject =>
        .get hi hobject (name.imp hlines)
  | set =>
    cases h with
    | set _ object name value =>
      exact (object.pairable.append value.pairable fun _ _ => And.intro).node
        fun _ hlines hi hparts => .set hi hparts.1 (name.imp hlines) hparts.2

/-- Lists of expressions alike have their numbers in pairs. -/
theorem Expr.AllAlike.pairable {es es' : List Expr} (h : Expr.AllAlike K es es') :
    Pairable K (Expr.nodesOfAll es) (Expr.nodesOfAll es') (Expr.AllAlike · es es') := by
  cases es with
  | nil =>
    cases h with
    | nil => exact .leaf fun _ _ => .nil
  | cons e rest =>
    cases h with
    | cons first others =>
      exact (Expr.Alike.pairable first).append (Expr.AllAlike.pairable others)
        fun _ _ => List.Forall₂.cons

end

/-- Expressions that may be absent have their numbers in pairs. -/
theorem Expr.Alike.pairableOption {e e' : Option Expr} (h : Option.Rel (Expr.Alike K) e e') :
    Pairable K (Expr.nodesOfOption e) (Expr.nodesOfOption e')
      fun K' => Option.Rel (Expr.Alike K') e e' := by
  cases h with
  | none => exact .leaf fun _ _ => .none
  | some h => exact h.pairable.mono fun _ _ => .some

mutual

/-- Statements alike have their numbers in pairs. -/
theorem Stmt.Alike.pairable {s s' : Stmt} (h : s.Alike K s') :
    Pairable K s.exprs s'.exprs (s.Alike · s') := by
  cases s with
  | expr =>
    cases h with
    | expr value => exact value.pairable.mono fun _ _ => .expr
  | print =>
    cases h with
    | print value => exact value.pairable.mono fun _ _ => .print
  | var =>
    cases h with
    | var name initial =>
      exact (Expr.Alike.pairableOption initial).mono fun _ hlines =>
        .var (name.imp hlines)
  | block =>
    cases h with
    | block body => exact (Stmt.AllAlike.pairable body).mono fun _ _ => .block
  | ifThen =>
    cases h with
    | ifThen condition yes =>
      exact condition.pairable.append (Stmt.Alike.pairable yes) fun _ _ => .ifThen
  | ifElse =>
    cases h with
    | ifElse condition yes no =>
      exact (condition.pairable.append (Stmt.Alike.pairable yes) fun _ _ => And.intro).append
        (Stmt.Alike.pairable no) fun _ _ hparts => .ifElse hparts.1 hparts.2
  | loop =>
    cases h with
    | loop condition body =>
      exact condition.pairable.append (Stmt.Alike.pairable body) fun _ _ => .loop
  | function =>
    cases h with
    | function routine => exact (Routine.Alike.pairable routine).mono fun _ _ => .function
  | ret =>
    cases h with
    | ret keyword value =>
      exact (Expr.Alike.pairableOption value).mono fun _ hlines =>
        .ret (keyword.imp hlines)
  | classDecl =>
    cases h with
    | classDecl name methods =>
      exact (Routine.AllAlike.pairable methods).mono fun _ hlines =>
        .classDecl (name.imp hlines)

/-- Lists of statements alike have their numbers in pairs. -/
theorem Stmt.AllAlike.pairable {ss ss' : List Stmt} (h : Stmt.AllAlike K ss ss') :
    Pairable K (Stmt.exprsOfAll ss) (Stmt.exprsOfAll ss') (Stmt.AllAlike · ss ss') := by
  cases ss with
  | nil =>
    cases h with
    | nil => exact .leaf fun _ _ => .nil
  | cons s rest =>
    cases h with
    | cons first others =>
      exact (Stmt.Alike.pairable first).append (Stmt.AllAlike.pairable others)
        fun _ _ => List.Forall₂.cons

/-- Routines alike have their numbers in pairs. -/
theorem Routine.Alike.pairable {r r' : Routine} (h : r.Alike K r') :
    Pairable K r.exprs r'.exprs (r.Alike · r') := by
  cases r with
  | mk =>
    cases h with
    | mk name parameters body =>
      exact (Stmt.AllAlike.pairable body).mono fun _ hlines =>
        .mk (name.imp hlines) (Token.AllAlike.imp parameters hlines)

/-- Lists of routines alike have their numbers in pairs. -/
theorem Routine.AllAlike.pairable {rs rs' : List Routine} (h : Routine.AllAlike K rs rs') :
    Pairable K (Routine.exprsOfAll rs) (Routine.exprsOfAll rs') (Routine.AllAlike · rs rs') := by
  cases rs with
  | nil =>
    cases h with
    | nil => exact .leaf fun _ _ => .nil
  | cons r rest =>
    cases h with
    | cons first others =>
      exact (Routine.Alike.pairable first).append (Routine.AllAlike.pairable others)
        fun _ _ => List.Forall₂.cons

end

/-- Programs alike, in neither of which a number occurs twice, are alike for a likeness that
is faithful and speaks of their numbers only. -/
theorem Stmt.AllAlike.exists_faithful {p p' : Program} (h : Stmt.AllAlike K p p')
    (hnodup : ((Stmt.exprsOfAll p).map Expr.id).Nodup)
    (hnodup' : ((Stmt.exprsOfAll p').map Expr.id).Nodup) :
    ∃ numbers, Likeness.Faithful ⟨numbers, K.lines⟩ ∧ Stmt.AllAlike ⟨numbers, K.lines⟩ p p' ∧
      ∀ i i', numbers i i' → i ∈ (Stmt.exprsOfAll p).map Expr.id ∧
        i' ∈ (Stmt.exprsOfAll p').map Expr.id := by
  obtain ⟨pairs, hleft, hright, hpairs⟩ := Stmt.AllAlike.pairable h
  rw [← hleft] at hnodup ⊢
  rw [← hright] at hnodup' ⊢
  -- A number in two pairs would occur twice on its side.
  refine ⟨fun i i' => (i, i') ∈ pairs, ?_, hpairs _ (fun _ _ => id) fun _ => id, ?_⟩
  · intro i i' j j' hi hj
    constructor
    · rintro rfl
      exact congrArg Prod.snd (List.inj_on_of_nodup_map hnodup hi hj rfl)
    · rintro rfl
      exact congrArg Prod.fst (List.inj_on_of_nodup_map hnodup' hi hj rfl)
  · exact fun i i' hi => ⟨List.mem_map_of_mem (f := Prod.fst) hi,
      List.mem_map_of_mem (f := Prod.snd) hi⟩

end Scriptlet
