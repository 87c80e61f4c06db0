import Scriptlet.Binding
import Scriptlet.Proofs.Alike.Trees

/-!
# Binding trees that are alike

Scopes hold names only, and the walk over a program looks at numbers only to record
distances under them. So programs alike have violations alike, and the distances
recorded for them agree at numbers that correspond, provided that no number
corresponds to two.
-/

namespace Scriptlet

/-- Violations alike. -/
structure ScopeError.Alike (K : Likeness) (e e' : ScopeError) : Prop where
  place : e.place.Alike K e'.place
  fault : e.fault = e'.fault

/-- Distances agree at numbers that correspond. -/
def Hops.Alike (K : Likeness) (hops hops' : Hops) : Prop :=
  ∀ i i', K.numbers i i' → hops.get? i = hops'.get? i'

namespace Binding

variable {K : Likeness} {w w' : Walk} {t t' : Token} {i i' : Nat}

/-- Walks alike: in the same scopes. -/
structure Walk.Alike (K : Likeness) (w w' : Walk) : Prop where
  scopes : w.scopes = w'.scopes
  hops : Hops.Alike K w.hops w'.hops
  errors : List.Forall₂ (ScopeError.Alike K) w.errors w'.errors

namespace Walk.Alike

/-- Noting a violation. -/
theorem note (h : w.Alike K w') (ht : t.Alike K t') (fault : ScopeFault) :
    (w.note t fault).Alike K (w'.note t' fault) :=
  ⟨h.scopes, h.hops, List.rel_append h.errors (.cons ⟨ht, rfl⟩ .nil)⟩

/-- Opening a scope. -/
theorem enter (h : w.Alike K w') (scope : Scope) : (w.enter scope).Alike K (w'.enter scope) :=
  ⟨congrArg (List.cons scope) h.scopes, h.hops, h.errors⟩

/-- Closing the innermost scope. -/
theorem leave (h : w.Alike K w') : w.leave.Alike K w'.leave :=
  ⟨congrArg List.tail h.scopes, h.hops, h.errors⟩

/-- Declaring a name. -/
theorem declare (h : w.Alike K w') (ht : t.Alike K t') :
    (w.declare t).Alike K (w'.declare t') := by
  unfold Walk.declare
  rw [← h.scopes, ← ht.lexeme]
  cases w.scopes with
  | nil => exact h
  | cons scope outer =>
    dsimp only
    split
    · exact h.note ht .redeclared
    · exact ⟨rfl, h.hops, h.errors⟩

/-- Completing a name. -/
theorem complete (h : w.Alike K w') (ht : t.Alike K t') :
    (w.complete t).Alike K (w'.complete t') := by
  unfold Walk.complete
  rw [← h.scopes, ← ht.lexeme]
  cases w.scopes with
  | nil => exact h
  | cons scope outer => exact ⟨rfl, h.hops, h.errors⟩

/-- Declaring a name that needs no initial value. -/
theorem introduce (h : w.Alike K w') (ht : t.Alike K t') :
    (w.introduce t).Alike K (w'.introduce t') :=
  (h.declare ht).complete ht

/-- Declaring parameters. -/
theorem introduceAll {ts ts' : List Token} (h : w.Alike K w') (hts : Token.AllAlike K ts ts') :
    (ts.foldl Walk.introduce w).Alike K (ts'.foldl Walk.introduce w') :=
  List.rel_foldl (fun _ _ hw _ _ ht => hw.introduce ht) h hts

/-- Recording a distance under numbers that correspond. -/
theorem bind (hK : K.Faithful) (h : w.Alike K w') (hi : K.numbers i i') (ht : t.Alike K t') :
    (w.bind i t).Alike K (w'.bind i' t') := by
  obtain ⟨scopes, hops, errors⟩ := w
  obtain ⟨_, hops', errors'⟩ := w'
  obtain rfl : scopes = _ := h.scopes
  unfold Walk.bind Walk.distance?
  rw [← ht.lexeme]
  dsimp only
  cases scopes.findIdx? (·.contains t.lexeme) with
  | none => exact h
  | some d =>
    refine ⟨rfl, fun j j' hj => ?_, h.errors⟩
    dsimp only
    rw [Table.get?_insert, Table.get?_insert, h.hops j j' hj]
    exact if_congr (hK i i' j j' hi hj) rfl rfl

/-- Reading a name. -/
theorem read (hK : K.Faithful) (h : w.Alike K w') (hi : K.numbers i i') (ht : t.Alike K t') :
    ((if w.isPending t then w.note t .ownInitializer else w).bind i t).Alike K
      ((if w'.isPending t' then w'.note t' .ownInitializer else w').bind i' t') := by
  have hpending : w.isPending t = w'.isPending t' := by
    unfold Walk.isPending
    rw [h.scopes, ht.lexeme]
  rw [hpending]
  split
  · exact (h.note ht .ownInitializer).bind hK hi ht
  · exact h.bind hK hi ht

end Walk.Alike

mutual

/-- Walking over expressions alike. -/
theorem walkExpr_alike (hK : K.Faithful) (ctx : Context) {w w' : Walk} {e e' : Expr}
    (hw : w.Alike K w') (h : e.Alike K e') :
    (walkExpr ctx w e).Alike K (walkExpr ctx w' e') := by
  cases e with
  | literal =>
    cases h with
    | literal _ _ => exact hw
  | unary =>
    cases h with
    | unary _ _ operand =>
      unfold walkExpr
      exact walkExpr_alike hK ctx hw operand
  | binary =>
    cases h with
    | binary _ left _ right =>
      unfold walkExpr
      exact walkExpr_alike hK ctx (walkExpr_alike hK ctx hw left) right
  | logical =>
    cases h with
    | logical _ left _ right =>
      unfold walkExpr
      exact walkExpr_alike hK ctx (walkExpr_alike hK ctx hw left) right
  | group =>
    cases h with
    | group _ inner =>
      unfold walkExpr
      exact walkExpr_alike hK ctx hw inner
  | var =>
    cases h with
    | var number name =>
      unfold walkExpr
      exact hw.read hK number name
  | receiver =>
    cases h with
    | receiver number keyword =>
      unfold walkExpr
      split
      · exact hw.bind hK number keyword
      · exact hw.note keyword .strayReceiver
  | assign =>
    cases h with
    | assign number name value =>
      unfold walkExpr
      exact (walkExpr_alike hK ctx hw value).bind hK number name
  | call =>
    cases h with
    | call _ callee _ arguments =>
      unfold walkExpr
      exact walkExprs_alike hK ctx (walkExpr_alike hK ctx hw callee) arguments
  | get =>
    cases h with
    | get _ object _ =>
      unfold walkExpr
      exact walkExpr_alike hK ctx hw object
  | set =>
    cases h with
    | set _ object _ value =>
      unfold walkExpr
      exact walkExpr_alike hK ctx (walkExpr_alike hK ctx hw value) object

/-- Walking over lists of expressions alike. -/
theorem walkExprs_alike (hK : K.Faithful) (ctx : Context) {w w' : Walk} {es es' : List Expr}
    (hw : w.Alike K w') (h : Expr.AllAlike K es es') :
    (walkExprs ctx w es).Alike K (walkExprs ctx w' es') := by
  cases es with
  | nil =>
    cases h with
    | nil => exact hw
  | cons e rest =>
    cases h with
    | cons first others =>
      unfold walkExprs
      exact walkExprs_alike hK ctx (walkExpr_alike hK ctx hw first) others

end

/-- Walking over expressions that may be absent. -/
theorem walkOption_alike (hK : K.Faithful) (ctx : Context) {e e' : Option Expr}
    (hw : w.Alike K w') (h : Option.Rel (Expr.Alike K) e e') :
    (walkOption ctx w e).Alike K (walkOption ctx w' e') := by
  cases h with
  | none => exact hw
  | some h => exact walkExpr_alike hK ctx hw h

mutual

/-- Walking over statements alike. -/
theorem walkStmt_alike (hK : K.Faithful) (ctx : Context) {w w' : Walk} {s s' : Stmt}
    (hw : w.Alike K w') (h : s.Alike K s') :
    (walkStmt ctx w s).Alike K (walkStmt ctx w' s') := by
  cases s with
  | expr =>
    cases h with
    | expr value =>
      unfold walkStmt
      exact walkExpr_alike hK ctx hw value
  | print =>
    cases h with
    | print value =>
      unfold walkStmt
      exact walkExpr_alike hK ctx hw value
  | var =>
    cases h with
    | var name initial =>
      unfold walkStmt
      exact (walkOption_alike hK ctx (hw.declare name) initial).complete name
  | block =>
    cases h with
    | block body =>
      unfold walkStmt
      exact (walkStmts_alike hK ctx (hw.enter .empty) body).leave
  | ifThen =>
    cases h with
    | ifThen condition yes =>
      unfold walkStmt
      exact walkStmt_alike hK ctx (walkExpr_alike hK ctx hw condition) yes
  | ifElse =>
    cases h with
    | ifElse condition yes no =>
      unfold walkStmt
      exact walkStmt_alike hK ctx
        (walkStmt_alike hK ctx (walkExpr_alike hK ctx hw condition) yes) no
  | loop =>
    cases h with
    | loop condition body =>
      unfold walkStmt
      exact walkStmt_alike hK ctx (walkExpr_alike hK ctx hw condition) body
  | function =>
    cases h with
    | function routine =>
      cases routine with
      | mk name parameters body =>
        exact walkRoutine_alike hK ctx (hw.introduce name) (.mk name parameters body)
  | ret =>
    cases h with
    | ret keyword value =>
      unfold walkStmt
      split
      · exact walkOption_alike hK ctx hw value
      · exact walkOption_alike hK ctx (hw.note keyword .topLevelReturn) value
  | classDecl =>
    cases h with
    | classDecl name methods =>
      unfold walkStmt
      exact (walkRoutines_alike hK { ctx with inClass := true } ((hw.introduce name).enter _)
        methods).leave

/-- Walking over lists of statements alike. -/
theorem walkStmts_alike (hK : K.Faithful) (ctx : Context) {w w' : Walk} {ss ss' : List Stmt}
    (hw : w.Alike K w') (h : Stmt.AllAlike K ss ss') :
    (walkStmts ctx w ss).Alike K (walkStmts ctx w' ss') := by
  cases ss with
  | nil =>
    cases h with
    | nil => exact hw
  | cons s rest =>
    cases h with
    | cons first others =>
      unfold walkStmts
      exact walkStmts_alike hK ctx (walkStmt_alike hK ctx hw first) others

/-- Walking over routines alike. -/
theorem walkRoutine_alike (hK : K.Faithful) (ctx : Context) {w w' : Walk} {r r' : Routine}
    (hw : w.Alike K w') (h : r.Alike K r') :
    (walkRoutine ctx w r).Alike K (walkRoutine ctx w' r') := by
  cases r with
  | mk =>
    cases h with
    | mk name parameters body =>
      exact (walkStmts_alike hK { ctx with inRoutine := true }
        ((hw.enter .empty).introduceAll parameters) body).leave

/-- Walking over lists of routines alike. -/
theorem walkRoutines_alike (hK : K.Faithful) (ctx : Context) {w w' : Walk} {rs rs' : List Routine}
    (hw : w.Alike K w') (h : Routine.AllAlike K rs rs') :
    (walkRoutines ctx w rs).Alike K (walkRoutines ctx w' rs') := by
  cases rs with
  | nil =>
    cases h with
    | nil => exact hw
  | cons r rest =>
    cases h with
    | cons first others =>
      unfold walkRoutines
      exact walkRoutines_alike hK ctx (walkRoutine_alike hK ctx hw first) others

end

end Binding

/-- What binding programs alike yields. -/
theorem bindProgram_alike {K : Likeness} (hK : K.Faithful) {p p' : Program}
    (h : Stmt.AllAlike K p p') :
    Hops.Alike K (bindProgram p).hops (bindProgram p').hops ∧
      List.Forall₂ (ScopeError.Alike K) (bindProgram p).errors (bindProgram p').errors := by
  have hstart : Binding.Walk.Alike K {} {} := ⟨rfl, fun _ _ _ => rfl, .nil⟩
  have hwalk := Binding.walkStmts_alike hK {} hstart h
  exact ⟨hwalk.hops, hwalk.errors⟩

end Scriptlet
