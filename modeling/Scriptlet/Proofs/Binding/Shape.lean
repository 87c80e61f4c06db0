import Scriptlet.Proofs.Binding.Sites
import Scriptlet.Proofs.Grammar.Reading
import Scriptlet.Proofs.Source.Tokens

/-!
# The places of a tree that was read

In a tree that was read from tokens no two uses of names have one number, and
all their numbers lie in the range that the reading used up. A statement that
may be skipped or repeated declares no name, so that no declaration is missed
when the program runs. With tokens spelled as their kinds say, the word for the
receiver stands for the receiver only: it is never declared, and no variable that is
read or overwritten has that name.
-/

namespace Scriptlet

namespace Binding

/-- The number of the use at a place. -/
def Site.id? (site : Site) : Option Nat :=
  match site.act with
  | .use id _ _ => some id
  | .declare _ => none
  | .branch _ => none

/-- What the grammar promises at a place. -/
def Site.Shaped (site : Site) : Prop :=
  match site.act with
  | .use _ name .receiver => name.lexeme = receiverName
  | .use _ name .read => name.lexeme ≠ receiverName
  | .use _ name .write => name.lexeme ≠ receiverName
  | .declare name => name.lexeme ≠ receiverName
  | .branch s => s.declares = false

/-- The uses among some places have different numbers, from `n` on and below
`m`, and every place is as the grammar promises. -/
structure Orderly (n m : Nat) (sites : List Site) : Prop where
  /-- The range goes upward. -/
  le : n ≤ m
  /-- No number occurs twice. -/
  nodup : (sites.filterMap Site.id?).Nodup
  /-- The numbers lie in the range. -/
  range : ∀ id ∈ sites.filterMap Site.id?, n ≤ id ∧ id < m
  /-- The places are shaped by the grammar. -/
  shaped : ∀ site ∈ sites, site.Shaped

namespace Orderly

variable {n m k j : Nat} {sites others : List Site}

/-- No places are orderly in every range. -/
theorem none (h : n ≤ m) : Orderly n m [] :=
  ⟨h, List.nodup_nil, fun _ hmem => absurd hmem List.not_mem_nil,
    fun _ hmem => absurd hmem List.not_mem_nil⟩

/-- A wider range does no harm. -/
theorem widen (h : Orderly n m sites) (hlow : k ≤ n) (hhigh : m ≤ j) : Orderly k j sites := by
  refine ⟨Nat.le_trans hlow (Nat.le_trans h.le hhigh), h.nodup, ?_, h.shaped⟩
  intro id hmem
  have hid := h.range id hmem
  omega

/-- Places of two ranges that do not meet. -/
theorem joined (h : Orderly n m sites) (hothers : Orderly k j others) (apart : m ≤ k ∨ j ≤ n) :
    Orderly (min n k) (max m j) (sites ++ others) := by
  have hle := h.le
  have hle' := hothers.le
  refine ⟨by omega, ?_, ?_, ?_⟩
  · rw [List.filterMap_append, List.nodup_append]
    refine ⟨h.nodup, hothers.nodup, ?_⟩
    intro id hmem id' hmem' heq
    have hid := h.range id hmem
    have hid' := hothers.range id' hmem'
    omega
  · intro id hmem
    rw [List.filterMap_append] at hmem
    rcases List.mem_append.mp hmem with hmem | hmem
    · have hid := h.range id hmem
      omega
    · have hid := hothers.range id hmem
      omega
  · intro site hmem
    exact (List.mem_append.mp hmem).elim (h.shaped site) (hothers.shaped site)

/-- Places in the order of their numbers. -/
theorem append (h : Orderly n m sites) (hothers : Orderly m k others) :
    Orderly n k (sites ++ others) := by
  have hle := h.le
  have hle' := hothers.le
  exact (h.joined hothers (Or.inl (Nat.le_refl m))).widen (by omega) (by omega)

/-- Places against the order of their numbers. -/
theorem prepend (h : Orderly n m sites) (hothers : Orderly m k others) :
    Orderly n k (others ++ sites) := by
  have hle := h.le
  have hle' := hothers.le
  exact (hothers.joined h (Or.inr (Nat.le_refl m))).widen (by omega) (by omega)

/-- A place without a number in front. -/
theorem cons (h : Orderly n m sites) {site : Site} (hid : site.id? = Option.none)
    (hshaped : site.Shaped) : Orderly n m (site :: sites) := by
  refine ⟨h.le, ?_, ?_, List.forall_mem_cons.mpr ⟨hshaped, h.shaped⟩⟩
  · rw [List.filterMap_cons_none hid]
    exact h.nodup
  · rw [List.filterMap_cons_none hid]
    exact h.range

/-- A branch that declares no name in front. -/
theorem branch (h : Orderly n m sites) {scopes : List Scope} {s : Stmt}
    (hplain : s.declares = false) : Orderly n m (⟨scopes, .branch s⟩ :: sites) :=
  h.cons rfl hplain

/-- A use with the number that comes next. -/
theorem use {site : Site} (hid : site.id? = some n) (hshaped : site.Shaped) :
    Orderly n (n + 1) [site] := by
  refine ⟨Nat.le_succ n, ?_, ?_, ?_⟩
  · rw [List.filterMap_cons_some hid]
    exact List.nodup_cons.mpr ⟨List.not_mem_nil, List.nodup_nil⟩
  · intro id hmem
    rw [List.filterMap_cons_some hid] at hmem
    have heq := List.mem_singleton.mp hmem
    omega
  · intro other hmem
    rw [List.mem_singleton.mp hmem]
    exact hshaped

end Orderly

/-- What the reading of a part says about the places of its tree. A statement
that is not a declaration leaves no name behind. -/
def OrderlyNode (p : Grammar.Part) (n : Nat) (x : Grammar.Node) (m : Nat) : Prop :=
  match x with
  | .expr e => ∀ scopes, Orderly n m (e.sites scopes)
  | .exprs es => ∀ scopes, Orderly n m (Expr.sitesOfAll scopes es)
  | .clause e => ∀ scopes, Orderly n m (Expr.sitesOfOption scopes e)
  | .names names => ∀ scopes, Orderly n m (declarations scopes names)
  | .routine r => r.name.lexeme ≠ receiverName ∧ ∀ scopes, Orderly n m (r.sites scopes)
  | .routines rs => ∀ scopes, Orderly n m (Routine.sitesOfAll scopes rs)
  | .initial none => n ≤ m
  | .initial (some s) => ∀ scopes, Orderly n m (s.sites scopes)
  | .stmt s _ => (∀ scopes, Orderly n m (s.sites scopes)) ∧
      (p = .statement ∨ p = .exprStmt → s.declares = false)
  | .stmts body => ∀ scopes, Orderly n m (Stmt.sitesOfAll scopes body)

/-- A loop stands for its condition and its body. -/
theorem orderly_loop {n m k : Nat} {condition : Expr} {body : Stmt}
    (hcondition : ∀ scopes, Orderly n m (condition.sites scopes))
    (hbody : ∀ scopes, Orderly m k (body.sites scopes)) (hplain : body.declares = false)
    (scopes : List Scope) : Orderly n k ((Stmt.loop condition body).sites scopes) :=
  (hcondition scopes).append ((hbody scopes).branch hplain)

/-- The block of a body and a step that is numbered before it. -/
theorem orderly_step {k j i : Nat} {body : Stmt} {e : Expr}
    (hstep : ∀ scopes, Orderly k j (e.sites scopes))
    (hbody : ∀ scopes, Orderly j i (body.sites scopes)) (scopes : List Scope) :
    Orderly k i ((Stmt.block [body, .expr e]).sites scopes) :=
  ((hstep _).append (.none (Nat.le_refl j))).prepend (hbody _)

/-- A loop with clauses is numbered with its body behind its clauses. -/
theorem orderly_desugared {n m k j i : Nat} {first : Option Stmt} {condition : Expr}
    {step : Option Expr} {body : Stmt}
    (hfirst : OrderlyNode .forInitial n (.initial first) m)
    (hcondition : ∀ scopes, Orderly m k (condition.sites scopes))
    (hstep : ∀ scopes, Orderly k j (Expr.sitesOfOption scopes step))
    (hbody : ∀ scopes, Orderly j i (body.sites scopes)) (hplain : body.declares = false) :
    OrderlyNode .statement n (.stmt (Grammar.desugared first condition step body) false) i := by
  cases step with
  | none =>
    have hshort : ∀ scopes, Orderly k i (body.sites scopes) := fun scopes =>
      (hbody scopes).widen (hstep scopes).le (Nat.le_refl i)
    have hloop := orderly_loop hcondition hshort hplain
    cases first with
    | none => exact ⟨fun scopes => (hloop scopes).widen hfirst (Nat.le_refl i), fun _ => hplain⟩
    | some s =>
      exact ⟨fun _ => (hfirst _).append ((hloop _).append (.none (Nat.le_refl i))), fun _ => rfl⟩
  | some e =>
    have hloop := orderly_loop hcondition (orderly_step hstep hbody) rfl
    cases first with
    | none => exact ⟨fun scopes => (hloop scopes).widen hfirst (Nat.le_refl i), fun _ => rfl⟩
    | some s =>
      exact ⟨fun _ => (hfirst _).append ((hloop _).append (.none (Nat.le_refl i))), fun _ => rfl⟩

end Binding

namespace Grammar

open Binding

/-- The places of a tree that was read are orderly. -/
theorem Reads.orderly {p : Part} {n m : Nat} {ts : List Token} {x : Node} (h : Reads p n ts x m) :
    (∀ t ∈ ts, t.Spelled) → OrderlyNode p n x m := by
  induction h with
  | constant _ => exact fun _ _ => .none (Nat.le_succ _)
  | receiver h => exact fun hts _ => .use rfl ((hts _ (List.mem_singleton.mpr rfl)).1 h)
  | name h => exact fun hts _ => .use rfl ((hts _ (List.mem_singleton.mpr rfl)).2 h)
  | group _ _ _ ih =>
    intro hts scopes
    simp only [List.forall_mem_append, List.forall_mem_cons] at hts
    exact (ih hts.2.1 scopes).widen (Nat.le_refl _) (Nat.le_succ _)
  | callPrimary _ ih => exact ih
  | callEmpty _ _ _ ih =>
    intro hts scopes
    rw [List.forall_mem_append] at hts
    exact (ih hts.1 scopes).append (.none (Nat.le_succ _))
  | callWith _ _ _ _ _ ih ihgiven =>
    intro hts scopes
    simp only [List.forall_mem_append, List.forall_mem_cons] at hts
    exact ((ih hts.1 scopes).append (ihgiven hts.2.2.1 scopes)).widen (Nat.le_refl _) (Nat.le_succ _)
  | callGet _ _ _ ih =>
    intro hts scopes
    rw [List.forall_mem_append] at hts
    exact (ih hts.1 scopes).widen (Nat.le_refl _) (Nat.le_succ _)
  | argumentsLast _ ih =>
    intro hts scopes
    exact (ih hts scopes).append (.none (Nat.le_refl _))
  | argumentsMore _ _ _ ih ihothers =>
    intro hts scopes
    simp only [List.forall_mem_append, List.forall_mem_cons] at hts
    exact (ih hts.1 scopes).append (ihothers hts.2.2 scopes)
  | unaryCall _ ih => exact ih
  | unarySign _ _ ih =>
    intro hts scopes
    rw [List.forall_mem_cons] at hts
    exact (ih hts.2 scopes).widen (Nat.le_refl _) (Nat.le_succ _)
  | levelOperand _ _ ih => exact ih
  | levelJoin l _ _ _ ih ihright =>
    intro hts scopes
    simp only [List.forall_mem_append, List.forall_mem_cons] at hts
    have hboth := ((ih hts.1 scopes).append (ihright hts.2.2 scopes)).widen
      (Nat.le_refl _) (Nat.le_succ _)
    cases l <;> exact hboth
  | assignmentPlain _ ih => exact ih
  | assignmentVar h _ _ ih =>
    intro hts scopes
    simp only [List.forall_mem_cons] at hts
    exact ((ih hts.2.2 scopes).widen (Nat.le_succ _) (Nat.le_refl _)).append
      (.use rfl (hts.1.2 h))
  | assignmentSet _ _ _ _ _ ih ihvalue =>
    intro hts scopes
    simp only [List.forall_mem_append, List.forall_mem_cons] at hts
    exact (ih hts.1 scopes).prepend
      ((ihvalue hts.2.2.2.2 scopes).widen (Nat.le_succ _) (Nat.le_succ _))
  | expression _ ih => exact ih
  | clauseAbsent => exact fun _ _ => .none (Nat.le_refl _)
  | clausePresent _ ih => exact ih
  | parametersLast h =>
    intro hts scopes
    exact (Orderly.none (Nat.le_refl _)).cons rfl ((hts _ (List.mem_singleton.mpr rfl)).2 h)
  | parametersMore h _ _ ih =>
    intro hts scopes
    simp only [List.forall_mem_cons] at hts
    exact (ih hts.2.2 _).cons rfl (hts.1.2 h)
  | routineEmpty hname _ _ _ _ _ ih =>
    intro hts
    simp only [List.forall_mem_append, List.forall_mem_cons] at hts
    exact ⟨hts.1.2 hname, fun _ => ih hts.2.2.2.2.1 _⟩
  | routineWith hname _ _ _ _ _ _ _ ihgiven ih =>
    intro hts
    simp only [List.forall_mem_append, List.forall_mem_cons] at hts
    refine ⟨hts.1.2 hname, fun _ => ?_⟩
    exact (ihgiven hts.2.2.1 _).append (ih hts.2.2.2.2.2.1 _)
  | methodsNone => exact fun _ _ => .none (Nat.le_refl _)
  | methodsMore _ _ ih ihothers =>
    intro hts scopes
    rw [List.forall_mem_append] at hts
    exact ((ih hts.1).2 scopes).append (ihothers hts.2 scopes)
  | varBare hname _ =>
    intro hts
    simp only [List.forall_mem_cons] at hts
    refine ⟨fun scopes => ?_, fun h => by simp at h⟩
    exact (Orderly.none (Nat.le_refl _)).cons rfl (hts.1.2 hname)
  | varWith hname _ _ _ ih =>
    intro hts
    simp only [List.forall_mem_append, List.forall_mem_cons] at hts
    refine ⟨fun scopes => ?_, fun h => by simp at h⟩
    exact (ih hts.2.2.1 _).cons rfl (hts.1.2 hname)
  | exprStmt _ _ ih =>
    intro hts
    rw [List.forall_mem_append] at hts
    exact ⟨ih hts.1, fun _ => rfl⟩
  | initialAbsent _ => exact fun _ => Nat.le_refl _
  | initialVar _ _ ih =>
    intro hts
    rw [List.forall_mem_cons] at hts
    exact (ih hts.2).1
  | initialExpr _ ih => exact fun hts => (ih hts).1
  | statementExpr _ ih =>
    intro hts
    exact ⟨(ih hts).1, fun _ => (ih hts).2 (Or.inr rfl)⟩
  | statementPrint _ _ _ ih =>
    intro hts
    simp only [List.forall_mem_append, List.forall_mem_cons] at hts
    exact ⟨ih hts.2.1, fun _ => rfl⟩
  | statementReturn _ _ _ ih =>
    intro hts
    simp only [List.forall_mem_append, List.forall_mem_cons] at hts
    exact ⟨ih hts.2.1, fun _ => rfl⟩
  | statementWhile _ _ _ _ _ ih ihbody =>
    intro hts
    simp only [List.forall_mem_append, List.forall_mem_cons] at hts
    obtain ⟨hbody, hplain⟩ := ihbody hts.2.2.2.2
    refine ⟨fun scopes => ?_, hplain⟩
    exact (ih hts.2.2.1 scopes).append ((hbody scopes).branch (hplain (Or.inl rfl)))
  | statementIf _ _ _ _ _ ih ihyes =>
    intro hts
    simp only [List.forall_mem_append, List.forall_mem_cons] at hts
    obtain ⟨hyes, hplain⟩ := ihyes hts.2.2.2.2
    refine ⟨fun scopes => ?_, hplain⟩
    exact (ih hts.2.2.1 scopes).append ((hyes scopes).branch (hplain (Or.inl rfl)))
  | statementElse _ _ _ _ _ _ _ ih ihyes ihno =>
    intro hts
    simp only [List.forall_mem_append, List.forall_mem_cons] at hts
    obtain ⟨hyes, hyesPlain⟩ := ihyes hts.2.2.2.2.1
    obtain ⟨hno, hnoPlain⟩ := ihno hts.2.2.2.2.2.2
    have hyesPlain := hyesPlain (Or.inl rfl)
    have hnoPlain := hnoPlain (Or.inl rfl)
    refine ⟨fun scopes => ?_, fun _ => Bool.or_eq_false_iff.mpr ⟨hyesPlain, hnoPlain⟩⟩
    exact (ih hts.2.2.1 scopes).append
      (((hyes scopes).append ((hno _).branch hnoPlain)).branch hyesPlain)
  | statementFor _ _ _ _ _ _ _ _ ihinitial ihcondition ihincrement ihbody =>
    intro hts
    simp only [List.forall_mem_append, List.forall_mem_cons] at hts
    obtain ⟨-, -, hinitial, hcondition, -, hincrement, -, hbody⟩ := hts
    obtain ⟨hinside, hplain⟩ := ihbody hbody
    exact orderly_desugared (ihinitial hinitial) (ihcondition hcondition) (ihincrement hincrement)
      hinside (hplain (Or.inl rfl))
  | @statementForever _ m _ i _ _ _ _ _ _ _ _ _ _ _ _ _ _ _ _ _ _ ihinitial ihincrement ihbody =>
    intro hts
    simp only [List.forall_mem_append, List.forall_mem_cons] at hts
    obtain ⟨-, -, hinitial, -, hincrement, -, hbody⟩ := hts
    obtain ⟨hinside, hplain⟩ := ihbody hbody
    have hcondition : ∀ scopes, Orderly m m ((Expr.literal i (.bool true)).sites scopes) :=
      fun _ => .none (Nat.le_refl m)
    have hall := orderly_desugared (ihinitial hinitial) hcondition (ihincrement hincrement)
      hinside (hplain (Or.inl rfl))
    exact ⟨fun scopes => (hall.1 scopes).widen (Nat.le_refl _) (Nat.le_succ _), hall.2⟩
  | statementBlock _ _ _ ih =>
    intro hts
    simp only [List.forall_mem_append, List.forall_mem_cons] at hts
    exact ⟨fun _ => ih hts.2.1 _, fun _ => rfl⟩
  | declarationStatement _ ih => exact fun hts => ⟨(ih hts).1, fun h => by simp at h⟩
  | declarationClass _ hname _ _ _ ih =>
    intro hts
    simp only [List.forall_mem_append, List.forall_mem_cons] at hts
    refine ⟨fun _ => ?_, fun h => by simp at h⟩
    exact (ih hts.2.2.2.1 _).cons rfl (hts.2.1.2 hname)
  | declarationFunction _ _ ih =>
    intro hts
    rw [List.forall_mem_cons] at hts
    refine ⟨fun _ => ?_, fun h => by simp at h⟩
    exact ((ih hts.2).2 _).cons rfl (ih hts.2).1
  | declarationVar _ _ ih =>
    intro hts
    rw [List.forall_mem_cons] at hts
    exact ⟨(ih hts.2).1, fun h => by simp at h⟩
  | declarationsNone => exact fun _ _ => .none (Nat.le_refl _)
  | declarationsMore _ _ ih ihothers =>
    intro hts scopes
    rw [List.forall_mem_append] at hts
    exact ((ih hts.1).1 scopes).append (ihothers hts.2 _)

end Grammar

end Scriptlet
