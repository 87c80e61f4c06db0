import Scriptlet.Proofs.Binding.Sites

/-!
# The walk over a program and its places

The walk of a program visits its places in order. It opens and closes scopes as
the places say, and what it records and the violations it finds depend on
nothing else: neither on the distances nor on the violations that were there
before. Without a violation every place is legal, and the recorded distances
are those of the uses among the places.
-/

namespace Scriptlet.Binding

/-- What a place adds to the recorded distances. -/
def Site.record (hops : Hops) (site : Site) : Hops :=
  match site.act with
  | .use id name _ =>
    match distance? site.scopes name.lexeme with
    | some d => hops.insert id d
    | none => hops
  | .declare _ => hops
  | .branch _ => hops

/-- The scoping rules at a place. -/
def Site.Legal (site : Site) : Prop :=
  match site.act with
  | .use _ name .read => isPending site.scopes name.lexeme = false
  | .use _ _ .receiver => ∃ scope ∈ site.scopes.tail, scope.contains receiverName = true
  | .use _ _ .write => True
  | .declare name => isDeclared site.scopes name.lexeme = false
  | .branch _ => True

/-- Inside a class some scope declares the receiver. -/
def Context.Sees (ctx : Context) (scopes : List Scope) : Prop :=
  ctx.inClass = true → ∃ scope ∈ scopes, scope.contains receiverName = true

/-- Outside every class nothing has to be declared. -/
theorem Context.Sees.outermost : Context.Sees {} (List.tail []) := fun hclass => by cases hclass

/-- A further scope hides no receiver. -/
theorem Context.Sees.enter {ctx : Context} {scopes : List Scope} (h : ctx.Sees scopes.tail)
    (scope : Scope) : ctx.Sees (scope :: scopes).tail := fun hclass =>
  (h hclass).imp fun _ hmem => ⟨List.mem_of_mem_tail hmem.1, hmem.2⟩

/-- A step of the walk leads from one stack of scopes to another and records the
uses of some places; if it finds no violation, the places are the given ones
and all of them are legal. -/
def Walks (step : Walk → Walk) (scopes : List Scope) (sites : List Site) (after : List Scope) :
    Prop :=
  ∃ recorded found,
    (∀ hops errors, step ⟨scopes, hops, errors⟩ =
      ⟨after, recorded.foldl Site.record hops, errors ++ found⟩) ∧
    (found = [] → recorded = sites ∧ ∀ site ∈ sites, site.Legal)

namespace Walks

variable {scopes middle after : List Scope} {sites others : List Site} {step next : Walk → Walk}

/-- A step that visits no place, opens and closes scopes and finds no violation. -/
theorem silent (h : ∀ hops errors, step ⟨scopes, hops, errors⟩ = ⟨after, hops, errors⟩) :
    Walks step scopes [] after := by
  refine ⟨[], [], ?_, ?_⟩
  · intro hops errors
    rw [h, List.append_nil]
    rfl
  · intro _
    exact ⟨rfl, fun _ hmem => absurd hmem List.not_mem_nil⟩

/-- Doing nothing visits no place. -/
theorem nothing : Walks (fun w => w) scopes [] scopes := silent fun _ _ => rfl

/-- A step that visits one legal place. -/
theorem legal (site : Site) (h : site.Legal)
    (heq : ∀ hops errors, step ⟨scopes, hops, errors⟩ = ⟨after, site.record hops, errors⟩) :
    Walks step scopes [site] after := by
  refine ⟨[site], [], ?_, ?_⟩
  · intro hops errors
    rw [heq, List.append_nil]
    rfl
  · intro _
    refine ⟨rfl, fun other hmem => ?_⟩
    rw [List.mem_singleton.mp hmem]
    exact h

/-- A step that finds a violation. -/
theorem violation (recorded : List Site) (e : ScopeError)
    (heq : ∀ hops errors, step ⟨scopes, hops, errors⟩ =
      ⟨after, recorded.foldl Site.record hops, errors ++ [e]⟩) :
    Walks step scopes sites after :=
  ⟨recorded, [e], heq, fun h => absurd h (List.cons_ne_nil e [])⟩

/-- One step after the other. -/
theorem comp (hstep : Walks step scopes sites middle) (hnext : Walks next middle others after) :
    Walks (fun w => next (step w)) scopes (sites ++ others) after := by
  obtain ⟨recorded, found, heq, hlegal⟩ := hstep
  obtain ⟨recorded', found', heq', hlegal'⟩ := hnext
  refine ⟨recorded ++ recorded', found ++ found', ?_, ?_⟩
  · intro hops errors
    dsimp only
    rw [heq, heq', List.foldl_append, List.append_assoc]
  · intro hnone
    obtain ⟨hfound, hfound'⟩ := List.append_eq_nil_iff.mp hnone
    obtain ⟨rfl, hsites⟩ := hlegal hfound
    obtain ⟨rfl, hothers⟩ := hlegal' hfound'
    exact ⟨rfl, fun site hmem => (List.mem_append.mp hmem).elim (hsites site) (hothers site)⟩

/-- A step that visits no place of its own before another. -/
theorem before (hstep : Walks step scopes [] middle) (hnext : Walks next middle others after) :
    Walks (fun w => next (step w)) scopes others after :=
  hstep.comp hnext

/-- A step that visits no place of its own behind another. -/
theorem behind (hstep : Walks step scopes sites middle) (hnext : Walks next middle [] after) :
    Walks (fun w => next (step w)) scopes sites after := by
  have h := hstep.comp hnext
  rwa [List.append_nil] at h

/-- A branch is a place that is always legal. -/
theorem branch {s : Stmt} (h : Walks step scopes sites after) :
    Walks step scopes (⟨scopes, .branch s⟩ :: sites) after := by
  have hsite : Walks (fun w => w) scopes [⟨scopes, .branch s⟩] scopes :=
    legal ⟨scopes, .branch s⟩ trivial fun _ _ => rfl
  exact hsite.comp h

end Walks

/-- Recording the distance of a name changes nothing else. -/
theorem bind_eq (scopes : List Scope) (hops : Hops) (errors : List ScopeError) (id : Nat)
    (name : Token) (how : Use) :
    Walk.bind ⟨scopes, hops, errors⟩ id name =
      ⟨scopes, Site.record hops ⟨scopes, .use id name how⟩, errors⟩ := by
  unfold Walk.bind Site.record
  dsimp only [Walk.distance?, distance?]
  cases List.findIdx? (·.contains name.lexeme) scopes <;> rfl

variable (scopes : List Scope) (id : Nat) (name : Token)

/-- Reading a variable. -/
theorem read_walks :
    Walks (fun w => (if w.isPending name then w.note name .ownInitializer else w).bind id name)
      scopes [⟨scopes, .use id name .read⟩] scopes := by
  have hcond : ∀ hops errors,
      Walk.isPending ⟨scopes, hops, errors⟩ name = isPending scopes name.lexeme := by
    intro hops errors
    cases scopes <;> rfl
  cases hpending : isPending scopes name.lexeme with
  | false =>
    apply Walks.legal ⟨scopes, .use id name .read⟩ hpending
    intro hops errors
    rw [hcond, hpending]
    exact bind_eq scopes hops errors id name .read
  | true =>
    apply Walks.violation [⟨scopes, .use id name .read⟩] ⟨name, .ownInitializer⟩
    intro hops errors
    rw [hcond, hpending]
    exact bind_eq scopes hops _ id name .read

/-- Reading the receiver. -/
theorem receiver_walks {ctx : Context} (hctx : ctx.Sees scopes.tail) :
    Walks (fun w => if ctx.inClass then w.bind id name else w.note name .strayReceiver)
      scopes [⟨scopes, .use id name .receiver⟩] scopes := by
  cases hclass : ctx.inClass with
  | true =>
    apply Walks.legal ⟨scopes, .use id name .receiver⟩ (hctx hclass)
    intro hops errors
    exact bind_eq scopes hops errors id name .receiver
  | false => exact Walks.violation [] ⟨name, .strayReceiver⟩ fun _ _ => rfl

/-- Overwriting a variable. -/
theorem write_walks :
    Walks (·.bind id name) scopes [⟨scopes, .use id name .write⟩] scopes := by
  apply Walks.legal ⟨scopes, .use id name .write⟩ trivial
  intro hops errors
  exact bind_eq scopes hops errors id name .write

/-- Declaring a name. -/
theorem declare_walks :
    Walks (·.declare name) scopes [⟨scopes, .declare name⟩] (declareIn name scopes) := by
  cases scopes with
  | nil => exact Walks.legal ⟨[], .declare name⟩ rfl fun _ _ => rfl
  | cons scope outer =>
    cases hdeclared : scope.contains name.lexeme with
    | false =>
      apply Walks.legal ⟨scope :: outer, .declare name⟩ hdeclared
      intro hops errors
      simp only [Walk.declare, declareIn, hdeclared]
      rfl
    | true =>
      apply Walks.violation [] ⟨name, .redeclared⟩
      intro hops errors
      simp only [Walk.declare, declareIn, hdeclared]
      rfl

/-- Completing the initial value of a name. -/
theorem complete_walks : Walks (·.complete name) scopes [] (completeIn name scopes) := by
  cases scopes <;> exact .silent fun _ _ => rfl

/-- Declaring a name that needs no initial value. -/
theorem introduce_walks :
    Walks (·.introduce name) scopes [⟨scopes, .declare name⟩] (introduceIn name scopes) :=
  (declare_walks scopes name).behind (complete_walks _ name)

/-- Opening a scope. -/
theorem enter_walks (scope : Scope) : Walks (·.enter scope) scopes [] (scope :: scopes) :=
  .silent fun _ _ => rfl

/-- Closing a scope. -/
theorem leave_walks : Walks (·.leave) scopes [] scopes.tail := .silent fun _ _ => rfl

/-- A `return` may be a violation and visits no place. -/
theorem return_walks (ctx : Context) :
    Walks (fun w => if ctx.inRoutine then w else w.note name .topLevelReturn) scopes [] scopes := by
  cases hroutine : ctx.inRoutine with
  | true => exact .nothing
  | false => exact Walks.violation [] ⟨name, .topLevelReturn⟩ fun _ _ => rfl

/-- Declaring the parameters of a routine. -/
theorem parameters_walks (parameters : List Token) :
    Walks (parameters.foldl Walk.introduce) scopes (declarations scopes parameters)
      (parameters.foldl (fun scopes name => introduceIn name scopes) scopes) := by
  induction parameters generalizing scopes with
  | nil => exact .nothing
  | cons name rest ih => exact (introduce_walks scopes name).comp (ih (introduceIn name scopes))

mutual

/-- Walking over an expression visits its places. -/
theorem walkExpr_walks {ctx : Context} {scopes : List Scope} (hctx : ctx.Sees scopes.tail) :
    ∀ e : Expr, Walks (walkExpr ctx · e) scopes (e.sites scopes) scopes
  | .literal _ _ => .nothing
  | .unary _ _ operand => walkExpr_walks hctx operand
  | .binary _ left _ right => (walkExpr_walks hctx left).comp (walkExpr_walks hctx right)
  | .logical _ left _ right => (walkExpr_walks hctx left).comp (walkExpr_walks hctx right)
  | .group _ inner => walkExpr_walks hctx inner
  | .var id name => read_walks scopes id name
  | .receiver id keyword => receiver_walks scopes id keyword hctx
  | .assign id name value => (walkExpr_walks hctx value).comp (write_walks scopes id name)
  | .call _ callee _ arguments =>
    (walkExpr_walks hctx callee).comp (walkExprs_walks hctx arguments)
  | .get _ object _ => walkExpr_walks hctx object
  | .set _ object _ value => (walkExpr_walks hctx value).comp (walkExpr_walks hctx object)

/-- Walking over expressions visits their places. -/
theorem walkExprs_walks {ctx : Context} {scopes : List Scope} (hctx : ctx.Sees scopes.tail) :
    ∀ es : List Expr, Walks (walkExprs ctx · es) scopes (Expr.sitesOfAll scopes es) scopes
  | [] => .nothing
  | e :: rest => (walkExpr_walks hctx e).comp (walkExprs_walks hctx rest)

end

/-- Walking over an expression that may be absent visits its places. -/
theorem walkOption_walks {ctx : Context} {scopes : List Scope} (hctx : ctx.Sees scopes.tail)
    (e? : Option Expr) :
    Walks (walkOption ctx · e?) scopes (Expr.sitesOfOption scopes e?) scopes :=
  match e? with
  | none => .nothing
  | some e => walkExpr_walks hctx e

mutual

/-- Walking over a statement visits its places. -/
theorem walkStmt_walks {ctx : Context} {scopes : List Scope} (hctx : ctx.Sees scopes.tail) :
    ∀ s : Stmt, Walks (walkStmt ctx · s) scopes (s.sites scopes) (s.scopesAfter scopes)
  | .expr value => walkExpr_walks hctx value
  | .print value => walkExpr_walks hctx value
  | .var name initial => by
    have hinitial : ctx.Sees (declareIn name scopes).tail := by rwa [declareIn_tail]
    exact ((declare_walks scopes name).comp (walkOption_walks hinitial initial)).behind
      (complete_walks _ name)
  | .block body => by
    have h := ((enter_walks scopes .empty).before
      (walkStmts_walks (hctx.enter .empty) body)).behind (leave_walks _)
    rwa [Stmt.scopesAfterAll_tail] at h
  | .ifThen condition yes =>
    (walkExpr_walks hctx condition).comp (walkStmt_walks hctx yes).branch
  | .ifElse condition yes no => by
    have hno : ctx.Sees (yes.scopesAfter scopes).tail := by rwa [Stmt.scopesAfter_tail]
    exact (walkExpr_walks hctx condition).comp
      ((walkStmt_walks hctx yes).branch.comp (walkStmt_walks hno no).branch)
  | .loop condition body =>
    (walkExpr_walks hctx condition).comp (walkStmt_walks hctx body).branch
  | .function (.mk name parameters body) => by
    have hroutine : ctx.Sees (introduceIn name scopes) := fun hclass => by
      obtain ⟨scope, hmem, hscope⟩ := hctx hclass
      rw [← introduceIn_tail name scopes] at hmem
      exact ⟨scope, List.mem_of_mem_tail hmem, hscope⟩
    exact (introduce_walks scopes name).comp (walkRoutine_walks hroutine (.mk name parameters body))
  | .ret keyword value =>
    (return_walks scopes keyword ctx).before (walkOption_walks hctx value)
  | .classDecl name methods => by
    have hmethods : Context.Sees { ctx with inClass := true }
        (receiverScope :: introduceIn name scopes) :=
      fun _ => ⟨receiverScope, List.mem_cons_self, rfl⟩
    exact (((introduce_walks scopes name).behind (enter_walks _ receiverScope)).comp
      (walkRoutines_walks hmethods methods)).behind (leave_walks _)

/-- Walking over statements visits their places. -/
theorem walkStmts_walks {ctx : Context} {scopes : List Scope} (hctx : ctx.Sees scopes.tail) :
    ∀ body : List Stmt, Walks (walkStmts ctx · body) scopes (Stmt.sitesOfAll scopes body)
      (Stmt.scopesAfterAll scopes body)
  | [] => .nothing
  | s :: rest => by
    have hrest : ctx.Sees (s.scopesAfter scopes).tail := by rwa [Stmt.scopesAfter_tail]
    exact (walkStmt_walks hctx s).comp (walkStmts_walks hrest rest)

/-- Walking over a routine visits its places. -/
theorem walkRoutine_walks {ctx : Context} {scopes : List Scope} (hctx : ctx.Sees scopes) :
    ∀ r : Routine, Walks (walkRoutine ctx · r) scopes (r.sites scopes) scopes
  | .mk _ parameters body => by
    have hbody : Context.Sees { ctx with inRoutine := true } (bodyScopes parameters scopes).tail := by
      rwa [bodyScopes_tail]
    have h := (((enter_walks scopes .empty).before (parameters_walks _ parameters)).comp
      (walkStmts_walks hbody body)).behind (leave_walks _)
    rwa [Stmt.scopesAfterAll_tail, bodyScopes_tail] at h

/-- Walking over routines visits their places. -/
theorem walkRoutines_walks {ctx : Context} {scopes : List Scope} (hctx : ctx.Sees scopes) :
    ∀ rs : List Routine,
      Walks (walkRoutines ctx · rs) scopes (Routine.sitesOfAll scopes rs) scopes
  | [] => .nothing
  | r :: rest => (walkRoutine_walks hctx r).comp (walkRoutines_walks hctx rest)

end

/-- A program that is bound without violations has only legal places, and its
recorded distances are those of the uses among them. -/
theorem bindProgram_legal {program : Program} (h : (bindProgram program).errors = []) :
    (bindProgram program).hops = program.sites.foldl Site.record {} ∧
      ∀ site ∈ program.sites, site.Legal := by
  obtain ⟨recorded, found, heq, hlegal⟩ := walkStmts_walks Context.Sees.outermost program
  have hbound : bindProgram program = ⟨recorded.foldl Site.record {}, found⟩ := by
    have hwalk : walkStmts {} {} program =
        ⟨Stmt.scopesAfterAll [] program, recorded.foldl Site.record {}, [] ++ found⟩ := heq {} []
    unfold bindProgram
    rw [hwalk]
    rfl
  rw [hbound] at h ⊢
  obtain ⟨rfl, hsites⟩ := hlegal h
  exact ⟨rfl, hsites⟩

end Scriptlet.Binding
