import Scriptlet.Proofs.Binding.Distances

/-!
# Which programs obey the scoping rules

The scoping rules are stated of the positions of a program. Binding finds no violation exactly if
all of them hold. Flags and scopes that the walk keeps are thereby shown to be those around each
position, also where functions stand in classes, classes in functions and declarations in branches.
-/

namespace Scriptlet

open Binding

namespace Piece

/-- The scope to which a declaration at a position belongs: the innermost block or routine around
it, and none at the top level. -/
def scopeOf (x : Piece) (p : Path) : Option Path := (x.around holdsNames p).head?

/-- The scoping rules. -/
structure Lawful (x : Piece) : Prop where
  /-- Every `return` is in a routine. -/
  returns : ∀ p keyword value, x.at? p = some (stmt (.ret keyword value)) →
    x.around isRoutine p ≠ []
  /-- Every mention of the receiver is in a class. -/
  receivers : ∀ p id keyword, x.at? p = some (expr (.receiver id keyword)) →
    x.around isClass p ≠ []
  /-- No scope declares a name twice. -/
  declaredOnce : ∀ p q name scope, x.DeclaresAt p name → x.DeclaresAt q name →
    x.scopeOf p = some scope → x.scopeOf q = some scope → p = q
  /-- The initial value of a variable in a scope does not read a variable of that name. -/
  initials : ∀ p q name initial id token, x.at? p = some (stmt (.var name initial)) →
    x.scopeOf p ≠ none → x.at? (p ++ q) = some (expr (.var id token)) →
    token.lexeme ≠ name.lexeme

/-- What is declared stands at a position. -/
theorem DeclaresAt.exists_at {x : Piece} {p : Path} {name : String} (h : x.DeclaresAt p name) :
    ∃ z, x.at? p = some z :=
  let ⟨z, _, hz, _⟩ := h
  ⟨z, hz⟩

/-- The parts of a class are its routines. -/
theorem exists_method_of_isClass {x y : Piece} (hx : x.isClass = true) (hy : y ∈ x.children) :
    ∃ routine, y = method routine := by
  cases x with
  | stmt s =>
    cases s with
    | classDecl name methods =>
      obtain ⟨routine, -, rfl⟩ := List.mem_map.mp hy
      exact ⟨routine, rfl⟩
    | _ => cases hx
  | _ => cases hx

/-- A class holds no declarations itself, so that a declaration belongs to the innermost scope around
it. -/
theorem head?_scopesAround {p : Path} : ∀ {x : Piece} {name : String}, x.DeclaresAt p name →
    (x.scopesAround p).head? = x.scopeOf p := by
  induction p with
  | nil => exact fun _ => rfl
  | cons i p ih =>
    intro x name hname
    obtain ⟨z, token, hz, htoken, -⟩ := hname
    obtain ⟨y, hy, hz⟩ := at?_cons.mp hz
    have hinner := ih ⟨z, token, hz, htoken, rfl⟩
    unfold scopeOf at hinner ⊢
    rw [scopesAround_cons hy, around_cons holdsNames hy]
    cases hscopes : y.scopesAround p with
    | cons scope outer =>
      rw [hscopes] at hinner
      cases hheld : y.around holdsNames p with
      | nil =>
        rw [hheld] at hinner
        cases hinner
      | cons scope' outer' =>
        rw [hheld] at hinner
        cases hinner
        rfl
    | nil =>
      rw [hscopes] at hinner
      rw [List.head?_eq_none_iff.mp hinner.symm]
      -- A declaration that is in no scope of the part stands in no class.
      have hclass : x.isClass = false := by
        rw [Bool.eq_false_iff]
        intro hclass
        obtain ⟨routine, rfl⟩ := exists_method_of_isClass hclass (List.mem_of_getElem? hy)
        cases p with
        | nil =>
          cases hz
          cases htoken
        | cons j q =>
          obtain ⟨inner, hinner, -⟩ := at?_cons.mp hz
          exact scopesAround_ne_nil rfl hinner q hscopes
      rw [isScope, hclass, Bool.or_false]

/-- The scope to which a declaration belongs is no class. -/
theorem not_isClass_of_scopeOf {x : Piece} {p scope : Path} (h : x.scopeOf p = some scope) :
    (x.at? scope).any isClass = false := by
  have hmem := (List.mem_filter.mp (List.mem_of_head? h)).2
  revert hmem
  cases x.at? scope with
  | none => exact fun _ => rfl
  | some y =>
    intro hmem
    have hheld : y.holdsNames = true := hmem
    cases y with
    | stmt s => cases s <;> first | rfl | cases hheld
    | _ => rfl

/-- Before a declaration the scope to which it belongs has declared the names of the declarations
that belong to it and stand before. -/
theorem mem_declaredBefore_iff {x : Piece} {p scope : Path} (h : x.scopeOf p = some scope)
    (name : String) : name ∈ x.declaredBefore p scope ↔
      ∃ d < p, x.DeclaresAt d name ∧ x.scopeOf d = some scope := by
  have hclass := not_isClass_of_scopeOf h
  constructor
  · rintro (⟨d, hless, hname, hscope⟩ | ⟨hin, -⟩)
    · exact ⟨d, hless, hname, head?_scopesAround hname ▸ hscope⟩
    · rw [hclass] at hin
      cases hin
  · rintro ⟨d, hless, hname, hscope⟩
    exact Or.inl ⟨d, hless, hname, (head?_scopesAround hname).trans hscope⟩

/-- A name is declared in the innermost scope of the walk exactly if the innermost scope around the
position has declared it. -/
theorem isDeclared_scopesAt {x z : Piece} {p : Path} (hz : x.at? p = some z) (name : String) :
    isDeclared (scopesAt [] x p) name = true ↔
      ∃ scope, (x.scopesAround p).head? = some scope ∧ name ∈ x.declaredBefore p scope := by
  have hnames := names_scopesAt_nil hz
  cases hopen : scopesAt [] x p with
  | nil =>
    rw [hopen] at hnames
    rw [List.map_eq_nil_iff.mp hnames.symm]
    simp [isDeclared]
  | cons scope outer =>
    rw [hopen] at hnames
    cases haround : x.scopesAround p with
    | nil =>
      rw [haround] at hnames
      cases hnames
    | cons first rest =>
      rw [haround] at hnames
      obtain ⟨hfirst, -⟩ := List.cons.inj hnames
      have hmem : isDeclared (scope :: outer) name = true ↔ name ∈ scope.names := Iff.rfl
      rw [hmem, hfirst]
      simp

/-- Where something is declared, some scope is open in the walk exactly if the declaration belongs to
one. -/
theorem scopesAt_eq_nil_iff {x : Piece} {p : Path} {name : String} (h : x.DeclaresAt p name) :
    scopesAt [] x p = [] ↔ x.scopeOf p = none := by
  obtain ⟨z, hz⟩ := h.exists_at
  rw [← head?_scopesAround h, List.head?_eq_none_iff, ← List.map_eq_nil_iff,
    names_scopesAt_nil hz, List.map_eq_nil_iff]

/-- Of two positions one stands before the other. -/
theorem lt_or_gt_of_ne {p q : Path} (h : p ≠ q) : p < q ∨ q < p := by
  by_cases hless : p < q
  · exact Or.inl hless
  · by_cases hless' : q < p
    · exact Or.inr hless'
    · exact absurd (List.le_antisymm (List.not_lt.mp hless') (List.not_lt.mp hless)) h

/-- No scope declares a name twice exactly if at every declaration the name is not declared yet. -/
theorem declaredOnce_iff (x : Piece) :
    (∀ p q name scope, x.DeclaresAt p name → x.DeclaresAt q name →
      x.scopeOf p = some scope → x.scopeOf q = some scope → p = q) ↔
    ∀ p name, x.DeclaresAt p name → isDeclared (scopesAt [] x p) name = false := by
  constructor
  · intro honce p name hname
    obtain ⟨z, hz⟩ := hname.exists_at
    rw [Bool.eq_false_iff, ne_eq, isDeclared_scopesAt hz, head?_scopesAround hname]
    rintro ⟨scope, hscope, hbefore⟩
    obtain ⟨d, hless, hd, hbelongs⟩ := (mem_declaredBefore_iff hscope name).mp hbefore
    obtain rfl := honce d p name scope hd hname hbelongs hscope
    exact List.lt_irrefl d hless
  · intro hfresh p q name scope hp hq hpscope hqscope
    -- The later of two declarations would find the name declared.
    have hlater : ∀ {p q}, x.DeclaresAt p name → x.DeclaresAt q name → x.scopeOf p = some scope →
        x.scopeOf q = some scope → ¬ p < q := by
      intro p q hp hq hpscope hqscope hless
      obtain ⟨z, hz⟩ := hq.exists_at
      have hdeclared := (isDeclared_scopesAt hz name).mpr ⟨scope,
        (head?_scopesAround hq).trans hqscope,
        (mem_declaredBefore_iff hqscope name).mpr ⟨p, hless, hp, hpscope⟩⟩
      rw [hfresh q name hq] at hdeclared
      cases hdeclared
    by_contra hne
    rcases lt_or_gt_of_ne hne with hless | hless
    · exact hlater hp hq hpscope hqscope hless
    · exact hlater hq hp hqscope hpscope hless

/-- Whether the initial value of every name in some scopes is complete. -/
def Complete (scopes : List Scope) : Prop :=
  ∀ scope ∈ scopes, ∀ name : String, scope.get? name ≠ some false

/-- Where all names are complete none is pending. -/
theorem Complete.isPending {scopes : List Scope} (h : Complete scopes) (name : String) :
    isPending scopes name = false := by
  cases scopes with
  | nil => rfl
  | cons scope outer =>
    exact beq_eq_false_iff_ne.mpr (h scope List.mem_cons_self name)

/-- A scope without incomplete names. -/
theorem Complete.enter {scopes : List Scope} (h : Complete scopes) {scope : Scope}
    (hscope : ∀ name : String, scope.get? name ≠ some false) : Complete (scope :: scopes) :=
  List.forall_mem_cons.mpr ⟨hscope, h⟩

/-- Leaving a scope. -/
theorem Complete.tail {scopes : List Scope} (h : Complete scopes) : Complete scopes.tail :=
  fun scope hscope => h scope (List.mem_of_mem_tail hscope)

/-- Introducing a name completes it. -/
theorem Complete.introduceIn {scopes : List Scope} (h : Complete scopes) (name : Token) :
    Complete (introduceIn name scopes) := by
  cases scopes with
  | nil => exact h
  | cons scope outer =>
    obtain ⟨hscope, houter⟩ := List.forall_mem_cons.mp h
    unfold Binding.introduceIn declareIn
    dsimp only
    split
    · refine List.forall_mem_cons.mpr ⟨fun sought => ?_, houter⟩
      rw [Table.get?_insert]
      split
      · simp
      · exact hscope sought
    · refine List.forall_mem_cons.mpr ⟨fun sought => ?_, houter⟩
      rw [Table.get?_insert, Table.get?_insert]
      split
      · simp
      · exact hscope sought

/-- Only inside the declaration of a variable a name is incomplete. -/
theorem Complete.opened {scopes : List Scope} (h : Complete scopes) {x : Piece}
    (hx : ∀ name initial, x ≠ stmt (.var name initial)) : Complete (x.opened scopes) := by
  have hempty : ∀ name : String, (Table.empty : Scope).get? name ≠ some false := nofun
  have hreceiver : ∀ name : String, receiverScope.get? name ≠ some false := by
    intro name
    rw [receiverScope, Table.get?_insert]
    split <;> simp
  cases x with
  | program body => exact h
  | method routine => exact h.enter hempty
  | parameter name => exact h.introduceIn name
  | expr e => exact h
  | stmt s =>
    cases s with
    | var name initial => exact absurd rfl (hx name initial)
    | block body => exact h.enter hempty
    | function routine => exact (h.introduceIn routine.name).enter hempty
    | classDecl name methods => exact (h.introduceIn name).enter hreceiver
    | _ => exact h

/-- Where all names are complete, a declaration leaves at most its own name pending. -/
theorem Complete.isPending_declareIn {scopes : List Scope} (h : Complete scopes) {token : Token}
    {name : String} (hpending : Binding.isPending (declareIn token scopes) name = true) :
    token.lexeme = name := by
  by_contra hne
  have hsame : Binding.isPending (declareIn token scopes) name = Binding.isPending scopes name := by
    cases scopes with
    | nil => rfl
    | cons scope outer =>
      unfold declareIn
      dsimp only
      split
      · rfl
      · unfold Binding.isPending
        dsimp only
        rw [Table.get?_insert, if_neg hne]
  rw [hsame, h.isPending name] at hpending
  cases hpending

/-- In a scope a declaration leaves its own name pending unless the name was declared before. -/
theorem isPending_declareIn {scopes : List Scope} {token : Token} (hopen : scopes ≠ [])
    (hfresh : isDeclared scopes token.lexeme = false) :
    isPending (declareIn token scopes) token.lexeme = true := by
  cases scopes with
  | nil => exact absurd rfl hopen
  | cons scope outer =>
    have hfresh : scope.contains token.lexeme = false := hfresh
    unfold declareIn
    dsimp only
    rw [hfresh]
    exact beq_iff_eq.mpr (by rw [Table.get?_insert, if_pos rfl])

/-- Behind pieces one after the other all names are complete if they are so behind each of them. -/
theorem Complete.foldl_after {ys : List Piece}
    (hys : ∀ y ∈ ys, ∀ scopes, Complete scopes → Complete (y.after scopes)) {scopes : List Scope}
    (h : Complete scopes) : Complete (ys.foldl Piece.after scopes) := by
  induction ys generalizing scopes with
  | nil => exact h
  | cons y rest ih =>
    obtain ⟨hy, hrest⟩ := List.forall_mem_cons.mp hys
    exact ih hrest (hy scopes h)

/-- Behind a piece all names are complete if they were so before it. -/
theorem Complete.after (x : Piece) : ∀ scopes, Complete scopes → Complete (x.after scopes) := by
  induction x using induct with
  | h x ih =>
    intro scopes h
    by_cases hvar : ∃ name initial, x = stmt (.var name initial)
    · obtain ⟨name, initial, rfl⟩ := hvar
      exact h.introduceIn name
    · have hparts : Complete (x.children.foldl Piece.after (x.opened scopes)) :=
        .foldl_after ih (h.opened fun name initial heq => hvar ⟨name, initial, heq⟩)
      rw [after_eq]
      cases hx : x.isScope with
      | true =>
        rw [closed_of_isScope hx]
        exact hparts.tail
      | false =>
        cases x with
        | stmt s =>
          cases s with
          | var name initial => exact absurd ⟨name, initial, rfl⟩ hvar
          | block body => cases hx
          | function routine => cases hx
          | classDecl name methods => cases hx
          | _ => exact hparts
        | method routine => cases hx
        | _ => exact hparts

/-- Before the parts of a piece all names are complete, unless it declares a variable. -/
theorem Complete.scopesBefore {scopes : List Scope} (h : Complete scopes) {x : Piece}
    (hx : ∀ name initial, x ≠ stmt (.var name initial)) (i : Nat) :
    Complete (x.scopesBefore scopes i) :=
  .foldl_after (fun y _ => .after y) (h.opened hx)

/-- Inside an expression the scopes are those around it. -/
theorem scopesAt_expr {p : Path} : ∀ {e : Expr} {z : Piece}, (expr e).at? p = some z →
    ∀ scopes, scopesAt scopes (expr e) p = scopes := by
  induction p with
  | nil => exact fun _ _ => rfl
  | cons i p ih =>
    intro e z hz scopes
    obtain ⟨y, hy, hz⟩ := at?_cons.mp hz
    obtain ⟨inner, -, rfl⟩ := mem_children_expr.mp (List.mem_of_getElem? hy)
    have hexprs : ∀ y ∈ (expr e).children.take i, ∃ inner, y = expr inner := fun y hmem =>
      let ⟨inner, _, heq⟩ := mem_children_expr.mp (List.mem_of_mem_take hmem)
      ⟨inner, heq⟩
    rw [scopesAt, hy, Option.elim_some, ih hz]
    exact foldl_after_exprs scopes hexprs

/-- In the initial value of a variable the scopes are those behind its declaration. -/
theorem scopesAt_initial {name : Token} {initial : Option Expr} {i : Nat} {p : Path} {z : Piece}
    (hz : (stmt (.var name initial)).at? (i :: p) = some z) (scopes : List Scope) :
    scopesAt scopes (stmt (.var name initial)) (i :: p) = declareIn name scopes := by
  obtain ⟨y, hy, hz⟩ := at?_cons.mp hz
  have hexprs : ∀ y ∈ (stmt (.var name initial)).children, ∃ e, y = expr e := fun y hmem =>
    let ⟨e, _, heq⟩ := List.mem_map.mp hmem
    ⟨e, heq.symm⟩
  obtain ⟨e, rfl⟩ := hexprs y (List.mem_of_getElem? hy)
  rw [scopesAt, hy, Option.elim_some, scopesAt_expr hz]
  exact foldl_after_exprs _ fun y hmem => hexprs y (List.mem_of_mem_take hmem)

/-- The scopes at a position inside another one. -/
theorem scopesAt_append {p : Path} : ∀ {x y : Piece}, x.at? p = some y → ∀ q scopes,
    scopesAt scopes x (p ++ q) = scopesAt (scopesAt scopes x p) y q := by
  induction p with
  | nil =>
    intro x y hy q scopes
    cases hy
    rfl
  | cons i p ih =>
    intro x z hz q scopes
    obtain ⟨y, hy, hz⟩ := at?_cons.mp hz
    rw [List.cons_append, scopesAt, scopesAt, hy]
    exact ih hz q _

/-- A name that is pending is that of a variable whose initial value the position is in. -/
theorem exists_initial_of_isPending {p : Path} : ∀ {x z : Piece} {scopes : List Scope}
    {name : String}, x.at? p = some z → (∀ e, x ≠ expr e) → Complete scopes →
    isPending (scopesAt scopes x p) name = true →
    ∃ q r token initial, p = q ++ r ∧ x.at? q = some (stmt (.var token initial)) ∧
      scopesAt scopes x q ≠ [] ∧ token.lexeme = name := by
  induction p with
  | nil =>
    intro x z scopes name _ _ hcomplete hpending
    rw [scopesAt, hcomplete.isPending name] at hpending
    cases hpending
  | cons i p ih =>
    intro x z scopes name hz hx hcomplete hpending
    by_cases hvar : ∃ token initial, x = stmt (.var token initial)
    · obtain ⟨token, initial, rfl⟩ := hvar
      rw [scopesAt_initial hz] at hpending
      refine ⟨[], i :: p, token, initial, rfl, rfl, ?_, ?_⟩
      · rintro rfl
        cases hpending
      · exact hcomplete.isPending_declareIn hpending
    · obtain ⟨y, hy, hz⟩ := at?_cons.mp hz
      have hbefore : Complete (x.scopesBefore scopes i) :=
        hcomplete.scopesBefore (fun token initial heq => hvar ⟨token, initial, heq⟩) i
      have hstep : ∀ q, scopesAt scopes x (i :: q) = scopesAt (x.scopesBefore scopes i) y q := by
        intro q
        rw [scopesAt, hy]
        rfl
      rw [hstep] at hpending
      by_cases hexpr : ∃ e, y = expr e
      · obtain ⟨e, rfl⟩ := hexpr
        rw [scopesAt_expr hz, hbefore.isPending name] at hpending
        cases hpending
      · obtain ⟨q, r, token, initial, rfl, hq, hopen, hname⟩ :=
          ih hz (fun e heq => hexpr ⟨e, heq⟩) hbefore hpending
        exact ⟨i :: q, r, token, initial, rfl, at?_cons.mpr ⟨y, hy, hq⟩, hstep q ▸ hopen, hname⟩

/-- Where no scope declares a name twice, no variable is read in its own initial value exactly if no
name is pending where it is read. -/
theorem initials_iff {x : Piece} (hx : ∀ e, x ≠ expr e)
    (hfresh : ∀ p name, x.DeclaresAt p name → isDeclared (scopesAt [] x p) name = false) :
    (∀ p q name initial id token, x.at? p = some (stmt (.var name initial)) → x.scopeOf p ≠ none →
      x.at? (p ++ q) = some (expr (.var id token)) → token.lexeme ≠ name.lexeme) ↔
    ∀ p id token, x.at? p = some (expr (.var id token)) →
      isPending (scopesAt [] x p) token.lexeme = false := by
  constructor
  · intro hinitials p id token hread
    rw [Bool.eq_false_iff]
    intro hpending
    have hnone : Complete [] := fun _ h => absurd h List.not_mem_nil
    obtain ⟨q, r, name, initial, rfl, hvar, hopen, hname⟩ :=
      exists_initial_of_isPending hread hx hnone hpending
    have hdeclares : x.DeclaresAt q name.lexeme := ⟨_, name, hvar, rfl, rfl⟩
    have hscope := mt (scopesAt_eq_nil_iff hdeclares).mpr hopen
    exact hinitials q r name initial id token hvar hscope hread hname.symm
  · intro hreads p q name initial id token hvar hscope hread hsame
    have hdeclares : x.DeclaresAt p name.lexeme := ⟨_, name, hvar, rfl, rfl⟩
    have hopen := mt (scopesAt_eq_nil_iff hdeclares).mp hscope
    have hinside : (stmt (.var name initial)).at? q = some (expr (.var id token)) := by
      rw [at?_append, hvar, Option.bind_some] at hread
      exact hread
    have hpending := isPending_declareIn hopen (hfresh p name.lexeme hdeclares)
    cases q with
    | nil => cases hinside
    | cons i q =>
      have hnot := hreads (p ++ i :: q) id token hread
      rw [scopesAt_append hvar, scopesAt_initial hinside, hsame, hpending] at hnot
      cases hnot

/-- What is asked of a piece by itself, rule by rule. -/
theorem allowed_iff (ctx : Context) (scopes : List Scope) (x : Piece) : x.Allowed ctx scopes ↔
    (∀ keyword value, x = stmt (.ret keyword value) → ctx.inRoutine = true) ∧
    (∀ id keyword, x = expr (.receiver id keyword) → ctx.inClass = true) ∧
    (∀ id name, x = expr (.var id name) → isPending scopes name.lexeme = false) ∧
    ∀ name, x.declared? = some name → isDeclared scopes name.lexeme = false := by
  cases x with
  | stmt s => cases s <;> simp [Allowed, declared?, Stmt.declared?]
  | expr e => cases e <;> simp [Allowed, declared?]
  | _ => simp [Allowed]

/-- A whole that is no expression obeys the rules of the walk exactly if it is lawful. -/
theorem obeys_iff_lawful {x : Piece} (hx : ∀ e, x ≠ expr e) : x.Obeys {} [] ↔ x.Lawful := by
  have hroutine : ∀ {p z}, x.at? p = some z →
      ((contextAt {} x p).inRoutine = true ↔ x.around isRoutine p ≠ []) := fun hz =>
    (contextAt_spec hz {}).1.trans (or_iff_left Bool.false_ne_true)
  have hclass : ∀ {p z}, x.at? p = some z →
      ((contextAt {} x p).inClass = true ↔ x.around isClass p ≠ []) := fun hz =>
    (contextAt_spec hz {}).2.trans (or_iff_left Bool.false_ne_true)
  constructor
  · intro h
    have hallowed := fun p z hz => (allowed_iff _ _ z).mp (h p z hz)
    have hfresh : ∀ p name, x.DeclaresAt p name → isDeclared (scopesAt [] x p) name = false := by
      rintro p name ⟨z, token, hz, htoken, rfl⟩
      exact (hallowed p z hz).2.2.2 token htoken
    exact
      { returns := fun p keyword value hz =>
          (hroutine hz).mp ((hallowed p _ hz).1 keyword value rfl)
        receivers := fun p id keyword hz =>
          (hclass hz).mp ((hallowed p _ hz).2.1 id keyword rfl)
        declaredOnce := (declaredOnce_iff x).mpr hfresh
        initials := (initials_iff hx hfresh).mpr fun p id token hz =>
          (hallowed p _ hz).2.2.1 id token rfl }
  · intro h p z hz
    have hfresh := (declaredOnce_iff x).mp h.declaredOnce
    have hreads := (initials_iff hx hfresh).mp h.initials
    refine (allowed_iff _ _ z).mpr ⟨?_, ?_, ?_, ?_⟩
    · rintro keyword value rfl
      exact (hroutine hz).mpr (h.returns p keyword value hz)
    · rintro id keyword rfl
      exact (hclass hz).mpr (h.receivers p id keyword hz)
    · rintro id name rfl
      exact hreads p id name hz
    · exact fun name hname => hfresh p name.lexeme ⟨z, name, hz, hname, rfl⟩

end Piece

namespace Binding

/-- Binding a program finds no violation exactly if every `return` is in a routine and every mention
of the receiver in a class, no scope declares a name twice, and no variable in a scope is read in
its own initial value. -/
theorem bindProgram_clean_iff_lawful (program : Program) :
    (bindProgram program).errors = [] ↔ (Piece.program program).Lawful := by
  have hwalk : (bindProgram program).errors = [] ↔
      ({} : Walk).errors = [] ∧ (Piece.program program).Obeys {} [] :=
    (Piece.program program).walk_errors {} {}
  rw [hwalk, and_iff_right rfl]
  exact Piece.obeys_iff_lawful nofun

end Binding

end Scriptlet
