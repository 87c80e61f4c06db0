import Scriptlet.Grammar.Cursor

/-!
# Rules for what a reader has read

A reader obeys a meaning when, after every run that notes no violation, the
tokens it passed and its value have that meaning. The same judgement bounds the
fuel: a reader runs dry only before at least as many unread tokens as it has
fuel, and each value costs it a least number of tokens. There is one rule for
each primitive, so that the meaning of a composed reader is a goal about the
tokens that its parts pass, in order.
-/

namespace Scriptlet.Grammar

variable {α β : Type}

/-- A reader goes on with the value of the one before it. -/
theorem bind_of_ok {first : Reader β} {next : β → Reader α} {c after : Cursor} {b : β}
    (h : first c = .ok b after) : (first >>= next) c = next b after := by
  change EStateM.bind first next c = next b after
  unfold EStateM.bind
  rw [h]

/-- A reader that gives no value, and one that would go on from a value. -/
theorem bind_of_error {first : Reader β} {next : β → Reader α} {c after : Cursor} {halt : Halt}
    (h : first c = .error halt after) : (first >>= next) c = .error halt after := by
  change EStateM.bind first next c = .error halt after
  unfold EStateM.bind
  rw [h]

/-- Looking at the next token tells its kind and moves nothing. -/
theorem nextIs_eq (kind : Kind) (c : Cursor) :
    nextIs kind c = .ok (c.rest.head?.any fun t => t.kind == kind) c := by
  unfold nextIs
  cases c.rest <;> rfl

/-- Looking whether tokens are left moves nothing. -/
theorem atEnd_eq (c : Cursor) : atEnd c = .ok c.rest.isEmpty c := rfl

/-- From the first cursor to the second, these tokens were passed and these
violations noted. -/
structure Cursor.Passes (c : Cursor) (used : List Token) (found : List SyntaxError)
    (after : Cursor) : Prop where
  /-- The passed tokens come first among the unread ones. -/
  rest : c.rest = used ++ after.rest
  /-- The end token stays. -/
  stop : after.stop = c.stop
  /-- Noted violations stay, new ones follow. -/
  errors : after.errors = c.errors ++ found
  /-- The numbers of expressions go upward. -/
  numbers : c.nextId ≤ after.nextId

/-- Where nothing is read, nothing is passed. -/
theorem Cursor.Passes.refl (c : Cursor) : c.Passes [] [] c :=
  ⟨rfl, rfl, (List.append_nil _).symm, Nat.le_refl _⟩

/-- Passing first some tokens and then others passes them all. -/
theorem Cursor.Passes.trans {a b c : Cursor} {used more : List Token}
    {found later : List SyntaxError} (h : a.Passes used found b) (h' : b.Passes more later c) :
    a.Passes (used ++ more) (found ++ later) c where
  rest := by rw [h.rest, h'.rest, List.append_assoc]
  stop := by rw [h'.stop, h.stop]
  errors := by rw [h'.errors, h.errors, List.append_assoc]
  numbers := Nat.le_trans h.numbers h'.numbers

/-- What tokens mean: the number before them, the tokens, those behind them, the
value and the number after it. -/
abbrev Meaning (α : Type) := Nat → List Token → List Token → α → Nat → Prop

/-- What a result has to be: a value in accordance with the meaning, a violation
further on, or no value for lack of fuel. -/
def Yields (fuel least : Nat) (means : Meaning α) (c : Cursor) :
    EStateM.Result Halt Cursor α → Prop
  | .ok v after => ∃ used found, c.Passes used found after ∧ least ≤ used.length ∧
      (found = [] → means c.nextId used after.rest v after.nextId)
  | .error (.failed _) after => ∃ used found, c.Passes used found after
  | .error .exhausted _ => fuel ≤ c.rest.length

/-- A result may be claimed to be less; the tokens passed are those of the cursor. -/
theorem Yields.mono {fuel fuel' least least' : Nat} {means weaker : Meaning α} {c : Cursor}
    {result : EStateM.Result Halt Cursor α} (h : Yields fuel least means c result)
    (hfuel : fuel' ≤ fuel) (hleast : least' ≤ least)
    (hmeans : ∀ used rest v m, c.rest = used ++ rest →
      means c.nextId used rest v m → weaker c.nextId used rest v m) :
    Yields fuel' least' weaker c result := by
  cases result with
  | ok v after =>
    obtain ⟨used, found, passes, hused, hv⟩ := h
    exact ⟨used, found, passes, Nat.le_trans hleast hused,
      fun clean => hmeans _ _ _ _ passes.rest (hv clean)⟩
  | error halt after =>
    cases halt with
    | failed e => exact h
    | exhausted => exact Nat.le_trans hfuel h

/-- A result behind further tokens, seen from before them. -/
theorem Yields.after {fuel least : Nat} {means : Meaning α} {c middle : Cursor}
    {used : List Token} {found : List SyntaxError} {result : EStateM.Result Halt Cursor α}
    (passes : c.Passes used found middle)
    (h : Yields (fuel - used.length) (least - used.length)
      (fun _ more rest v k => found = [] → means c.nextId (used ++ more) rest v k) middle result) :
    Yields fuel least means c result := by
  have hrest := congrArg List.length passes.rest
  rw [List.length_append] at hrest
  cases result with
  | ok v after =>
    obtain ⟨more, later, passes', hmore, hv⟩ := h
    refine ⟨used ++ more, found ++ later, passes.trans passes', ?_, ?_⟩
    · rw [List.length_append]
      omega
    · intro clean
      obtain ⟨hfound, hlater⟩ := List.append_eq_nil_iff.mp clean
      exact hv hlater hfound
  | error halt after =>
    cases halt with
    | failed e =>
      obtain ⟨more, later, passes'⟩ := h
      exact ⟨used ++ more, found ++ later, passes.trans passes'⟩
    | exhausted =>
      change fuel - used.length ≤ middle.rest.length at h
      change fuel ≤ c.rest.length
      omega

/-- From every cursor a reader gives what the meaning holds, passing at least so
many tokens, and runs dry only before at least `fuel` tokens. -/
def Obeys (fuel least : Nat) (reader : Reader α) (means : Meaning α) : Prop :=
  ∀ c, Yields fuel least means c (reader c)

/-- A result, and a reader that goes on from it. -/
theorem Yields.bind {fuel fuel' least least' : Nat} {means : Meaning α} {between : Meaning β}
    {first : Reader β} {next : β → Reader α} {c : Cursor}
    (h : Yields fuel' least' between c (first c)) (hfuel : fuel ≤ fuel')
    (hnext : ∀ b, Obeys (fuel - least') (least - least') (next b)
      fun m more rest v k => ∀ n used, between n used (more ++ rest) b m →
        means n (used ++ more) rest v k) :
    Yields fuel least means c ((first >>= next) c) := by
  change Yields _ _ _ c (EStateM.bind first next c)
  unfold EStateM.bind
  revert h
  cases first c with
  | error halt after =>
    cases halt with
    | failed e => exact id
    | exhausted => exact fun hdry => Nat.le_trans hfuel hdry
  | ok b middle =>
    rintro ⟨used, found, passes, hused, hb⟩
    refine Yields.after passes ((hnext b middle).mono (by omega) (by omega) ?_)
    intro more rest v m hrest hv hfound
    exact hv c.nextId used (hrest ▸ hb hfound)

namespace Obeys

variable {fuel fuel' least least' : Nat} {means : Meaning α}

/-- A weaker meaning, a lower bound on tokens and less fuel may be claimed instead. -/
theorem mono {weaker : Meaning α} {reader : Reader α} (h : Obeys fuel least reader means)
    (hfuel : fuel' ≤ fuel) (hleast : least' ≤ least)
    (hmeans : ∀ n used rest v m, means n used rest v m → weaker n used rest v m) :
    Obeys fuel' least' reader weaker :=
  fun c => (h c).mono hfuel hleast fun used rest v m _ => hmeans c.nextId used rest v m

/-- One reader after another: the second begins behind the tokens of the first,
with as much less to pass and as much less fuel to account for. -/
theorem bind {first : Reader β} {next : β → Reader α} {between : Meaning β}
    (h : Obeys fuel' least' first between) (hfuel : fuel ≤ fuel')
    (hnext : ∀ b, Obeys (fuel - least') (least - least') (next b)
      fun m more rest v k => ∀ n used, between n used (more ++ rest) b m →
        means n (used ++ more) rest v k) :
    Obeys fuel least (first >>= next) means :=
  fun c => (h c).bind hfuel hnext

/-- A value given without reading. -/
theorem pure {v : α} (h : ∀ n rest, means n [] rest v n) :
    Obeys fuel 0 (Pure.pure v : Reader α) means :=
  fun c => ⟨[], [], Cursor.Passes.refl c, Nat.le_refl 0, fun _ => h _ _⟩

/-- Giving up for lack of fuel. -/
theorem exhausted : Obeys 0 least (exhausted : Reader α) means := fun _ => Nat.zero_le _

/-- Giving up at a violation. -/
theorem missing {what : Expectation} : Obeys fuel least (missing what : Reader α) means :=
  fun c => ⟨[], [], Cursor.Passes.refl c⟩

/-- A primitive that reads nothing, and what follows it. -/
theorem quiet {first : Reader β} {next : β → Reader α} (holds : Nat → List Token → β → Nat → Prop)
    (h : ∀ c, ∃ b after, first c = .ok b after ∧ c.Passes [] [] after ∧
      holds c.nextId c.rest b after.nextId)
    (hnext : ∀ b, Obeys fuel least (next b)
      fun m more rest v k => ∀ n, holds n (more ++ rest) b m → means n more rest v k) :
    Obeys fuel least (first >>= next) means := by
  have hfirst : Obeys fuel 0 first fun n used rest b m => used = [] ∧ holds n rest b m := by
    intro c
    obtain ⟨b, after, hb, passes, hsays⟩ := h c
    rw [hb]
    refine ⟨[], [], passes, Nat.le_refl 0, fun _ => ⟨rfl, ?_⟩⟩
    rwa [passes.rest] at hsays
  refine hfirst.bind (Nat.le_refl _) fun b => (hnext b).mono (Nat.sub_le _ _) (Nat.sub_le _ _) ?_
  rintro m more rest v k hv n used ⟨rfl, hsays⟩
  exact hv n hsays

/-- Completing an expression. -/
theorem node {make : Nat → Expr} {next : Expr → Reader α}
    (h : ∀ e, Obeys fuel least (next e)
      fun m more rest v k => ∀ n, e = make n ∧ m = n + 1 → means n more rest v k) :
    Obeys fuel least (Grammar.node make >>= next) means :=
  quiet (fun n _ e m => e = make n ∧ m = n + 1)
    (fun _ => ⟨_, _, rfl, ⟨rfl, rfl, (List.append_nil _).symm, Nat.le_succ _⟩, rfl, rfl⟩) h

/-- Completing an expression last. -/
theorem nodeLast {make : Nat → Expr} {means : Meaning Expr}
    (h : ∀ n rest, means n [] rest (make n) (n + 1)) : Obeys fuel 0 (Grammar.node make) means :=
  fun _ => ⟨[], [], ⟨rfl, rfl, (List.append_nil _).symm, Nat.le_succ _⟩, Nat.le_refl 0,
    fun _ => h _ _⟩

/-- Looking at the next token. -/
theorem nextIs {kind : Kind} {next : Bool → Reader α}
    (h : ∀ b, Obeys fuel least (next b)
      fun m more rest v k => (b = true ↔ ∃ t ∈ (more ++ rest).head?, t.kind = kind) →
        means m more rest v k) :
    Obeys fuel least (Grammar.nextIs kind >>= next) means := by
  refine quiet (fun n rest b m => m = n ∧ (b = true ↔ ∃ t ∈ rest.head?, t.kind = kind))
    ?_ ?_
  · intro c
    refine ⟨_, _, nextIs_eq kind c, Cursor.Passes.refl c, rfl, ?_⟩
    rw [Option.any_eq_true]
    exact exists_congr fun t => and_congr_right fun _ => beq_iff_eq
  · intro b
    refine (h b).mono (Nat.le_refl _) (Nat.le_refl _) ?_
    rintro m more rest v k hv n ⟨rfl, hb⟩
    exact hv hb

/-- Looking whether tokens are left. -/
theorem atEnd {next : Bool → Reader α}
    (h : ∀ b, Obeys fuel least (next b)
      fun m more rest v k => (b = true ↔ more ++ rest = []) → means m more rest v k) :
    Obeys fuel least (Grammar.atEnd >>= next) means := by
  refine quiet (fun n rest b m => m = n ∧ (b = true ↔ rest = [])) ?_ ?_
  · exact fun c => ⟨_, _, rfl, Cursor.Passes.refl c, rfl, List.isEmpty_iff⟩
  · intro b
    refine (h b).mono (Nat.le_refl _) (Nat.le_refl _) ?_
    rintro m more rest v k hv n ⟨rfl, hb⟩
    exact hv hb

/-- A noted violation takes away every meaning. -/
theorem noted {first : Reader Unit} {next : Unit → Reader α} {fault : SyntaxFault}
    (h : ∀ c, ∃ place, first c = .ok () (c.note ⟨place, fault⟩))
    (hnext : Obeys fuel least (next ()) fun _ _ _ _ _ => True) :
    Obeys fuel least (first >>= next) means := by
  have hfirst : Obeys fuel 0 first fun _ _ _ _ _ => False := by
    intro c
    obtain ⟨place, hc⟩ := h c
    rw [hc]
    exact ⟨[], [⟨place, fault⟩], ⟨rfl, rfl, rfl, Nat.le_refl _⟩, Nat.le_refl 0,
      fun clean => by cases clean⟩
  exact hfirst.bind (Nat.le_refl _) fun _ => hnext.mono (Nat.sub_le _ _) (Nat.sub_le _ _)
    fun _ _ _ _ _ _ _ _ impossible => impossible.elim

/-- Reading the next token where a function has a value for it. -/
theorem acceptMap {f : Token → Option β} {next : Option β → Reader α}
    (hsome : ∀ b, Obeys (fuel - 1) (least - 1) (next (some b))
      fun m more rest v k => ∀ t, f t = some b → means m (t :: more) rest v k)
    (hnone : Obeys fuel least (next none)
      fun m more rest v k => (∀ t ∈ (more ++ rest).head?, f t = none) → means m more rest v k) :
    Obeys fuel least (acceptMap? f >>= next) means := by
  intro c
  change Yields _ _ _ c (EStateM.bind (acceptMap? f) next c)
  unfold EStateM.bind acceptMap?
  cases hrest : c.rest with
  | nil =>
    refine (hnone c).mono (Nat.le_refl _) (Nat.le_refl _) fun used rest v _ hr hv => hv ?_
    rw [← hr, hrest]
    exact fun t ht => by cases ht
  | cons t rest =>
    cases hf : f t with
    | none =>
      simp only [hf]
      refine (hnone c).mono (Nat.le_refl _) (Nat.le_refl _) fun used rest v _ hr hv => hv ?_
      rw [← hr, hrest]
      rintro t' ⟨⟩
      exact hf
    | some b =>
      simp only [hf]
      have passes : c.Passes [t] [] { c with rest } :=
        ⟨hrest, rfl, (List.append_nil _).symm, Nat.le_refl _⟩
      refine Yields.after passes ((hsome b _).mono (Nat.le_refl _) (Nat.le_refl _) ?_)
      exact fun _ _ _ _ _ hv _ => hv t hf

/-- Reading the next token if it is of one of several kinds. -/
theorem acceptAny {kinds : List Kind} {next : Option Token → Reader α}
    (hsome : ∀ t, Obeys (fuel - 1) (least - 1) (next (some t))
      fun m more rest v k => t.kind ∈ kinds → means m (t :: more) rest v k)
    (hnone : Obeys fuel least (next none)
      fun m more rest v k => (∀ t ∈ (more ++ rest).head?, t.kind ∉ kinds) →
        means m more rest v k) :
    Obeys fuel least (acceptAny? kinds >>= next) means := by
  refine acceptMap ?_ ?_
  · intro t
    refine (hsome t).mono (Nat.le_refl _) (Nat.le_refl _) fun m more rest v k hv t' ht' => ?_
    split at ht'
    · cases ht'
      exact hv ‹_›
    · cases ht'
  · refine hnone.mono (Nat.le_refl _) (Nat.le_refl _) fun m more rest v k hv hhead => hv ?_
    intro t ht hmem
    have := hhead t ht
    rw [if_pos hmem] at this
    cases this

/-- Reading the next token if it is of a kind. -/
theorem accept {kind : Kind} {next : Option Token → Reader α}
    (hsome : ∀ t, Obeys (fuel - 1) (least - 1) (next (some t))
      fun m more rest v k => t.kind = kind → means m (t :: more) rest v k)
    (hnone : Obeys fuel least (next none)
      fun m more rest v k => (∀ t ∈ (more ++ rest).head?, t.kind ≠ kind) →
        means m more rest v k) :
    Obeys fuel least (accept? kind >>= next) means := by
  refine acceptAny ?_ ?_
  · intro t
    refine (hsome t).mono (Nat.le_refl _) (Nat.le_refl _) fun m more rest v k hv ht => hv ?_
    exact List.mem_singleton.mp ht
  · refine hnone.mono (Nat.le_refl _) (Nat.le_refl _) fun m more rest v k hv hhead => hv ?_
    exact fun t ht heq => hhead t ht (List.mem_singleton.mpr heq)

/-- Reading a required token. -/
theorem expect {kind : Kind} {what : Expectation} {next : Token → Reader α}
    (h : ∀ t, Obeys (fuel - 1) (least - 1) (next t)
      fun m more rest v k => t.kind = kind → means m (t :: more) rest v k) :
    Obeys fuel least (Grammar.expect kind what >>= next) means := by
  have hfirst : Obeys fuel 1 (Grammar.expect kind what)
      fun n used _ t m => used = [t] ∧ t.kind = kind ∧ m = n := by
    refine accept (fun t => pure ?_) missing
    exact fun n rest ht => ⟨rfl, ht, rfl⟩
  refine hfirst.bind (Nat.le_refl _) fun t => (h t).mono (Nat.le_refl _) (Nat.le_refl _) ?_
  rintro m more rest v k hv n used ⟨rfl, ht, rfl⟩
  exact hv ht

end Obeys

end Scriptlet.Grammar
