import Scriptlet.Proofs.Grammar.Obeys

/-!
# Rules for what a reader accepts

From every cursor before some tokens a reader passes them, notes nothing and
goes on as another reader would behind them; when that other reader just gives
a value, the first one accepts the tokens. As for the meaning of what was read
there is one rule for each primitive.
-/

namespace Scriptlet.Grammar

variable {α β : Type}

/-- Before `ts` followed by `rest`, the reader passes `ts`, notes nothing and goes
on as `after` does. -/
def Continues (reader after : Reader α) (n : Nat) (ts rest : List Token) (m : Nat) : Prop :=
  ∀ stop errors, reader ⟨ts ++ rest, stop, n, errors⟩ = after ⟨rest, stop, m, errors⟩

/-- Before `ts` followed by `rest`, the reader passes `ts`, notes nothing and gives `v`. -/
abbrev Accepts (reader : Reader α) (n : Nat) (ts rest : List Token) (v : α) (m : Nat) : Prop :=
  Continues reader (pure v) n ts rest m

/-- The next token, if there is one, is of none of these kinds. -/
def Stops (kinds : List Kind) (ts : List Token) : Prop := ∀ t ∈ ts.head?, t.kind ∉ kinds

/-- Nothing follows the end. -/
theorem Stops.nil (kinds : List Kind) : Stops kinds [] := fun t ht => by cases ht

/-- A token of another kind follows. -/
theorem Stops.cons {kinds : List Kind} {t : Token} {ts : List Token} (h : t.kind ∉ kinds) :
    Stops kinds (t :: ts) := by
  rintro t' ⟨⟩
  exact h

/-- Fewer kinds are excluded as well. -/
theorem Stops.mono {kinds fewer : List Kind} {ts : List Token} (h : Stops kinds ts)
    (sub : ∀ k ∈ fewer, k ∈ kinds) : Stops fewer ts := fun t ht hk => h t ht (sub _ hk)

namespace Continues

variable {n m k : Nat} {ts us rest : List Token} {after : Reader α}

/-- A reader behind no tokens is itself. -/
theorem refl (reader : Reader α) : Continues reader reader n [] rest n := fun _ _ => rfl

/-- Going on twice. -/
theorem trans {first second : Reader α} (h : Continues first second n ts (us ++ rest) k)
    (h' : Continues second after k us rest m) : Continues first after n (ts ++ us) rest m := by
  intro stop errors
  rw [List.append_assoc, h stop errors]
  exact h' stop errors

/-- One reader after another. -/
theorem bind {first : Reader β} {next : β → Reader α} {b : β}
    (h : Accepts first n ts (us ++ rest) b k) (hnext : Continues (next b) after k us rest m) :
    Continues (first >>= next) after n (ts ++ us) rest m := by
  intro stop errors
  rw [List.append_assoc, bind_of_ok (h stop errors)]
  exact hnext stop errors

/-- Going on twice, the second time behind no more tokens. -/
theorem transLast {first second : Reader α} (h : Continues first second n ts rest k)
    (h' : Continues second after k [] rest m) : Continues first after n ts rest m := by
  intro stop errors
  rw [h stop errors]
  exact h' stop errors

/-- One reader after another, the first before no tokens. -/
theorem bindFirst {first : Reader β} {next : β → Reader α} {b : β}
    (h : Accepts first n [] (us ++ rest) b k) (hnext : Continues (next b) after k us rest m) :
    Continues (first >>= next) after n us rest m :=
  bind h hnext

/-- One reader after another, the second behind no more tokens. -/
theorem bindLast {first : Reader β} {next : β → Reader α} {b : β}
    (h : Accepts first n ts rest b k) (hnext : Continues (next b) after k [] rest m) :
    Continues (first >>= next) after n ts rest m := by
  intro stop errors
  rw [bind_of_ok (h stop errors)]
  exact hnext stop errors

/-- A function of what a reader gives. -/
theorem map {f : β → α} {first : Reader β} {b : β} (h : Accepts first n ts rest b m) :
    Accepts (f <$> first) n ts rest (f b) m := by
  rw [map_eq_pure_bind]
  exact bindLast h (refl _)

/-- Completing an expression. -/
theorem node {make : Nat → Expr} {next : Expr → Reader α}
    (h : Continues (next (make n)) after (n + 1) us rest m) :
    Continues (Grammar.node make >>= next) after n us rest m := h

/-- Completing an expression last. -/
theorem nodeLast (make : Nat → Expr) : Accepts (Grammar.node make) n [] rest (make n) (n + 1) :=
  fun _ _ => rfl

/-- Reading a token that has a value. -/
theorem acceptMap {f : Token → Option β} {next : Option β → Reader α} {t : Token} {b : β}
    (ht : f t = some b) (h : Continues (next (some b)) after n us rest m) :
    Continues (acceptMap? f >>= next) after n (t :: us) rest m := by
  intro stop errors
  have hfirst : acceptMap? f ⟨t :: us ++ rest, stop, n, errors⟩ =
      .ok (some b) ⟨us ++ rest, stop, n, errors⟩ := by
    simp only [acceptMap?, List.cons_append, ht]
  rw [bind_of_ok hfirst]
  exact h stop errors

/-- Leaving a token that has no value. -/
theorem skipMap {f : Token → Option β} {next : Option β → Reader α}
    (ht : ∀ t ∈ (us ++ rest).head?, f t = none) (h : Continues (next none) after n us rest m) :
    Continues (acceptMap? f >>= next) after n us rest m := by
  intro stop errors
  have hfirst : acceptMap? f ⟨us ++ rest, stop, n, errors⟩ =
      .ok none ⟨us ++ rest, stop, n, errors⟩ := by
    unfold acceptMap?
    revert ht
    cases us ++ rest with
    | nil => exact fun _ => rfl
    | cons t ts =>
      intro ht
      simp only [ht t rfl]
  rw [bind_of_ok hfirst]
  exact h stop errors

/-- Reading a token of one of several kinds. -/
theorem acceptAny {kinds : List Kind} {next : Option Token → Reader α} {t : Token}
    (ht : t.kind ∈ kinds) (h : Continues (next (some t)) after n us rest m) :
    Continues (acceptAny? kinds >>= next) after n (t :: us) rest m :=
  acceptMap (if_pos ht) h

/-- Leaving a token of another kind. -/
theorem skipAny {kinds : List Kind} {next : Option Token → Reader α}
    (ht : Stops kinds (us ++ rest)) (h : Continues (next none) after n us rest m) :
    Continues (acceptAny? kinds >>= next) after n us rest m :=
  skipMap (fun t hmem => if_neg (ht t hmem)) h

/-- Reading a token of a kind. -/
theorem accept {kind : Kind} {next : Option Token → Reader α} {t : Token} (ht : t.kind = kind)
    (h : Continues (next (some t)) after n us rest m) :
    Continues (accept? kind >>= next) after n (t :: us) rest m :=
  acceptAny (List.mem_singleton.mpr ht) h

/-- Leaving a token of another kind. -/
theorem skip {kind : Kind} {next : Option Token → Reader α} (ht : Stops [kind] (us ++ rest))
    (h : Continues (next none) after n us rest m) :
    Continues (accept? kind >>= next) after n us rest m :=
  skipAny ht h

/-- Reading a required token. -/
theorem expect {kind : Kind} {what : Expectation} {next : Token → Reader α} {t : Token}
    (ht : t.kind = kind) (h : Continues (next t) after n us rest m) :
    Continues (Grammar.expect kind what >>= next) after n (t :: us) rest m := by
  have hfirst : Accepts (Grammar.expect kind what) n [t] (us ++ rest) t n :=
    accept ht (refl (pure t))
  exact bind hfirst h

/-- Looking at the next token. -/
theorem nextIs {kind : Kind} {next : Bool → Reader α} {b : Bool}
    (hb : ((us ++ rest).head?.any fun t => t.kind == kind) = b)
    (h : Continues (next b) after n us rest m) :
    Continues (Grammar.nextIs kind >>= next) after n us rest m := by
  intro stop errors
  rw [bind_of_ok (nextIs_eq kind _)]
  dsimp only
  rw [hb]
  exact h stop errors

/-- Looking whether tokens are left. -/
theorem atEnd {next : Bool → Reader α} {b : Bool} (hb : (us ++ rest).isEmpty = b)
    (h : Continues (next b) after n us rest m) :
    Continues (Grammar.atEnd >>= next) after n us rest m := by
  intro stop errors
  rw [bind_of_ok (atEnd_eq _)]
  dsimp only
  rw [hb]
  exact h stop errors

end Continues

/-- A required token that is not there. -/
theorem expect_of_stops {kind : Kind} (what : Expectation) {c : Cursor} (h : Stops [kind] c.rest) :
    expect kind what c = .error (.failed ⟨c.here, .missing what⟩) c := by
  have hskip : Continues (expect kind what) (missing what) c.nextId [] c.rest c.nextId :=
    .skip h (.refl _)
  exact hskip c.stop c.errors

end Scriptlet.Grammar
