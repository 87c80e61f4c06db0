import Scriptlet.Proofs.Grammar.CompleteExpr
import Scriptlet.Proofs.Grammar.Looks

/-!
# What was read can be read on

A reader that gives up at a token has passed tokens that begin a text it can read, and
where it gives a value, it gives it before anything that may follow. This is what makes
the tokens before a violation a beginning of some program. The judgement takes along a
shortest text for each reader, for the parts that were not begun yet, and what may
follow a text. The fuel counts as it does for the meaning of what was read: a reader can
go on with fewer tokens passed than it has fuel.
-/

namespace Scriptlet.Grammar

variable {α β : Type}

/-- A token of a kind, spelled as in a source; names are spelled `x`. -/
def sample (kind : Kind) : Token := ⟨kind, spelling, none, 1⟩
where
  /-- The spelling of the kinds that stand in shortest texts. -/
  spelling : String :=
    match kind with
    | .leftParen => "("
    | .rightParen => ")"
    | .leftBrace => "\x7b"
    | .rightBrace => "\x7d"
    | .semicolon => ";"
    | .kwNil => "nil"
    | _ => "x"

/-- The next token is of this kind. -/
def Closes (kind : Kind) (ts : List Token) : Prop := ∃ t ∈ ts.head?, t.kind = kind

/-- A token of this kind comes first. -/
theorem Closes.cons {kind : Kind} {t : Token} (ts : List Token) (h : t.kind = kind) :
    Closes kind (t :: ts) := ⟨t, rfl, h⟩

/-- A token of this kind is none of the others. -/
theorem Closes.stops {kind : Kind} {kinds : List Kind} {ts : List Token} (h : Closes kind ts)
    (hkind : kind ∉ kinds) : Stops kinds ts := by
  obtain ⟨t, ht, rfl⟩ := h
  intro t' ht'
  cases ht.symm.trans ht'
  exact hkind

/-- Looking at the next token finds this kind. -/
theorem Closes.any {kind : Kind} {ts : List Token} (h : Closes kind ts) :
    (ts.head?.any fun t => t.kind == kind) = true := by
  obtain ⟨t, ht, hkind⟩ := h
  rw [ht]
  exact beq_iff_eq.mpr hkind

namespace Gives

variable {n m k : Nat} {ts us rest : List Token} {v : α}

/-- One reader after another. -/
theorem bind {first : Reader β} {next : β → Reader α} {b : β}
    (h : Gives first n ts (us ++ rest) b k) (hnext : Gives (next b) k us rest v m) :
    Gives (first >>= next) n (ts ++ us) rest v m := by
  intro stop errors
  obtain ⟨found, hb⟩ := h stop errors
  obtain ⟨later, hv⟩ := hnext stop (errors ++ found)
  refine ⟨found ++ later, ?_⟩
  rw [List.append_assoc, bind_of_ok hb, hv, List.append_assoc]

/-- One reader that goes on as another one. -/
theorem ofContinues {reader after : Reader α} (h : Continues reader after n ts (us ++ rest) k)
    (hafter : Gives after k us rest v m) : Gives reader n (ts ++ us) rest v m := by
  intro stop errors
  obtain ⟨found, hv⟩ := hafter stop errors
  refine ⟨found, ?_⟩
  rw [List.append_assoc, h stop errors, hv]

/-- Reading a token that has a value. -/
theorem read {f : Token → Option β} {next : Option β → Reader α} {t : Token} {b : β}
    (ht : f t = some b) (h : Gives (next (some b)) n us rest v m) :
    Gives (acceptMap? f >>= next) n (t :: us) rest v m := by
  have hread : Continues (acceptMap? f >>= next) (next (some b)) n [t] (us ++ rest) n :=
    .acceptMap ht (.refl _)
  exact ofContinues hread h

/-- Leaving a token that has no value. -/
theorem skip {f : Token → Option β} {next : Option β → Reader α}
    (ht : ∀ t ∈ (us ++ rest).head?, f t = none) (h : Gives (next none) n us rest v m) :
    Gives (acceptMap? f >>= next) n us rest v m := by
  have hskip : Continues (acceptMap? f >>= next) (next none) n [] (us ++ rest) n :=
    .skipMap ht (.refl _)
  exact ofContinues hskip h

/-- Going on as the next token tells. -/
theorem look {g : Option Token → β} {next : β → Reader α} {reader : Reader α} {b : β}
    (hlook : ∀ c, reader c = next (g c.rest.head?) c) (hb : g (us ++ rest).head? = b)
    (h : Gives (next b) n us rest v m) : Gives reader n us rest v m := by
  intro stop errors
  obtain ⟨found, hv⟩ := h stop errors
  refine ⟨found, (hlook _).trans ?_⟩
  dsimp only
  rw [hb, hv]

end Gives

/-- A value behind two readers is one behind the first and then the second. -/
theorem exists_of_bind_ok {first : Reader β} {next : β → Reader α} {c after : Cursor} {v : α}
    (h : (first >>= next) c = .ok v after) :
    ∃ b middle, first c = .ok b middle ∧ next b middle = .ok v after := by
  change EStateM.bind first next c = _ at h
  unfold EStateM.bind at h
  split at h
  · rename_i b middle hb
    exact ⟨b, middle, hb, h⟩
  · cases h

/-- No value behind two readers comes from the first or from the second one. -/
theorem exists_of_bind_error {first : Reader β} {next : β → Reader α} {c after : Cursor}
    {halt : Halt} (h : (first >>= next) c = .error halt after) :
    first c = .error halt after ∨
      ∃ b middle, first c = .ok b middle ∧ next b middle = .error halt after := by
  change EStateM.bind first next c = _ at h
  unfold EStateM.bind at h
  split at h
  · rename_i b middle hb
    exact .inr ⟨b, middle, hb, h⟩
  · rename_i halt' after' hhalt
    cases h
    exact .inl hhalt

/-- Two readers pass their tokens one after the other. -/
theorem passed_both {ts middle rest used used₁ used₂ : List Token} (hused : ts = used ++ rest)
    (hused₁ : ts = used₁ ++ middle) (hused₂ : middle = used₂ ++ rest) : used = used₁ ++ used₂ := by
  rw [hused₁, hused₂, ← List.append_assoc] at hused
  exact (List.append_cancel_right hused).symm

/-- What may be read of the next token, and how the reading goes on in either case. -/
theorem acceptMap_bind_cases (f : Token → Option β) (next : Option β → Reader α) (c : Cursor) :
    (∃ t rest b, c.rest = t :: rest ∧ f t = some b ∧
        (acceptMap? f >>= next) c = next (some b) { c with rest }) ∨
      (∀ t ∈ c.rest.head?, f t = none) ∧ (acceptMap? f >>= next) c = next none c := by
  obtain ⟨ts, stop, n, errors⟩ := c
  cases ts with
  | nil => exact .inr ⟨fun t ht => absurd ht (Option.not_mem_none t), rfl⟩
  | cons t rest =>
    cases hf : f t with
    | none =>
      have hskip : Continues (acceptMap? f >>= next) (next none) n [] (t :: rest) n :=
        .skipMap (by rintro _ ⟨⟩; exact hf) (.refl _)
      exact .inr ⟨by rintro _ ⟨⟩; exact hf, hskip stop errors⟩
    | some b =>
      have hread : Continues (acceptMap? f >>= next) (next (some b)) n [t] rest n :=
        .acceptMap hf (.refl _)
      exact .inl ⟨t, rest, b, rfl, hf, hread stop errors⟩

/-- Tokens that were passed are completed by more tokens, none of which ends the source, to
a text that is read before anything that may follow. -/
structure Finishes (follow : List Token → Prop) (reader : Reader α) (n : Nat)
    (used more : List Token) : Prop where
  inner : ∀ t ∈ more, t.kind ≠ .endOfFile
  gives : ∃ v m, ∀ rest, follow rest → Gives reader n (used ++ more) rest v m

/-- What was read stays read before what may follow, and what was begun can be
completed. -/
structure Extends (fuel least : Nat) (follow : List Token → Prop) (reader : Reader α) : Prop where
  planned : Planned reader
  /-- A value is given before anything that may follow, behind so many tokens at least. -/
  kept : ∀ c v after used, reader c = .ok v after → c.rest = used ++ after.rest →
    least ≤ used.length ∧ ∀ rest, follow rest → Gives reader c.nextId used rest v after.nextId
  /-- What was passed before a violation goes on to a text that can be read. -/
  resumed : ∀ c e after used, reader c = .error (.failed e) after → c.rest = used ++ after.rest →
    used ≠ [] → used.length < fuel → ∃ more, Finishes follow reader c.nextId used more

/-- A reader that reads at least this text, and can go on wherever it has begun. -/
structure Viable (fuel least : Nat) (text : List Token) (follow : List Token → Prop)
    (reader : Reader α) : Prop extends Extends fuel least follow reader where
  /-- The text can be read with any fuel at all. -/
  fresh : 0 < fuel → ∀ n, Finishes follow reader n [] text

variable {fuel fuel' least least' : Nat} {text text' : List Token}
  {follow follow' : List Token → Prop}

namespace Finishes

variable {n : Nat} {used more : List Token}

/-- Less may follow. -/
theorem mono {reader : Reader α} (h : Finishes follow reader n used more)
    (hfollow : ∀ rest, follow' rest → follow rest) : Finishes follow' reader n used more := by
  obtain ⟨hinner, v, m, hgives⟩ := h
  exact ⟨hinner, v, m, fun rest hrest => hgives rest (hfollow rest hrest)⟩

/-- A completed first part is followed by the shortest text of the second one. -/
theorem append {follow₁ : List Token → Prop} {first : Reader β} {next : β → Reader α}
    (h : Finishes follow₁ first n used more)
    (hnext : ∀ b k, Finishes follow (next b) k [] text)
    (hlead : ∀ rest, follow rest → follow₁ (text ++ rest)) :
    Finishes follow (first >>= next) n used (more ++ text) := by
  obtain ⟨hinner, b, k, hgives₁⟩ := h
  obtain ⟨hinner₂, v, m, hgives₂⟩ := hnext b k
  have hboth : ∀ t ∈ more ++ text, t.kind ≠ .endOfFile :=
    fun t ht => (List.mem_append.mp ht).elim (hinner t) (hinner₂ t)
  refine ⟨hboth, v, m, fun rest hrest => ?_⟩
  rw [← List.append_assoc]
  exact (hgives₁ _ (hlead rest hrest)).bind (hgives₂ rest hrest)

/-- What completes the second part completes both, behind the tokens of the first one. -/
theorem behind {first : Reader β} {next : β → Reader α} {used₁ used₂ : List Token} {b : β}
    {k : Nat} (h : Finishes follow (next b) k used₂ more)
    (hb : ∀ rest, follow rest → Gives first n used₁ (used₂ ++ more ++ rest) b k) :
    Finishes follow (first >>= next) n (used₁ ++ used₂) more := by
  obtain ⟨hinner, v, m, hgives⟩ := h
  refine ⟨hinner, v, m, fun rest hrest => ?_⟩
  rw [List.append_assoc]
  exact (hb rest hrest).bind (hgives rest hrest)

/-- What completes what follows a token that was read. -/
theorem read {f : Token → Option β} {next : Option β → Reader α} {t : Token} {b : β}
    (ht : f t = some b) (h : Finishes follow (next (some b)) n used more) :
    Finishes follow (acceptMap? f >>= next) n (t :: used) more := by
  obtain ⟨hinner, v, m, hgives⟩ := h
  exact ⟨hinner, v, m, fun rest hrest => .read ht (hgives rest hrest)⟩

/-- What completes what follows where a token is left. -/
theorem skip {f : Token → Option β} {next : Option β → Reader α}
    (hskip : ∀ rest, follow rest → ∀ t ∈ (used ++ more ++ rest).head?, f t = none)
    (h : Finishes follow (next none) n used more) :
    Finishes follow (acceptMap? f >>= next) n used more := by
  obtain ⟨hinner, v, m, hgives⟩ := h
  exact ⟨hinner, v, m, fun rest hrest => .skip (hskip rest hrest) (hgives rest hrest)⟩

/-- What completes what follows on looking at the next token. -/
theorem look (g : Option Token → β) (next : β → Reader α) {reader : Reader α} {b : β}
    (hlook : ∀ c, reader c = next (g c.rest.head?) c)
    (hb : ∀ rest, follow rest → g (used ++ more ++ rest).head? = b)
    (h : Finishes follow (next b) n used more) : Finishes follow reader n used more := by
  obtain ⟨hinner, v, m, hgives⟩ := h
  exact ⟨hinner, v, m, fun rest hrest => .look hlook (hb rest hrest) (hgives rest hrest)⟩

end Finishes

namespace Extends

/-- Less may be claimed. -/
theorem mono {reader : Reader α} (h : Extends fuel least follow reader) (hfuel : fuel' ≤ fuel)
    (hleast : least' ≤ least) (hfollow : ∀ rest, follow' rest → follow rest) :
    Extends fuel' least' follow' reader where
  planned := h.planned
  kept c v after used hv hused := by
    obtain ⟨hlength, hgives⟩ := h.kept c v after used hv hused
    exact ⟨Nat.le_trans hleast hlength, fun rest hrest => hgives rest (hfollow rest hrest)⟩
  resumed c e after used he hused hne hlength := by
    obtain ⟨more, hmore⟩ := h.resumed c e after used he hused hne
      (Nat.lt_of_lt_of_le hlength hfuel)
    exact ⟨more, hmore.mono hfollow⟩

/-- Giving up because a required part is missing passes nothing. -/
theorem missing (what : Expectation) : Extends fuel least follow (missing what : Reader α) where
  planned := .missing what
  kept c v after used hv := by cases hv
  resumed c e after used he hused hne := by
    cases he
    exact absurd (List.self_eq_append_left.mp hused) hne

/-- Giving up for lack of fuel. -/
theorem exhausted : Extends fuel least follow (exhausted : Reader α) where
  planned := .exhausted
  kept c v after used hv := by cases hv
  resumed c e after used he := by cases he

/-- One reader after another. What may follow the second one, or its shortest text before
it, may follow the first one. -/
theorem bind {fuel₁ fuel₂ least₁ least₂ : Nat} {text₁ text₂ : List Token}
    {follow₁ : List Token → Prop} {first : Reader β} {next : β → Reader α}
    (h : Viable fuel₁ least₁ text₁ follow₁ first)
    (hnext : ∀ b, Viable fuel₂ least₂ text₂ follow (next b)) (hfuel₁ : fuel ≤ fuel₁)
    (hfuel₂ : fuel ≤ fuel₂ + min 1 least₁) (hleast : least ≤ least₁ + least₂)
    (hlead : ∀ rest, follow rest → follow₁ (text₂ ++ rest))
    (hempty : least₂ = 0 → ∀ rest, follow rest → follow₁ rest) :
    Extends fuel least follow (first >>= next) where
  planned := h.planned.bind fun b => (hnext b).planned
  kept c v after used hv hused := by
    obtain ⟨b, middle, hb, hv⟩ := exists_of_bind_ok hv
    obtain ⟨used₁, hused₁⟩ := h.planned.passes_ok hb
    obtain ⟨used₂, hused₂⟩ := (hnext b).planned.passes_ok hv
    obtain rfl : used = used₁ ++ used₂ := passed_both hused hused₁ hused₂
    obtain ⟨hleast₁, hgives₁⟩ := h.kept c b middle used₁ hb hused₁
    obtain ⟨hleast₂, hgives₂⟩ := (hnext b).kept middle v after used₂ hv hused₂
    refine ⟨by rw [List.length_append]; omega, fun rest hrest => ?_⟩
    refine Gives.bind ?_ (hgives₂ rest hrest)
    cases used₂ with
    | nil => exact hgives₁ rest (hempty (Nat.le_zero.mp hleast₂) rest hrest)
    | cons t used₂ => exact h.planned.gives hb hused₁ (by rw [hused₂]; rfl)
  resumed c e after used he hused hne hlength := by
    rcases exists_of_bind_error he with he | ⟨b, middle, hb, he⟩
    · -- The first reader is completed, and the second one reads its shortest text.
      have hpositive := List.length_pos_iff.mpr hne
      obtain ⟨more, hmore⟩ := h.resumed c e after used he hused hne (by omega)
      exact ⟨more ++ text₂, hmore.append (fun b => (hnext b).fresh (by omega)) hlead⟩
    · obtain ⟨used₁, hused₁⟩ := h.planned.passes_ok hb
      obtain ⟨used₂, hused₂⟩ := (hnext b).planned.passes_error he
      obtain rfl : used = used₁ ++ used₂ := passed_both hused hused₁ hused₂
      obtain ⟨hleast₁, hgives₁⟩ := h.kept c b middle used₁ hb hused₁
      rw [List.length_append] at hlength
      cases used₂ with
      | nil =>
        -- Only the first one passed tokens; the second one has its shortest text to read.
        exact ⟨text₂, ((hnext b).fresh (by omega) middle.nextId).behind
          fun rest hrest => hgives₁ _ (hlead rest hrest)⟩
      | cons t used₂ =>
        obtain ⟨more, hmore⟩ := (hnext b).resumed middle e after (t :: used₂) he hused₂
          (List.cons_ne_nil t used₂) (by omega)
        exact ⟨more, hmore.behind fun _ _ => h.planned.gives hb hused₁ (by rw [hused₂]; rfl)⟩

/-- What may be read of the next token, and what follows in either case. -/
theorem acceptMap {fuel₁ least₁ : Nat} {text₁ : List Token} {f : Token → Option β}
    {next : Option β → Reader α}
    (hsome : ∀ b, Viable fuel₁ least₁ text₁ follow (next (some b)))
    (hnone : Extends fuel least follow (next none)) (hfuel : fuel ≤ fuel₁ + 1)
    (hleast : least ≤ 1 + least₁)
    (hskip : least = 0 → ∀ rest, follow rest → ∀ t ∈ rest.head?, f t = none) :
    Extends fuel least follow (acceptMap? f >>= next) where
  planned := .choose (.acceptMap f) (fun b => (hsome b).planned) hnone.planned
  kept c v after used hv hused := by
    rcases acceptMap_bind_cases f next c with ⟨t, rest, b, hrest, hf, heq⟩ | ⟨hhead, heq⟩
    · rw [heq] at hv
      obtain ⟨used₁, hused₁⟩ := (hsome b).planned.passes_ok hv
      have hrest : c.rest = [t] ++ rest := hrest
      obtain rfl : used = [t] ++ used₁ := passed_both hused hrest hused₁
      obtain ⟨hlength, hgives⟩ := (hsome b).kept _ v after used₁ hv hused₁
      exact ⟨by simp; omega, fun rest hrest => .read hf (hgives rest hrest)⟩
    · rw [heq] at hv
      obtain ⟨hlength, hgives⟩ := hnone.kept c v after used hv hused
      refine ⟨hlength, fun rest hrest => .skip ?_ (hgives rest hrest)⟩
      cases used with
      | nil => exact hskip (Nat.le_zero.mp hlength) rest hrest
      | cons t used =>
        rw [hused] at hhead
        exact hhead
  resumed c e after used he hused hne hlength := by
    rcases acceptMap_bind_cases f next c with ⟨t, rest, b, hrest, hf, heq⟩ | ⟨hhead, heq⟩
    · rw [heq] at he
      obtain ⟨used₁, hused₁⟩ := (hsome b).planned.passes_error he
      have hrest : c.rest = [t] ++ rest := hrest
      obtain rfl : used = [t] ++ used₁ := passed_both hused hrest hused₁
      rw [List.length_append, List.length_singleton] at hlength
      cases used₁ with
      | nil => exact ⟨text₁, ((hsome b).fresh (by omega) c.nextId).read hf⟩
      | cons t' used₁ =>
        obtain ⟨more, hmore⟩ := (hsome b).resumed _ e after (t' :: used₁) he hused₁
          (List.cons_ne_nil t' used₁) (by omega)
        exact ⟨more, hmore.read hf⟩
    · rw [heq] at he
      obtain ⟨more, hmore⟩ := hnone.resumed c e after used he hused hne hlength
      cases used with
      | nil => exact absurd rfl hne
      | cons t used =>
        rw [hused] at hhead
        exact ⟨more, hmore.skip fun _ _ => hhead⟩

/-- What may be read first of all, with what follows it, or else something that reads a
token as well. -/
theorem acceptFirst {fuel₁ least₁ : Nat} {text₁ : List Token} {f : Token → Option β}
    {next : Option β → Reader α}
    (hsome : ∀ b, Viable fuel₁ least₁ text₁ follow (next (some b)))
    (hnone : Extends (fuel₁ + 1) 1 follow (next none)) :
    Extends (fuel₁ + 1) 1 follow (acceptMap? f >>= next) :=
  acceptMap hsome hnone (Nat.le_refl _) (Nat.le_add_right 1 least₁) fun h => by cases h

/-- What is decided by looking at the next token, and what follows in every case. What
passes no token follows only where it is decided the same again. -/
theorem look (leasts : β → Nat) (g : Option Token → β) (next : β → Reader α) {reader : Reader α}
    (planned : Planned reader) (hlook : ∀ c, reader c = next (g c.rest.head?) c)
    (hnext : ∀ b, Extends fuel (leasts b) follow (next b)) (hleast : ∀ b, least ≤ leasts b)
    (hempty : ∀ b, leasts b = 0 → ∀ rest, follow rest → g rest.head? = b) :
    Extends fuel least follow reader where
  planned := planned
  kept c v after used hv hused := by
    rw [hlook] at hv
    obtain ⟨hlength, hgives⟩ := (hnext _).kept c v after used hv hused
    refine ⟨Nat.le_trans (hleast _) hlength, fun rest hrest => .look hlook ?_ (hgives rest hrest)⟩
    cases used with
    | nil => exact hempty _ (Nat.le_zero.mp hlength) rest hrest
    | cons t used =>
      rw [hused]
      rfl
  resumed c e after used he hused hne hlength := by
    rw [hlook] at he
    obtain ⟨more, hmore⟩ := (hnext _).resumed c e after used he hused hne hlength
    refine ⟨more, .look g next hlook (fun _ _ => ?_) hmore⟩
    cases used with
    | nil => exact absurd rfl hne
    | cons t used =>
      rw [hused]
      rfl

end Extends

namespace Viable

/-- Less may be claimed. -/
theorem mono {reader : Reader α} (h : Viable fuel least text follow reader) (hfuel : fuel' ≤ fuel)
    (hleast : least' ≤ least) (hfollow : ∀ rest, follow' rest → follow rest) :
    Viable fuel' least' text follow' reader where
  toExtends := h.toExtends.mono hfuel hleast hfollow
  fresh hpositive n := (h.fresh (Nat.lt_of_lt_of_le hpositive hfuel) n).mono hfollow

/-- Giving up for lack of fuel. -/
theorem exhausted : Viable 0 least text follow (exhausted : Reader α) :=
  ⟨.exhausted, fun hpositive => absurd hpositive (Nat.lt_irrefl 0)⟩

/-- A primitive that passes nothing and always gives a value, the same before anything. -/
theorem still {reader : Reader α} (planned : Planned reader)
    (h : ∀ n, ∃ v m, ∀ rest, Gives reader n [] rest v m) : Viable fuel 0 [] follow reader where
  planned := planned
  kept c v after used hv hused := by
    obtain ⟨v', m, hgives⟩ := h c.nextId
    obtain ⟨found, hfound⟩ := hgives c.rest c.stop c.errors
    cases hv.symm.trans hfound
    obtain rfl := List.self_eq_append_left.mp hused
    exact ⟨Nat.le_refl 0, fun rest _ => hgives rest⟩
  resumed c e after used he := by
    obtain ⟨v, m, hgives⟩ := h c.nextId
    obtain ⟨found, hfound⟩ := hgives c.rest c.stop c.errors
    cases he.symm.trans hfound
  fresh _ n := by
    obtain ⟨v, m, hgives⟩ := h n
    exact ⟨fun t ht => absurd ht List.not_mem_nil, v, m, fun rest _ => hgives rest⟩

/-- A value given without reading. -/
theorem pure (v : α) : Viable fuel 0 [] follow (Pure.pure v : Reader α) :=
  still (.pure v) fun n => ⟨v, n, fun _ _ errors => ⟨[], by rw [List.append_nil]; rfl⟩⟩

/-- Completing an expression. -/
theorem node (make : Nat → Expr) : Viable fuel 0 [] follow (node make) :=
  still (.node make) fun n =>
    ⟨make n, n + 1, fun _ _ errors => ⟨[], by rw [List.append_nil]; rfl⟩⟩

/-- Noting a violation at the next token. -/
theorem noteHere (fault : SyntaxFault) : Viable fuel 0 [] follow (noteHere fault) :=
  still (.noteHere fault) fun n => ⟨(), n, fun _ _ _ => ⟨_, rfl⟩⟩

/-- Noting a violation at an earlier token. -/
theorem noteAt (place : Token) (fault : SyntaxFault) :
    Viable fuel 0 [] follow (noteAt place fault) :=
  still (.noteAt place fault) fun n => ⟨(), n, fun _ _ _ => ⟨_, rfl⟩⟩

/-- One reader after another, with enough fuel for both. -/
theorem bind {fuel₁ least₁ least₂ : Nat} {text₁ text₂ : List Token} {follow₁ : List Token → Prop}
    {first : Reader β} {next : β → Reader α} (h : Viable fuel₁ least₁ text₁ follow₁ first)
    (hnext : ∀ b, Viable fuel least₂ text₂ follow (next b)) (htext : text = text₁ ++ text₂)
    (hfuel : fuel ≤ fuel₁) (hleast : least ≤ least₁ + least₂)
    (hlead : ∀ rest, follow rest → follow₁ (text₂ ++ rest))
    (hempty : least₂ = 0 → ∀ rest, follow rest → follow₁ rest) :
    Viable fuel least text follow (first >>= next) where
  toExtends := .bind h hnext hfuel (Nat.le_add_right _ _) hleast hlead hempty
  fresh hpositive n := by
    rw [htext]
    exact (h.fresh (Nat.lt_of_lt_of_le hpositive hfuel) n).append
      (fun b => (hnext b).fresh hpositive) hlead

/-- One reader after another, the first of which may be followed by anything. -/
theorem behind {fuel₁ least₂ : Nat} {text₁ text₂ : List Token} {first : Reader β}
    {next : β → Reader α} (h : Viable fuel₁ least text₁ (fun _ => True) first)
    (hnext : ∀ b, Viable fuel least₂ text₂ follow (next b)) (htext : text = text₁ ++ text₂)
    (hfuel : fuel ≤ fuel₁) : Viable fuel least text follow (first >>= next) :=
  bind h hnext htext hfuel (Nat.le_add_right _ _) (fun _ _ => trivial) fun _ _ _ => trivial

/-- What follows a reader that passes nothing. -/
theorem after {first : Reader β} {next : β → Reader α}
    (h : Viable fuel 0 [] (fun _ => True) first)
    (hnext : ∀ b, Viable fuel least text follow (next b)) :
    Viable fuel least text follow (first >>= next) :=
  bind h hnext rfl (Nat.le_refl _) (Nat.le_add_left _ _) (fun _ _ => trivial) fun _ _ _ => trivial

/-- One reader after another that need not read any more, where the same may follow both. -/
theorem andThen {fuel₁ least₂ : Nat} {first : Reader β} {next : β → Reader α}
    (h : Viable fuel₁ least text follow first)
    (hnext : ∀ b, Viable fuel least₂ [] follow (next b)) (hfuel : fuel ≤ fuel₁) :
    Viable fuel least text follow (first >>= next) :=
  bind h hnext (List.append_nil text).symm hfuel (Nat.le_add_right _ _) (fun _ hrest => hrest)
    fun _ _ hrest => hrest

/-- A reader and what is made of its value. -/
theorem andPure {f : β → α} {first : Reader β} (h : Viable fuel least text follow first) :
    Viable fuel least text follow (first >>= fun b => Pure.pure (f b)) :=
  andThen h (fun b => pure (f b)) (Nat.le_refl _)

/-- The image of a value. -/
theorem map {f : β → α} {first : Reader β} (h : Viable fuel least text follow first) :
    Viable fuel least text follow (f <$> first) := by
  rw [map_eq_pure_bind]
  exact h.andPure

/-- What follows a violation that is noted on some condition. -/
theorem noteIf {p : Prop} [Decidable p] {fault : SyntaxFault} {next : Reader α}
    (h : Viable fuel least text follow next) :
    Viable fuel least text follow
      (if p then Grammar.noteHere fault >>= fun _ => next else next) := by
  split
  · exact after (noteHere fault) fun _ => h
  · exact h

/-- What may be read first of all, with a text in which it is read, or else something that
reads a token as well. -/
theorem acceptFirst {least₁ : Nat} {text₁ : List Token} {f : Token → Option β}
    {next : Option β → Reader α} {t : Token} {b₀ : β} (ht : f t = some b₀)
    (hinner : t.kind ≠ .endOfFile)
    (hsome : ∀ fuel b, Viable fuel least₁ text₁ follow (next (some b)))
    (hnone : Extends (fuel + 1) 1 follow (next none)) :
    Viable (fuel + 1) 1 (t :: text₁) follow (acceptMap? f >>= next) where
  toExtends := .acceptFirst (hsome fuel) hnone
  fresh _ n := by
    obtain ⟨hall, v, m, hgives⟩ := (hsome 1 b₀).fresh Nat.one_pos n
    refine ⟨fun t' ht' => ?_, v, m, fun rest hrest => .read ht (hgives rest hrest)⟩
    rcases List.mem_cons.mp ht' with rfl | ht'
    · exact hinner
    · exact hall t' ht'

/-- Reading a required token, whatever follows it. -/
theorem required {kind : Kind} (hkind : kind ≠ .endOfFile) (what : Expectation) :
    Viable fuel 1 [sample kind] follow (Grammar.expect kind what) := by
  have hread : Viable (fuel + 1) 1 [sample kind] follow (Grammar.expect kind what) :=
    acceptFirst (if_pos (List.mem_singleton_self kind)) hkind (fun _ t => pure t) (.missing what)
  exact hread.mono (Nat.le_succ fuel) (Nat.le_refl 1) fun _ hrest => hrest

/-- Reading a required token. -/
theorem expect {least₂ : Nat} {kind : Kind} {what : Expectation} {next : Token → Reader α}
    (hkind : kind ≠ .endOfFile) (h : ∀ t, Viable fuel least₂ text follow (next t)) :
    Viable fuel 1 (sample kind :: text) follow (Grammar.expect kind what >>= next) :=
  behind (required hkind what) h rfl (Nat.le_refl _)

/-- A reader that may be followed by a token of this kind, and that token. -/
theorem closed {fuel₁ least₁ least₂ : Nat} {text₁ text₂ : List Token}
    {follow₁ : List Token → Prop} {kind : Kind} {what : Expectation} {first : Reader β}
    {next : β → Token → Reader α} (h : Viable fuel₁ least₁ text₁ follow₁ first)
    (hfuel : fuel ≤ fuel₁) (hkind : kind ≠ .endOfFile)
    (hlead : ∀ rest, follow₁ (sample kind :: rest))
    (hnext : ∀ b t, Viable fuel least₂ text₂ follow (next b t)) :
    Viable fuel 1 (text₁ ++ sample kind :: text₂) follow
      (first >>= fun b => Grammar.expect kind what >>= next b) :=
  bind h (fun b => expect hkind (hnext b)) rfl hfuel (Nat.le_add_left _ _) (fun _ _ => hlead _)
    fun hzero => by cases hzero

/-- A token that may be read, where the shortest text does without it. -/
theorem accept {fuel₁ least₁ : Nat} {text₁ : List Token} {kinds : List Kind} {t : Token}
    {next : Option Token → Reader α} (hsome : ∀ t, Viable fuel₁ least₁ text₁ follow (next (some t)))
    (hnone : Viable fuel 1 (t :: text) follow (next none)) (ht : t.kind ∉ kinds)
    (hfuel : fuel ≤ fuel₁ + 1) :
    Viable fuel 1 (t :: text) follow (acceptAny? kinds >>= next) where
  toExtends := .acceptMap hsome hnone.toExtends hfuel (by omega) fun h => by cases h
  fresh hpositive n := by
    refine (hnone.fresh hpositive n).skip fun rest _ => ?_
    rintro _ ⟨⟩
    exact if_neg ht

/-- A token that may be read, where the shortest text is empty. -/
theorem acceptLast {fuel₁ least₁ : Nat} {text₁ : List Token} {kinds : List Kind}
    {next : Option Token → Reader α} (hsome : ∀ t, Viable fuel₁ least₁ text₁ follow (next (some t)))
    (hnone : Viable fuel 0 [] follow (next none)) (hstops : ∀ rest, follow rest → Stops kinds rest)
    (hfuel : fuel ≤ fuel₁ + 1) : Viable fuel 0 [] follow (acceptAny? kinds >>= next) where
  toExtends := .acceptMap hsome hnone.toExtends hfuel (Nat.zero_le _)
    fun _ rest hrest t ht => if_neg (hstops rest hrest t ht)
  fresh hpositive n :=
    (hnone.fresh hpositive n).skip fun rest hrest t ht => if_neg (hstops rest hrest t ht)

/-- A reader that stops at what may follow it, and otherwise goes on. -/
theorem stopping (g : Option Token → Bool) {stopped more reader : Reader α}
    (planned : Planned reader)
    (hlook : ∀ c, reader c = (if g c.rest.head? then stopped else more) c)
    (hstop : Viable fuel 0 [] follow stopped) (hmore : Extends fuel 1 follow more)
    (hfollow : ∀ rest, follow rest → g rest.head? = true) : Viable fuel 0 [] follow reader where
  toExtends := by
    refine .look (fun b => bif b then 0 else 1) g (fun b => if b then stopped else more) planned
      hlook (fun b => ?_) (fun _ => Nat.zero_le _) fun b hzero rest hrest => ?_
    · cases b with
      | true => exact hstop.toExtends
      | false => exact hmore
    · cases b with
      | true => exact hfollow rest hrest
      | false => cases hzero
  fresh hpositive n :=
    .look g (fun b => if b then stopped else more) hlook hfollow (hstop.fresh hpositive n)

/-- A reader that stops at the kind of token that follows it. -/
theorem stoppingAt {kind : Kind} {stopped more : Reader α}
    (hstop : Viable fuel 0 [] (Closes kind) stopped) (hmore : Extends fuel 1 (Closes kind) more) :
    Viable fuel 0 [] (Closes kind)
      (nextIs kind >>= fun stops => if stops then stopped else more) :=
  stopping _ (.decided (.nextIs kind) hstop.planned hmore.planned)
    (fun c => bind_of_ok (nextIs_eq kind c)) hstop hmore fun _ hrest => hrest.any

/-- What is decided by the kind of the next token, where both cases read some token. -/
theorem decided {kind : Kind} {next : Bool → Reader α}
    (htrue : Viable fuel 1 (sample kind :: text) follow (next true))
    (hfalse : Extends fuel 1 follow (next false)) :
    Viable fuel 1 (sample kind :: text) follow (nextIs kind >>= next) where
  toExtends := by
    refine .look (fun _ => 1) _ next (.decided (.nextIs kind) htrue.planned hfalse.planned)
      (fun c => bind_of_ok (nextIs_eq kind c)) (fun b => ?_) (fun _ => Nat.le_refl 1)
      fun _ hone => by cases hone
    cases b with
    | true => exact htrue.toExtends
    | false => exact hfalse
  fresh hpositive n :=
    .look _ next (fun c => bind_of_ok (nextIs_eq kind c)) (fun _ _ => beq_self_eq_true kind)
      (htrue.fresh hpositive n)

end Viable

end Scriptlet.Grammar
